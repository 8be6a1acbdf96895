/-!
Texts whose bytes need not be UTF-8 throughout. The marks of a format are ASCII, so its structure
can be followed byte by byte; only the parts that matter have to be characters.
-/

set_option autoImplicit false

namespace TollClearing.Text

/-- The characters from the byte `i` on, up to the first byte that belongs to none; `count` bounds
their number. -/
def charsFrom (bytes : ByteArray) : Nat → Nat → List Char
  | 0, _ => []
  | count + 1, i =>
    match bytes.utf8DecodeChar? i with
    | none => []
    | some c => c :: charsFrom bytes count (i + c.utf8Size)

def leadingChars (bytes : ByteArray) : List Char := charsFrom bytes bytes.size 0

/-- The bytes one by one, each as the character of its number. -/
def byteChars (bytes : ByteArray) : List Char := bytes.toList.map Char.ofUInt8

def bytesOf (s : List Char) : ByteArray := ⟨(s.map Char.toUInt8).toArray⟩

def byteCount : List Char → Nat
  | [] => 0
  | c :: s => c.utf8Size + byteCount s

/-- What the items of a list of characters stand for. -/
inductive Alphabet where
  | characters
  | bytes
  deriving DecidableEq, Repr

namespace Alphabet

def read {α : Type} (reader : List Char → Option (α × List Char)) (s : List Char) :
    Alphabet → Option (α × List Char)
  | .characters => reader s
  | .bytes =>
    let cs := leadingChars (bytesOf s)
    (reader cs).map fun (a, rest) => (a, s.drop (byteCount cs - byteCount rest))

end Alphabet

end TollClearing.Text
