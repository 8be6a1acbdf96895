import TollClearing.Json.Value
import TollClearing.Json.Quoted
import TollClearing.Text.Utf8

/-!
Reading a JSON text. The format is strict: no comments, no trailing commas, nothing but blanks
after the value. Arrays and objects nest at most `maxDepth` deep, and the depth still allowed is
the argument that the reader recurs on.
-/

set_option autoImplicit false

namespace TollClearing.Json

open TollClearing.Text

def maxDepth : Nat := 127

def isSpace (c : Char) : Bool := c = ' ' || c = '\n' || c = '\t' || c = '\r'

def skipSpace (s : List Char) : List Char := s.dropWhile isSpace

def readItems {α : Type} (item : List Char → Option (α × List Char)) :
    Nat → List Char → Option (List α × List Char)
  | 0, _ => none
  | count + 1, s => do
    let (a, s) ← item (skipSpace s)
    match skipSpace s with
    | ',' :: s =>
      let (as, s) ← readItems item count s
      some (a :: as, s)
    | ']' :: s => some ([a], s)
    | _ => none

def readArray {α : Type} (item : List Char → Option (α × List Char)) (s : List Char) :
    Option (List α × List Char) :=
  match skipSpace s with
  | ']' :: s => some ([], s)
  | s => readItems item s.length s

/-- Members up to the closing brace. The value's reader is told what the name has been read as. -/
def readMembers {ν α : Type} (name : List Char → Option (ν × List Char))
    (item : ν → List Char → Option (α × List Char)) :
    Nat → List Char → Option (List (ν × α) × List Char)
  | 0, _ => none
  | count + 1, s => do
    let (n, s) ← name (skipSpace s)
    match skipSpace s with
    | ':' :: s =>
      let (a, s) ← item n (skipSpace s)
      match skipSpace s with
      | ',' :: s =>
        let (as, s) ← readMembers name item count s
        some ((n, a) :: as, s)
      | '\x7d' :: s => some ([(n, a)], s)
      | _ => none
    | _ => none

def readObject {ν α : Type} (name : List Char → Option (ν × List Char))
    (item : ν → List Char → Option (α × List Char)) (s : List Char) :
    Option (List (ν × α) × List Char) :=
  match skipSpace s with
  | '\x7d' :: s => some ([], s)
  | s => readMembers name item s.length s

def readScalar : List Char → Option (Json × List Char)
  | 'n' :: 'u' :: 'l' :: 'l' :: s => some (.null, s)
  | 't' :: 'r' :: 'u' :: 'e' :: s => some (.bool true, s)
  | 'f' :: 'a' :: 'l' :: 's' :: 'e' :: s => some (.bool false, s)
  | '"' :: s => (readQuoted s).map fun (cs, rest) => (.string (String.ofList cs), rest)
  | s => (readNumber s).map fun (n, rest) => (.number n, rest)

def read : Nat → List Char → Option (Json × List Char)
  | 0, s => readScalar s
  | depth + 1, s =>
    match s with
    | '[' :: s => (readArray (read depth) s).map fun (vs, rest) => (.array vs, rest)
    | '\x7b' :: s =>
      (readObject readString (fun _ => read depth) s).map fun (ms, rest) => (.object ms, rest)
    | s => readScalar s

/-- Passes over a value of any depth, whatever the size of its numbers and the surrogates in its
strings and names; `fuel` bounds the depth. -/
def skip : Nat → List Char → Option (Unit × List Char)
  | 0, _ => none
  | fuel + 1, s =>
    match s with
    | '[' :: s => (readArray (skip fuel) s).map fun (_, rest) => ((), rest)
    | '\x7b' :: s => (readObject skipString (fun _ => skip fuel) s).map fun (_, rest) => ((), rest)
    | 'n' :: 'u' :: 'l' :: 'l' :: s => some ((), s)
    | 't' :: 'r' :: 'u' :: 'e' :: s => some ((), s)
    | 'f' :: 'a' :: 'l' :: 's' :: 'e' :: s => some ((), s)
    | '"' :: _ => skipString s
    | s => (NumberText.read s).map fun (_, rest) => ((), rest)

def readAll {α : Type} (reader : List Char → Option (α × List Char)) (s : List Char) : Option α :=
  match reader (skipSpace s) with
  | some (a, rest) => if (skipSpace rest).isEmpty then some a else none
  | none => none

def parse? (s : String) : Option Json := readAll (read maxDepth) s.toList

def ofBytes? (bytes : ByteArray) : Option Json := (String.fromUTF8? bytes).bind parse?

/-- The value at the front of a text, and whether nothing but blanks follows it. -/
def ofFront? (bytes : ByteArray) : Option (Json × Bool) :=
  match String.fromUTF8? bytes with
  | some s =>
    (read maxDepth (skipSpace s.toList)).map fun (v, rest) => (v, (skipSpace rest).isEmpty)
  | none => (read maxDepth (skipSpace (leadingChars bytes))).map fun (v, _) => (v, false)

end TollClearing.Json
