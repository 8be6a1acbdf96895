import TollClearing.Binary64.Basic
import TollClearing.Calendar.Date
import TollClearing.Toml.Value

/-!
Strings, numbers and times of a settings file. A number or a time is a run of characters without
blanks; only between a date and a time of day one blank may stand.
-/

set_option autoImplicit false

namespace TollClearing.Toml

open TollClearing.Text

def isSpace (c : Char) : Bool := c = ' ' || c = '\t'

def skipSpace (s : List Char) : List Char := s.dropWhile isSpace

def isPlain (c : Char) : Bool := c = '\t' || (0x20 ≤ c.toNat && c.toNat ≠ 0x7F)

def codePoint? (ds : List Char) : Option Char := do
  let n ← ds.foldlM (fun n d => (hexValue? d).map (16 * n + ·)) 0
  if n.isValidChar then some (Char.ofNat n) else none

def unescape? (c : Char) : Option Char :=
  if c = '"' ∨ c = '\\' then some c
  else if c = 'b' then some '\x08'
  else if c = 'f' then some '\x0c'
  else if c = 'n' then some '\n'
  else if c = 'r' then some '\r'
  else if c = 't' then some '\t'
  else none

def consRead (c : Char) (read : Option (List Char × List Char)) : Option (List Char × List Char) :=
  read.map fun (cs, rest) => (c :: cs, rest)

def readBasic : List Char → Option (List Char × List Char)
  | [] => none
  | '"' :: s => some ([], s)
  | '\\' :: 'u' :: a :: b :: c :: d :: s =>
    (codePoint? [a, b, c, d]).bind fun e => consRead e (readBasic s)
  | '\\' :: 'U' :: a :: b :: c :: d :: e :: f :: g :: h :: s =>
    (codePoint? [a, b, c, d, e, f, g, h]).bind fun e => consRead e (readBasic s)
  | '\\' :: c :: s => (unescape? c).bind fun e => consRead e (readBasic s)
  | c :: s => if isPlain c && c ≠ '\\' then consRead c (readBasic s) else none

/-- Ends a string on several lines, after three quotes in a row: two more may be part of it. -/
def closeTriple (quote : Char) (s : List Char) : Option (List Char × List Char) :=
  let extra := (s.takeWhile (· = quote)).length
  if extra ≤ 2 then some (List.replicate extra quote, s.drop extra) else none

def endsLine (s : List Char) : Bool :=
  match skipSpace s with
  | '\n' :: _ => true
  | '\r' :: '\n' :: _ => true
  | _ => false

/-- A string on several lines, after its opening quotes. While `folding`, blanks and new lines are
passed over. -/
def readBasicLines (folding : Bool) : List Char → Option (List Char × List Char)
  | [] => none
  | '"' :: '"' :: '"' :: s => closeTriple '"' s
  | '\n' :: s => if folding then readBasicLines true s else consRead '\n' (readBasicLines false s)
  | '\r' :: '\n' :: s =>
    if folding then readBasicLines true s else consRead '\n' (readBasicLines false s)
  | '\\' :: 'u' :: a :: b :: c :: d :: s =>
    (codePoint? [a, b, c, d]).bind fun e => consRead e (readBasicLines false s)
  | '\\' :: 'U' :: a :: b :: c :: d :: e :: f :: g :: h :: s =>
    (codePoint? [a, b, c, d, e, f, g, h]).bind fun e => consRead e (readBasicLines false s)
  | '\\' :: c :: s =>
    if endsLine (c :: s) then readBasicLines true (c :: s)
    else (unescape? c).bind fun e => consRead e (readBasicLines false s)
  | c :: s =>
    if folding && isSpace c then readBasicLines true s
    else if isPlain c && c ≠ '\\' then consRead c (readBasicLines false s)
    else none

def readLiteral (s : List Char) : Option (List Char × List Char) :=
  let cs := s.takeWhile fun c => isPlain c && c ≠ '\''
  match s.drop cs.length with
  | '\'' :: rest => some (cs, rest)
  | _ => none

def readLiteralLines : List Char → Option (List Char × List Char)
  | [] => none
  | '\'' :: '\'' :: '\'' :: s => closeTriple '\'' s
  | '\n' :: s => consRead '\n' (readLiteralLines s)
  | '\r' :: '\n' :: s => consRead '\n' (readLiteralLines s)
  | c :: s => if isPlain c then consRead c (readLiteralLines s) else none

/-- A new line right after the opening quotes is no part of the string. -/
def dropNewLine : List Char → List Char
  | '\n' :: s => s
  | '\r' :: '\n' :: s => s
  | s => s

def readString : List Char → Option (List Char × List Char)
  | '"' :: '"' :: '"' :: s => readBasicLines false (dropNewLine s)
  | '"' :: s => readBasic s
  | '\'' :: '\'' :: '\'' :: s => readLiteralLines (dropNewLine s)
  | '\'' :: s => readLiteral s
  | _ => none

/-- Digits with single underscores between them. -/
def grouped? (isDigit : Char → Bool) : List Char → Option (List Char)
  | [] => none
  | [d] => if isDigit d then some [d] else none
  | d :: '_' :: s => if isDigit d then (grouped? isDigit s).map (d :: ·) else none
  | d :: s => if isDigit d then (grouped? isDigit s).map (d :: ·) else none

/-- Decimal digits without a zero in front of another digit. -/
def wholeDigits? (s : List Char) : Option (List Char) :=
  match grouped? Char.isDigit s with
  | some ('0' :: _ :: _) => none
  | ds => ds

def splitSign : List Char → Bool × List Char
  | '-' :: s => (true, s)
  | '+' :: s => (false, s)
  | s => (false, s)

def based? (base : Nat) (s : List Char) : Option Nat := do
  let value? (c : Char) : Option Nat := (hexValue? c).filter (· < base)
  let ds ← grouped? (fun c => (value? c).isSome) s
  some (ds.foldl (fun n d => base * n + (value? d).getD 0) 0)

def integer? (s : List Char) : Option Int := do
  let n : Int ← match s with
    | '0' :: 'x' :: ds => (based? 16 ds).map Int.ofNat
    | '0' :: 'o' :: ds => (based? 8 ds).map Int.ofNat
    | '0' :: 'b' :: ds => (based? 2 ds).map Int.ofNat
    | s =>
      let (negative, ds) := splitSign s
      (wholeDigits? ds).map fun ds =>
        if negative then -(digitsValue ds : Int) else (digitsValue ds : Int)
  if -(twoTo 63 : Int) ≤ n ∧ n < twoTo 63 then some n else none

def isHuge (units : Nat) (exponent : Int) : Bool :=
  if units = 0 then false
  else
    let size := (digits units).length + exponent
    if 309 < size then true
    else if size < 309 then false
    else if 0 ≤ exponent then (Binary64.nearest? false (units * tenTo exponent.toNat) 1).isNone
    else (Binary64.nearest? false units (tenTo (-exponent).toNat)).isNone

/-- Whether `s` is a number with a fraction, an exponent or both, or one of the names of the
numbers that have no digits. A positive number has to be a double. -/
def isReal (s : List Char) : Bool :=
  let (negative, body) := splitSign s
  if body = ['i', 'n', 'f'] || body = ['n', 'a', 'n'] then true
  else
    let isMark (c : Char) : Bool := c = 'e' || c = 'E'
    let mantissa := body.takeWhile (!isMark ·)
    let whole := mantissa.takeWhile (· ≠ '.')
    let fraction? := match mantissa.drop whole.length with
      | [] => some []
      | _ :: ds => grouped? Char.isDigit ds
    let exponent? : Option Int := match body.drop mantissa.length with
      | [] => some 0
      | _ :: s =>
        let (negative, ds) := splitSign s
        (grouped? Char.isDigit ds).map fun ds =>
          if negative then -(digitsValue ds : Int) else (digitsValue ds : Int)
    match wholeDigits? whole, fraction?, exponent? with
    | some ds, some fraction, some exponent =>
      whole.length < body.length &&
        (negative || !isHuge (digitsValue (ds ++ fraction)) (exponent - fraction.length))
    | _, _, _ => false

def twoDigits? (most : Nat) : List Char → Option (List Char)
  | a :: b :: s =>
    if a.isDigit && b.isDigit && digitsValue [a, b] ≤ most then some s else none
  | _ => none

def after? (mark : Char) : List Char → Option (List Char)
  | c :: s => if c = mark then some s else none
  | [] => none

def afterClock? (s : List Char) : Option (List Char) := do
  let s ← after? ':' (← twoDigits? 23 s)
  let s ← after? ':' (← twoDigits? 59 s)
  let s ← twoDigits? 60 s
  match s with
  | '.' :: s =>
    match spanDigits s with
    | ([], _) => none
    | (_, rest) => some rest
  | s => some s

def afterDate? : List Char → Option (List Char)
  | y :: z :: u :: v :: '-' :: m :: n :: '-' :: d :: e :: s =>
    if [y, z, u, v, m, n, d, e].all Char.isDigit &&
        (Date.ofParts? (digitsValue [y, z, u, v]) (digitsValue [m, n]) (digitsValue [d, e])).isSome
    then some s
    else none
  | _ => none

def isOffset (s : List Char) : Bool :=
  match s with
  | [] => true
  | ['Z'] => true
  | ['z'] => true
  | sign :: s =>
    (sign = '+' || sign = '-') &&
      (do twoDigits? 59 (← after? ':' (← twoDigits? 23 s))) = some []

def isClock (s : List Char) : Bool :=
  match afterClock? s with
  | some rest => isOffset rest
  | none => false

def isTime (s : List Char) : Bool :=
  match afterDate? s with
  | some [] => true
  | some (mark :: s) => (mark = 'T' || mark = 't') && isClock s
  | none => afterClock? s = some []

def isDate (s : List Char) : Bool := afterDate? s = some []

def isWord (c : Char) : Bool :=
  c.isAlphanum || c = '+' || c = '-' || c = '_' || c = '.' || c = ':'

def ofWord? (w : List Char) : Option Toml :=
  if w = ['t', 'r', 'u', 'e'] then some (.boolean true)
  else if w = ['f', 'a', 'l', 's', 'e'] then some (.boolean false)
  else
    match integer? w with
    | some n => some (.integer n)
    | none =>
      if isReal w then some (.real (String.ofList w))
      else if isTime w then some (.time (String.ofList w))
      else none

def readWord (s : List Char) : Option (Toml × List Char) :=
  let w := s.takeWhile isWord
  let rest := s.drop w.length
  match rest with
  | ' ' :: more =>
    let clock := more.takeWhile isWord
    if isDate w && isClock clock then
      some (.time (String.ofList (w ++ ' ' :: clock)), more.drop clock.length)
    else (ofWord? w).map fun v => (v, rest)
  | rest => (ofWord? w).map fun v => (v, rest)

end TollClearing.Toml
