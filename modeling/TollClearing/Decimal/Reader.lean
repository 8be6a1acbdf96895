import TollClearing.Decimal.Basic

/-!
Reading decimal amounts from text. The plain form is a sign, digits and one point, with
underscores allowed after the first digit. Once 28 places stand or the next one would not fit, the
digit that follows decides how the last place is rounded, a five upward, and only digits and
underscores may come after it. Text that is no plain form may have an exponent.
-/

set_option autoImplicit false

namespace TollClearing.Decimal

open TollClearing.Text

/-- What has been read: the digits as a number, and how many of them follow the point. -/
structure Scan where
  units : Nat
  scale : Nat
  pointSeen : Bool
  digitSeen : Bool

/-- Ends a reading that cannot take another place: the first character left over decides, and an
underscore counts as a zero. -/
def roundBy (units scale : Nat) : List Char → Option (Nat × Nat)
  | [] => some (units, scale)
  | c :: s =>
    if !(c :: s).all fun d => d.isDigit || d = '_' then none
    else if c = '_' || digitsValue [c] < 5 then some (units, scale)
    else if units + 1 < bound then some (units + 1, scale)
    else if scale = 0 then none
    else some ((units + 5) / 10, scale - 1)

/-- Numbers below this take another digit and still fit a word of 64 bits, with 256 to spare. -/
def brief : Nat := 1844674407370954906

/-- Ends a reading with 28 places. Underscores in front of the digit that decides are passed over,
except behind a number that is brief but for its last digit. -/
def roundLast (units : Nat) (s : List Char) : Option (Nat × Nat) :=
  roundBy units 28 (if units / 10 < brief then s else s.dropWhile (· = '_'))

def readPlain (scan : Scan) : List Char → Option (Nat × Nat)
  | [] => if scan.digitSeen then some (scan.units, scan.scale) else none
  | c :: s =>
    if scan.scale = 28 then roundLast scan.units (c :: s)
    else if c.isDigit then
      let units := 10 * scan.units + digitsValue [c]
      if units < bound then
        let scale := if scan.pointSeen then scan.scale + 1 else 0
        readPlain { scan with units, scale, digitSeen := true } s
      else if scan.pointSeen then roundBy scan.units scan.scale (c :: s)
      else none
    else if c = '.' then
      if scan.pointSeen then none else readPlain { scan with pointSeen := true } s
    else if c = '_' then
      if scan.digitSeen then readPlain scan s else none
    else none

def plain? (s : List Char) : Option Decimal := do
  let (negative, s) := match s with
    | '-' :: s => (true, s)
    | '+' :: s => (false, s)
    | s => (false, s)
  let (units, scale) ← readPlain ⟨0, 0, false, false⟩ s
  ofUnits? (if negative then -(units : Int) else units) scale

/-- The plain form with an exponent of 28 at most. Places that are more than 28 are rounded off, a
half upward in size, and a zero that is left keeps its sign. -/
def scientific? (s : List Char) : Option Decimal := do
  let isMark (c : Char) : Bool := c = 'e' || c = 'E'
  let a ← plain? (s.takeWhile (!isMark ·))
  match s.dropWhile (!isMark ·) with
  | [] => none
  | _ :: '-' :: ds =>
    let e ← unsigned? 4294967296 ds
    let surplus := tenTo (a.scale + e - 28)
    if 28 < e then none
    else ofParts? a.negative ((a.size + surplus / 2) / surplus) (min (a.scale + e) 28)
  | _ :: ds =>
    let e ← unsigned? 4294967296 ds
    if e ≤ a.scale then ofUnits? a.units (a.scale - e)
    else if 28 < e then none
    else ofUnits? (a.units * tenTo (e - a.scale)) 0

def ofText? (s : String) : Option Decimal := plain? s.toList <|> scientific? s.toList

end TollClearing.Decimal
