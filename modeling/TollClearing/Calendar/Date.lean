import TollClearing.Text.Blank
import TollClearing.Text.Digits

/-!
Dates of the proleptic Gregorian calendar, in the years from -262143 to 262142. Written, a year
outside of 0 to 9999 has a sign; read, blanks are tolerated before each number, and in the
tolerant form around every token.
-/

set_option autoImplicit false

namespace TollClearing

open TollClearing.Text

namespace Date

def isLeapYear (year : Int) : Bool := year % 4 = 0 && (year % 100 ≠ 0 || year % 400 = 0)

def daysInMonth (year : Int) (month : Nat) : Nat :=
  if month = 2 then if isLeapYear year then 29 else 28
  else if month = 4 ∨ month = 6 ∨ month = 9 ∨ month = 11 then 30
  else 31

def Valid (year : Int) (month day : Nat) : Prop :=
  (-262143 ≤ year ∧ year ≤ 262142) ∧ (1 ≤ month ∧ month ≤ 12) ∧
    1 ≤ day ∧ day ≤ daysInMonth year month

instance (year : Int) (month day : Nat) : Decidable (Valid year month day) :=
  inferInstanceAs (Decidable (_ ∧ _))

end Date

structure Date where
  year : Int
  month : Nat
  day : Nat
  valid : Date.Valid year month day
  deriving DecidableEq, Repr

namespace Date

def ofParts? (year : Int) (month day : Nat) : Option Date :=
  if h : Valid year month day then some ⟨year, month, day, h⟩ else none

/-- A number that grows with the date; months count 31 days in it. -/
def index (d : Date) : Int := d.year * 372 + d.month * 31 + d.day

instance : LE Date := ⟨fun a b => a.index ≤ b.index⟩

instance : LT Date := ⟨fun a b => a.index < b.index⟩

instance (a b : Date) : Decidable (a ≤ b) := inferInstanceAs (Decidable (a.index ≤ b.index))

instance (a b : Date) : Decidable (a < b) := inferInstanceAs (Decidable (a.index < b.index))

def next? (d : Date) : Option Date :=
  if d.day < daysInMonth d.year d.month then ofParts? d.year d.month (d.day + 1)
  else if d.month < 12 then ofParts? d.year (d.month + 1) 1
  else ofParts? (d.year + 1) 1 1

def previous? (d : Date) : Option Date :=
  if 1 < d.day then ofParts? d.year d.month (d.day - 1)
  else if 1 < d.month then ofParts? d.year (d.month - 1) (daysInMonth d.year (d.month - 1))
  else ofParts? (d.year - 1) 12 31

/-- The date that is `n` days after the first of January 1970. A cycle of 400 years has 146097 days;
within it years are counted from the first of March, so that a leap day ends its year. -/
def ofDayNumber? (n : Int) : Option Date :=
  let shifted := n + 719468
  let cycle := shifted / 146097
  let day := (shifted % 146097).toNat
  let year := (day - day / 1460 + day / 36524 - day / 146096) / 365
  let dayOfYear := day - (365 * year + year / 4 - year / 100)
  let march := (5 * dayOfYear + 2) / 153
  let month := if march < 10 then march + 3 else march - 9
  ofParts? (year + cycle * 400 + if month ≤ 2 then 1 else 0) month
    (dayOfYear - (153 * march + 2) / 5 + 1)

def yearText (year : Int) : List Char :=
  if 0 ≤ year ∧ year ≤ 9999 then padded 4 year.toNat
  else (if year < 0 then '-' else '+') :: padded 4 year.natAbs

def write (d : Date) : List Char :=
  yearText d.year ++ '-' :: padded 2 d.month ++ '-' :: padded 2 d.day

def text (d : Date) : String := String.ofList d.write

/-- A year: four digits at most, or a sign and any number of digits. -/
def readYear (s : List Char) : Option (Int × List Char) :=
  match trimStart s with
  | '-' :: s => (readNumber s.length s).map fun (n, rest) => (-(n : Int), rest)
  | '+' :: s => (readNumber s.length s).map fun (n, rest) => ((n : Int), rest)
  | s => (readNumber 4 s).map fun (n, rest) => ((n : Int), rest)

def readTwoDigits (s : List Char) : Option (Nat × List Char) := readNumber 2 (trimStart s)

def readMark (tolerant : Bool) (c : Char) (s : List Char) : Option (List Char) :=
  match if tolerant then trimStart s else s with
  | d :: s => if d = c then some s else none
  | [] => none

def read (tolerant : Bool) (s : List Char) : Option (Date × List Char) := do
  let (year, s) ← readYear s
  let s ← readMark tolerant '-' s
  let (month, s) ← readTwoDigits s
  let s ← readMark tolerant '-' s
  let (day, s) ← readTwoDigits s
  let date ← ofParts? year month day
  some (date, s)

/-- The tolerant form: blanks may stand before and after every token. -/
def ofText? (s : String) : Option Date := do
  let (date, rest) ← read true s.toList
  if (trimStart rest).isEmpty then some date else none

/-- The form that names a period's bounds: blanks may stand only before a number. -/
def ofArgument? (s : String) : Option Date := do
  let (date, rest) ← read false s.toList
  if rest.isEmpty then some date else none

end Date

end TollClearing
