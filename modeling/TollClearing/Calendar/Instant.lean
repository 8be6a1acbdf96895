import TollClearing.Calendar.Date
import TollClearing.Power

/-!
Instants of universal time, to the nanosecond. A leap second is the second after a minute's
fifty-ninth: its nanoseconds count on from 10⁹. Instants are read with an offset from universal
time and written without one, with 0, 3, 6 or 9 digits after the second, the fewest that lose
nothing.
-/

set_option autoImplicit false

namespace TollClearing

open TollClearing.Text

structure Instant where
  date : Date
  second : Nat
  nano : Nat
  second_lt : second < 86400
  nano_lt : nano < 2000000000
  leap : 1000000000 ≤ nano → second % 60 = 59
  deriving DecidableEq, Repr

namespace Instant

def ofParts? (date : Date) (second nano : Nat) : Option Instant :=
  if h : second < 86400 ∧ nano < 2000000000 ∧ (1000000000 ≤ nano → second % 60 = 59) then
    some ⟨date, second, nano, h.1, h.2.1, h.2.2⟩
  else none

def ofNanoseconds? (n : Int) : Option Instant := do
  let seconds := n / 1000000000
  let date ← Date.ofDayNumber? (seconds / 86400)
  ofParts? date (seconds % 86400).toNat (n % 1000000000).toNat

def index (t : Instant) : Int := (t.date.index * 86400 + t.second) * 2000000000 + t.nano

instance : LE Instant := ⟨fun a b => a.index ≤ b.index⟩

instance : LT Instant := ⟨fun a b => a.index < b.index⟩

instance (a b : Instant) : Decidable (a ≤ b) := inferInstanceAs (Decidable (a.index ≤ b.index))

instance (a b : Instant) : Decidable (a < b) := inferInstanceAs (Decidable (a.index < b.index))

def fractionText (nano : Nat) : List Char :=
  if nano = 0 then []
  else if nano % 1000000 = 0 then '.' :: padded 3 (nano / 1000000)
  else if nano % 1000 = 0 then '.' :: padded 6 (nano / 1000)
  else '.' :: padded 9 nano

def write (t : Instant) : List Char :=
  let second := t.second % 60 + t.nano / 1000000000
  t.date.write ++ 'T' :: padded 2 (t.second / 3600) ++ ':' :: padded 2 (t.second / 60 % 60)
    ++ ':' :: padded 2 second ++ fractionText (t.nano % 1000000000) ++ ['Z']

def text (t : Instant) : String := String.ofList t.write

/-- Nanoseconds after a point: nine digits count, more are passed over. -/
def readFraction : List Char → Option (Nat × List Char)
  | '.' :: s =>
    match spanDigits s with
    | ([], _) => none
    | (ds, rest) =>
      let kept := ds.take 9
      some (digitsValue kept * tenTo (9 - kept.length), rest)
  | s => some (0, s)

def readClock (s : List Char) : Option ((Nat × Nat) × List Char) := do
  let (hour, s) ← Date.readTwoDigits s
  let s ← Date.readMark true ':' s
  let (minute, s) ← Date.readTwoDigits s
  let s ← Date.readMark true ':' s
  let (second, s) ← Date.readTwoDigits s
  let (nano, s) ← readFraction s
  if hour < 24 ∧ minute < 60 ∧ second ≤ 60 then
    let start := hour * 3600 + minute * 60
    some (if second = 60 then (start + 59, 1000000000 + nano) else (start + second, nano), s)
  else none

/-- Hours and minutes of an offset, in seconds; colons and blanks may stand between them. -/
def readOffsetSize (s : List Char) : Option (Nat × List Char) := do
  let twoDigits (s : List Char) : Option (Nat × List Char) :=
    match s with
    | a :: b :: s =>
      if a.isDigit && b.isDigit then some (digitsValue [a, b], s) else none
    | _ => none
  let (hours, s) ← twoDigits s
  let (minutes, s) ← twoDigits (s.dropWhile fun c => c = ':' || isBlank c)
  if minutes < 60 then some (hours * 3600 + minutes * 60, s) else none

def readOffset (s : List Char) : Option (Int × List Char) :=
  match s with
  | 'Z' :: s => some (0, s)
  | 'z' :: s => some (0, s)
  | '+' :: s => (readOffsetSize s).map fun (n, rest) => ((n : Int), rest)
  | '-' :: s => (readOffsetSize s).map fun (n, rest) => (-(n : Int), rest)
  | '−' :: s => (readOffsetSize s).map fun (n, rest) => (-(n : Int), rest)
  | u :: t :: c :: s =>
    if [u.toUpper, t.toUpper, c.toUpper] = ['U', 'T', 'C'] then some (0, s) else none
  | _ => none

/-- The instant of a local time that is `offset` seconds ahead of universal time, by less than a
day. -/
def ofLocal? (date : Date) (second nano : Nat) (offset : Int) : Option Instant := do
  let universal : Int := second - offset
  if -86400 < offset ∧ offset < 86400 then
    if universal < 0 then ofParts? (← date.previous?) (universal + 86400).toNat nano
    else if universal < 86400 then ofParts? date universal.toNat nano
    else ofParts? (← date.next?) (universal - 86400).toNat nano
  else none

def read (s : List Char) : Option (Instant × List Char) := do
  let (date, s) ← Date.read true s
  match s with
  | mark :: s =>
    if mark = 'T' ∨ mark = 't' ∨ mark = ' ' then
      let ((second, nano), s) ← readClock s
      let (offset, s) ← readOffset (trimStart s)
      let t ← ofLocal? date second nano offset
      some (t, s)
    else none
  | [] => none

def ofText? (s : String) : Option Instant := do
  let (t, rest) ← read s.toList
  if (trimStart rest).isEmpty then some t else none

end Instant

end TollClearing
