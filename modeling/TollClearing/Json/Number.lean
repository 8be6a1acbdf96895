import TollClearing.Binary64.Shortest

/-!
Numbers of a JSON text. A number without point and exponent that fits 64 bits, signed or
unsigned, is kept exactly. Any other number becomes a double: the first digits, as many as fit
64 bits, are scaled by one power of ten, so that the result can miss the nearest double by one
place. A number beyond the range of doubles is refused.
-/

set_option autoImplicit false

namespace TollClearing.Json

open TollClearing.Text

inductive Number where
  | whole (n : Int)
  | real (x : Binary64)
  deriving DecidableEq, Repr, Inhabited

/-- The parts of a number as written. An absent fraction has no digits; the exponent says
whether it is negative. -/
structure NumberText where
  negative : Bool
  whole : List Char
  fraction : List Char
  exponent : Option (Bool × List Char)
  deriving DecidableEq, Repr

namespace NumberText

def readWhole (s : List Char) : Option (List Char × List Char) :=
  match spanDigits s with
  | ([], _) => none
  | ('0' :: _ :: _, _) => none
  | (ds, rest) => some (ds, rest)

def readFraction : List Char → Option (List Char × List Char)
  | '.' :: s =>
    match spanDigits s with
    | ([], _) => none
    | (ds, rest) => some (ds, rest)
  | s => some ([], s)

def readExponent : List Char → Option (Option (Bool × List Char) × List Char)
  | c :: s =>
    if c = 'e' ∨ c = 'E' then
      let (negative, s) := match s with
        | '-' :: s => (true, s)
        | '+' :: s => (false, s)
        | s => (false, s)
      match spanDigits s with
      | ([], _) => none
      | (ds, rest) => some (some (negative, ds), rest)
    else some (none, c :: s)
  | [] => some (none, [])

def read (s : List Char) : Option (NumberText × List Char) := do
  let (negative, s) := match s with
    | '-' :: s => (true, s)
    | s => (false, s)
  let (whole, s) ← readWhole s
  let (fraction, s) ← readFraction s
  let (exponent, s) ← readExponent s
  some (⟨negative, whole, fraction, exponent⟩, s)

/-- The digits of the whole part that fit 64 bits, as a number, and how many were left over. -/
def wholeSignificand (ds : List Char) : Nat × Nat :=
  ds.foldl (fun (n, left) c =>
    let m := 10 * n + digitsValue [c]
    if left = 0 ∧ m < twoTo 64 then (m, 0) else (n, left + 1)) (0, 0)

/-- The significand with as many digits of the fraction as fit 64 bits, and their count. -/
def appendFraction : Nat → List Char → Nat × Nat
  | n, [] => (n, 0)
  | n, c :: ds =>
    let m := 10 * n + digitsValue [c]
    if m < twoTo 64 then
      let (k, count) := appendFraction m ds
      (k, count + 1)
    else (n, 0)

/-- Multiplies by a power of ten: `10 ^ 308` is the greatest that a double holds, so a smaller
number is divided by it as often as needed. -/
def scale? (x : Binary64) (exponent : Int) : Option Binary64 :=
  if x.isZero then some x
  else if 308 < exponent then none
  else if 0 ≤ exponent then do x.mul? (← Binary64.powerOfTen? exponent.toNat)
  else if -308 ≤ exponent then do x.div? (← Binary64.powerOfTen? (-exponent).toNat)
  else do
    let y ← x.div? (← Binary64.powerOfTen? 308)
    scale? y (exponent + 308)
termination_by (-exponent).toNat
decreasing_by omega

def toReal? (t : NumberText) : Option Binary64 := do
  let (n, left) := wholeSignificand t.whole
  let (n, places) := appendFraction n t.fraction
  let sign (x : Binary64) : Binary64 := { x with negative := t.negative }
  let significand ← Binary64.ofNat? n
  match t.exponent with
  | none => (scale? significand (left - places)).map sign
  | some (negative, ds) =>
    let e := digitsValue ds
    if twoTo 31 ≤ e then
      if n ≠ 0 ∧ !negative then none else some (Binary64.zero t.negative)
    else
      (scale? significand (left - places + if negative then -(e : Int) else e)).map sign

def toNumber? (t : NumberText) : Option Number :=
  let n := digitsValue t.whole
  if t.fraction.isEmpty && t.exponent.isNone then
    if t.negative then
      if 0 < n ∧ n ≤ twoTo 63 then some (.whole (-n)) else t.toReal?.map .real
    else if n < twoTo 64 then some (.whole n) else t.toReal?.map .real
  else t.toReal?.map .real

end NumberText

def readNumber (s : List Char) : Option (Number × List Char) := do
  let (t, s) ← NumberText.read s
  let n ← t.toNumber?
  some (n, s)

def Number.text : Number → List Char
  | .whole n => signedDigits n
  | .real x => x.pointed

end TollClearing.Json
