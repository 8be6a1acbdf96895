import TollClearing.Binary64.Basic
import TollClearing.Text.Digits

/-!
The shortest decimal fraction that reads back as a given double, and two ways to write it: in
full, or with an exponent where the point would stand far off.
-/

set_option autoImplicit false

namespace TollClearing.Binary64

open TollClearing.Text

def ofDecimal? (negative : Bool) (digits : Nat) (exponent : Int) : Option Binary64 :=
  nearest? negative (digits * tenTo exponent.toNat) (tenTo (-exponent).toNat)

/-- The least exponent `e` with `num / den ≤ 10 ^ e`, or one above it. -/
def decimalExponent (num den : Nat) : Int :=
  if den ≤ num then ((digits (num / den)).length : Int) else 1 - ((digits (den / num)).length : Int)

/-- Which of two equally near neighbours is taken. -/
inductive Tie where
  | toEven
  | up

/-- The value's two neighbours among the multiples of `10 ^ exponent`, the preferred first. -/
def neighbours (tie : Tie) (num den : Nat) (exponent : Int) : List Nat :=
  let a := num * tenTo (-exponent).toNat
  let b := den * tenTo exponent.toNat
  let low := a / b
  let lowFirst := match tie with
    | .toEven => 2 * (a % b) < b || (2 * (a % b) = b && low % 2 = 0)
    | .up => 2 * (a % b) < b
  if lowFirst then [low, low + 1] else [low + 1, low]

/-- The first of the grids `10 ^ exponent`, `10 ^ (exponent - 1)`, … with a neighbour that reads
back as `x`. -/
def shortestFrom (tie : Tie) (x : Binary64) (num den : Nat) : Nat → Int → Nat × Int
  | 0, exponent => (num * tenTo (-exponent).toNat / (den * tenTo exponent.toNat), exponent)
  | count + 1, exponent =>
    let ds := neighbours tie num den exponent
    match ds.find? fun d => ofDecimal? x.negative d exponent = some x with
    | some d => (d, exponent)
    | none => shortestFrom tie x num den count (exponent - 1)

/-- Digits and decimal exponent of the shortest decimal fraction that reads back as `x`. Seventeen
digits always do. -/
def shortest (tie : Tie) (x : Binary64) : Nat × Int :=
  if x.isZero then (0, 0)
  else
    let (num, den) := x.fraction
    shortestFrom tie x num den 18 (decimalExponent num den)

def sign (x : Binary64) : List Char := if x.negative then ['-'] else []

/-- In full, without an exponent: a whole number has no point, and of two equally short and near
fractions the greater is written. -/
def plain (x : Binary64) : List Char :=
  let (d, e) := x.shortest .up
  sign x ++ placePoint (digits d ++ List.replicate e.toNat '0') (-e).toNat

def signed (e : Int) : List Char := (if e < 0 then '-' else '+') :: digits e.natAbs

/-- With a point always, and with an exponent where the point would stand more than sixteen
digits to the right or more than four zeros to the left of the first digit; of two equally short
and near fractions the even one is written. -/
def pointed (x : Binary64) : List Char :=
  if x.isZero then sign x ++ ['0', '.', '0']
  else
    let (d, e) := x.shortest .toEven
    let ds := digits d
    let before := (ds.length : Int) + e
    sign x ++
      if 0 ≤ e ∧ before ≤ 16 then ds ++ List.replicate e.toNat '0' ++ ['.', '0']
      else if -5 < before ∧ before ≤ 16 then placePoint ds (-e).toNat
      else placePoint ds (ds.length - 1) ++ 'e' :: signed (before - 1)

end TollClearing.Binary64
