import TollClearing.Power
import TollClearing.Rounding

/-!
Finite double-precision numbers, as exact dyadic fractions. `nearest?` rounds a quotient of
natural numbers to the nearest of them, a tie to the even mantissa, and fails beyond the range;
multiplication and division round their exact results by it.
-/

set_option autoImplicit false

namespace TollClearing

/-- The number `± mantissa * 2 ^ exponent`. The mantissa stays below `2 ^ 53`, the exponent at
`-1074` or above, and the mantissa reaches `2 ^ 52` unless the exponent is `-1074`. -/
structure Binary64 where
  negative : Bool
  mantissa : Nat
  exponent : Int
  deriving DecidableEq, Repr, Inhabited

namespace Binary64

def zero (negative : Bool) : Binary64 := ⟨negative, 0, -1074⟩

def isZero (x : Binary64) : Bool := x.mantissa = 0

def floorLog2 (num den : Nat) : Int :=
  let k : Int := (num.log2 : Int) - (den.log2 : Int)
  if num * twoTo (-k).toNat < den * twoTo k.toNat then k - 1 else k

/-- The double nearest to `num / den`, or nothing where that would be infinite. -/
def nearest? (negative : Bool) (num den : Nat) : Option Binary64 :=
  if num = 0 ∨ den = 0 then some (zero negative)
  else
    let e : Int := max (floorLog2 num den - 52) (-1074)
    let m := roundDiv (num * twoTo (-e).toNat) (den * twoTo e.toNat)
    let x : Binary64 := if m = twoTo 53 then ⟨negative, twoTo 52, e + 1⟩ else ⟨negative, m, e⟩
    if 971 < x.exponent then none else some x

def fraction (x : Binary64) : Nat × Nat :=
  (x.mantissa * twoTo x.exponent.toNat, twoTo (-x.exponent).toNat)

def ofNat? (n : Nat) : Option Binary64 := nearest? false n 1

def mul? (x y : Binary64) : Option Binary64 :=
  nearest? (x.negative != y.negative) (x.fraction.1 * y.fraction.1) (x.fraction.2 * y.fraction.2)

def div? (x y : Binary64) : Option Binary64 :=
  nearest? (x.negative != y.negative) (x.fraction.1 * y.fraction.2) (x.fraction.2 * y.fraction.1)

def powerOfTen? (n : Nat) : Option Binary64 := nearest? false (tenTo n) 1

end Binary64

end TollClearing
