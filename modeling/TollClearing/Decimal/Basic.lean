import TollClearing.Power
import TollClearing.Rounding
import TollClearing.Text.Digits

/-!
Decimal amounts: whole units of a power of ten, below `bound` in magnitude, with at most 28
places. A zero has no sign unless it is what rounding has left of a negative amount. A sum keeps the
larger number of places of its terms, except that a term that is zero leaves the other as it is,
and that places are rounded off when the sum would not fit otherwise.
-/

set_option autoImplicit false

namespace TollClearing

def Decimal.bound : Nat := 79228162514264337593543950336

/-- The number `size / 10 ^ scale`, or its negative. Amounts of one value can differ in scale. -/
structure Decimal where
  negative : Bool
  size : Nat
  scale : Nat
  size_lt : size < Decimal.bound := by decide
  scale_le : scale ≤ 28 := by decide
  deriving DecidableEq, Repr

namespace Decimal

open TollClearing.Text

def units (a : Decimal) : Int := if a.negative then -(a.size : Int) else a.size

def zero : Decimal := ⟨false, 0, 0, by decide, by decide⟩

instance : Inhabited Decimal := ⟨zero⟩

def ofParts? (negative : Bool) (size scale : Nat) : Option Decimal :=
  if h : size < Decimal.bound ∧ scale ≤ 28 then some ⟨negative, size, scale, h.1, h.2⟩ else none

def ofUnits? (units : Int) (scale : Nat) : Option Decimal := ofParts? (units < 0) units.natAbs scale

def isZero (a : Decimal) : Bool := a.size = 0

/-- The amount of the other sign; a zero stays as it is. -/
def neg (a : Decimal) : Decimal := if a.isZero then a else { a with negative := !a.negative }

/-- The units that are left when the last `places` digits are rounded off, a tie to the even. -/
def roundOff (units : Int) (places : Nat) : Int :=
  units.sign * (roundDiv units.natAbs (tenTo places) : Nat)

/-- The amount `units / 10 ^ scale` with as few places rounded off as make it fit. -/
def fit? (units : Int) (scale : Nat) : Option Decimal :=
  (List.range (scale + 1)).findSome? fun k => ofUnits? (roundOff units k) (scale - k)

def unitsAt (a : Decimal) (scale : Nat) : Int := a.units * tenTo (scale - a.scale)

def add? (a b : Decimal) : Option Decimal :=
  if a.isZero then some b
  else if b.isZero then some a
  else
    let scale := max a.scale b.scale
    fit? (a.unitsAt scale + b.unitsAt scale) scale

def sub? (a b : Decimal) : Option Decimal := a.add? b.neg

/-- Amounts are compared by value, whatever their scales. -/
instance : LE Decimal := ⟨fun a b => a.units * tenTo b.scale ≤ b.units * tenTo a.scale⟩

instance : LT Decimal := ⟨fun a b => a.units * tenTo b.scale < b.units * tenTo a.scale⟩

instance (a b : Decimal) : Decidable (a ≤ b) :=
  inferInstanceAs (Decidable (a.units * tenTo b.scale ≤ b.units * tenTo a.scale))

instance (a b : Decimal) : Decidable (a < b) :=
  inferInstanceAs (Decidable (a.units * tenTo b.scale < b.units * tenTo a.scale))

def sameValue (a b : Decimal) : Bool := a.units * tenTo b.scale = b.units * tenTo a.scale

def placesOf (size : Nat) : Nat → Nat
  | 0 => 0
  | scale + 1 => if size % 10 = 0 then placesOf (size / 10) scale else scale + 1

def places (a : Decimal) : Nat := placesOf a.size a.scale

/-- All places of the scale are written, zeros too. -/
def text (a : Decimal) : String :=
  let sign := if a.negative then ['-'] else []
  String.ofList (sign ++ placePoint (digits a.size) a.scale)

end Decimal

end TollClearing
