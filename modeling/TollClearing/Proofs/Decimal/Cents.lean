import Mathlib.Algebra.Order.Field.Basic
import Mathlib.Algebra.Order.Ring.Rat
import Mathlib.Tactic.FieldSimp
import Mathlib.Tactic.Linarith
import Mathlib.Tactic.Ring
import TollClearing.Decimal.Basic
import TollClearing.Proofs.Decimal.RoundTrip

/-!
Amounts of whole cents. However many places they are written with, sums and differences of such
amounts are exact as long as they fit: places that are rounded off are zeros.
-/

set_option autoImplicit false

namespace TollClearing.Decimal

def value (a : Decimal) : ℚ := a.units / tenTo a.scale

@[simp] theorem value_zero : zero.value = 0 := by simp [value, zero, units]

def HasCents (a : Decimal) (n : ℤ) : Prop := a.units * 100 = n * tenTo a.scale

theorem hasCents_zero : zero.HasCents 0 := rfl

theorem HasCents.value_eq {a : Decimal} {n : ℤ} (h : a.HasCents n) : a.value = n / 100 := by
  have hpos : (tenTo a.scale : ℚ) ≠ 0 := by
    exact_mod_cast (tenTo_pos a.scale).ne'
  have hcast : (a.units : ℚ) * 100 = n * tenTo a.scale := by exact_mod_cast h
  rw [value]
  field_simp
  linarith

theorem HasCents.eq_zero {a : Decimal} {n : ℤ} (h : a.HasCents n) (hzero : a.isZero = true) :
    n = 0 := by
  have hsize : a.size = 0 := by simpa [isZero] using hzero
  have hpos := tenTo_pos a.scale
  have hunits : a.units = 0 := by simp [units, hsize]
  rw [HasCents, hunits, Int.zero_mul, eq_comm, Int.mul_eq_zero] at h
  rcases h with h | h
  · exact h
  · omega

theorem units_neg (a : Decimal) : a.neg.units = -a.units := by
  unfold neg
  split
  · rename_i h
    have hsize : a.size = 0 := by simpa [isZero] using h
    simp [units, hsize]
  · cases hsign : a.negative <;> simp [units, hsign]

theorem scale_neg (a : Decimal) : a.neg.scale = a.scale := by
  unfold neg
  split <;> rfl

theorem HasCents.neg {a : Decimal} {n : ℤ} (h : a.HasCents n) : a.neg.HasCents (-n) := by
  rw [HasCents, units_neg, scale_neg, Int.neg_mul, Int.neg_mul, h]

theorem ofUnits?_eq_some {u : ℤ} {scale : ℕ} (hu : u.natAbs < bound) (hscale : scale ≤ 28) :
    ∃ a, ofUnits? u scale = some a ∧ a.units = u ∧ a.scale = scale := by
  refine ⟨⟨u < 0, u.natAbs, scale, hu, hscale⟩, ?_, ?_, rfl⟩
  · simp [ofUnits?, ofParts?, hu, hscale]
  · by_cases hneg : u < 0
    · simp only [units, hneg, decide_true, if_true]
      omega
    · simp only [units, hneg, decide_false, Bool.false_eq_true, if_false]
      omega

theorem units_of_ofUnits? {u : ℤ} {scale : ℕ} {a : Decimal} (h : ofUnits? u scale = some a) :
    a.units = u ∧ a.scale = scale := by
  unfold ofUnits? ofParts? at h
  split at h
  · rename_i hfits
    obtain ⟨b, hb, hunits⟩ := ofUnits?_eq_some hfits.1 hfits.2
    simp only [ofUnits?, ofParts?, hfits, and_self, dif_pos] at hb
    rw [← Option.some.inj h, Option.some.inj hb]
    exact hunits
  · simp at h

def amount (u : ℤ) (scale : ℕ) : Decimal := (ofUnits? u scale).getD zero

theorem value_amount (u : ℤ) (scale : ℕ) (hu : u.natAbs < bound) (hscale : scale ≤ 28) :
    (amount u scale).value = u / tenTo scale := by
  obtain ⟨a, ha, hunits, hplaces⟩ := ofUnits?_eq_some hu hscale
  rw [amount, ha, Option.getD_some, value, hunits, hplaces]

theorem roundOff_mul (w : ℤ) (k : ℕ) : roundOff (w * tenTo k) k = w := by
  have hpos := tenTo_pos k
  have htens : (tenTo k : ℤ).sign = 1 := Int.sign_eq_one_of_pos (by exact_mod_cast hpos)
  rw [roundOff, Int.sign_mul, htens, Int.mul_one, Int.natAbs_mul, Int.natAbs_natCast,
    roundDiv_mul _ hpos, Int.sign_mul_natAbs]

/-- If an attempt succeeds, then the first one that does comes no later. -/
theorem exists_findSome?_range {α : Type} {f : ℕ → Option α} {k n : ℕ} (hk : k ≤ n)
    (h : (f k).isSome) :
    ∃ j a, j ≤ k ∧ f j = some a ∧ (List.range (n + 1)).findSome? f = some a := by
  have hfirst : ((List.range (k + 1)).findSome? f).isSome := by
    rw [List.findSome?_isSome_iff]
    exact ⟨k, List.mem_range.2 (Nat.lt_succ_self k), h⟩
  obtain ⟨a, ha⟩ := Option.isSome_iff_exists.1 hfirst
  obtain ⟨j, hj, hja⟩ := List.exists_of_findSome?_eq_some ha
  refine ⟨j, a, Nat.lt_succ_iff.1 (List.mem_range.1 hj), hja, ?_⟩
  rw [show n + 1 = (k + 1) + (n - k) by omega, List.range_add, List.findSome?_append, ha,
    Option.some_or]

theorem exists_mul_tenTo {u n : ℤ} {scale k : ℕ} (hk : k ≤ scale - 2)
    (h : u * 100 = n * tenTo scale) :
    ∃ w : ℤ, u = w * tenTo k ∧ w * 100 = n * tenTo (scale - k) := by
  by_cases hsmall : scale ≤ 2
  · obtain rfl : k = 0 := by omega
    exact ⟨u, by simp, h⟩
  · have htens : (tenTo scale : ℤ) = tenTo (scale - 2 - k) * tenTo k * 100 := by
      conv_lhs => rw [show scale = (scale - 2 - k) + k + 2 by omega, tenTo_add, tenTo_add]
      rfl
    have hplaces : (tenTo (scale - k) : ℤ) = tenTo (scale - 2 - k) * 100 := by
      rw [show scale - k = (scale - 2 - k) + 2 by omega, tenTo_add]
      rfl
    refine ⟨n * tenTo (scale - 2 - k), ?_, ?_⟩
    · rw [htens] at h
      linarith
    · rw [hplaces, Int.mul_assoc]

theorem fit?_of_cents {u n : ℤ} {scale : ℕ} (hscale : scale ≤ 28)
    (h : u * 100 = n * tenTo scale) (hn : n.natAbs < bound) :
    ∃ a, fit? u scale = some a ∧ a.HasCents n := by
  -- all places but two can be rounded off, and then the amount fits
  have hsmall : (ofUnits? (roundOff u (scale - 2)) (scale - (scale - 2))).isSome := by
    obtain ⟨w, rfl, hw⟩ := exists_mul_tenTo (Nat.le_refl (scale - 2)) h
    have htens : tenTo (scale - (scale - 2)) ≤ tenTo 2 :=
      Nat.pow_le_pow_right (by decide) (by omega)
    have hle : w.natAbs * 100 ≤ n.natAbs * 100 := by
      calc w.natAbs * 100 = n.natAbs * tenTo (scale - (scale - 2)) := by
            simpa [Int.natAbs_mul] using congrArg Int.natAbs hw
        _ ≤ n.natAbs * tenTo 2 := Nat.mul_le_mul_left _ htens
    have hfits : w.natAbs < bound := by omega
    obtain ⟨a, ha, -⟩ := ofUnits?_eq_some hfits (show scale - (scale - 2) ≤ 28 by omega)
    rw [roundOff_mul, ha]
    rfl
  obtain ⟨j, a, hj, ha, hfit⟩ := exists_findSome?_range
    (f := fun k => ofUnits? (roundOff u k) (scale - k)) (Nat.sub_le scale 2) hsmall
  refine ⟨a, hfit, ?_⟩
  obtain ⟨w, rfl, hw⟩ := exists_mul_tenTo hj h
  obtain ⟨hunits, hplaces⟩ := units_of_ofUnits? ha
  rw [HasCents, hunits, hplaces, roundOff_mul, hw]

theorem HasCents.unitsAt {a : Decimal} {n : ℤ} (h : a.HasCents n) {scale : ℕ}
    (hscale : a.scale ≤ scale) : a.unitsAt scale * 100 = n * tenTo scale := by
  have hsplit : tenTo scale = tenTo a.scale * tenTo (scale - a.scale) := by
    rw [← tenTo_add, Nat.add_sub_cancel' hscale]
  calc a.unitsAt scale * 100 = a.units * 100 * tenTo (scale - a.scale) := by
        rw [Decimal.unitsAt, Int.mul_right_comm]
    _ = n * tenTo scale := by rw [h, hsplit, Int.mul_assoc]; push_cast; rfl

theorem HasCents.add? {a b : Decimal} {m n : ℤ} (ha : a.HasCents m) (hb : b.HasCents n)
    (hbound : (m + n).natAbs < bound) : ∃ c, a.add? b = some c ∧ c.HasCents (m + n) := by
  unfold Decimal.add?
  by_cases hzero : a.isZero = true
  · rw [if_pos hzero, ha.eq_zero hzero, Int.zero_add]
    exact ⟨b, rfl, hb⟩
  rw [if_neg hzero]
  by_cases hzero : b.isZero = true
  · rw [if_pos hzero, hb.eq_zero hzero, Int.add_zero]
    exact ⟨a, rfl, ha⟩
  rw [if_neg hzero]
  have hsum : (a.unitsAt (max a.scale b.scale) + b.unitsAt (max a.scale b.scale)) * 100
      = (m + n) * tenTo (max a.scale b.scale) := by
    rw [Int.add_mul, ha.unitsAt (Nat.le_max_left _ _), hb.unitsAt (Nat.le_max_right _ _),
      ← Int.add_mul]
  exact fit?_of_cents (Nat.max_le.2 ⟨a.scale_le, b.scale_le⟩) hsum hbound

theorem natAbs_units (a : Decimal) : a.units.natAbs = a.size := by
  unfold units
  split <;> simp

structure Within (limit : ℕ) (a : Decimal) : Prop where
  cents : ∃ n, a.HasCents n
  abs_le : |a.value| ≤ limit

theorem within_zero : zero.Within 0 := ⟨⟨0, hasCents_zero⟩, by simp⟩

theorem Within.neg {a : Decimal} {x : ℕ} (h : a.Within x) :
    a.neg.Within x ∧ a.neg.value = -a.value := by
  obtain ⟨n, hn⟩ := h.cents
  have hvalue : a.neg.value = -a.value := by
    rw [hn.neg.value_eq, hn.value_eq]
    push_cast
    ring
  exact ⟨⟨⟨-n, hn.neg⟩, by rw [hvalue, abs_neg]; exact h.abs_le⟩, hvalue⟩

theorem Within.add? {a b : Decimal} {x y : ℕ} (ha : a.Within x) (hb : b.Within y)
    (hbound : (x + y) * 100 < bound) :
    ∃ c, a.add? b = some c ∧ c.Within (x + y) ∧ c.value = a.value + b.value := by
  obtain ⟨m, hm⟩ := ha.cents
  obtain ⟨n, hn⟩ := hb.cents
  have hvalue : a.value + b.value = ((m + n : ℤ) : ℚ) / 100 := by
    rw [hm.value_eq, hn.value_eq]
    push_cast
    ring
  have hle : |a.value + b.value| ≤ (x + y : ℕ) := by
    push_cast
    exact (abs_add_le _ _).trans (add_le_add ha.abs_le hb.abs_le)
  have hcents : (m + n).natAbs < bound := by
    have habs : ((m + n).natAbs : ℚ) = |a.value + b.value| * 100 := by
      rw [hvalue, abs_div, Nat.cast_natAbs, Int.cast_abs]
      norm_num
    have hlimit : (m + n).natAbs ≤ (x + y) * 100 := by
      have : ((m + n).natAbs : ℚ) ≤ ((x + y : ℕ) : ℚ) * 100 := by linarith
      exact_mod_cast this
    omega
  obtain ⟨c, hadd, hc⟩ := hm.add? hn hcents
  have hsum : c.value = a.value + b.value := by rw [hvalue, hc.value_eq]
  exact ⟨c, hadd, ⟨⟨m + n, hc⟩, hsum ▸ hle⟩, hsum⟩

theorem Within.sub? {a b : Decimal} {x y : ℕ} (ha : a.Within x) (hb : b.Within y)
    (hbound : (x + y) * 100 < bound) :
    ∃ c, a.sub? b = some c ∧ c.Within (x + y) ∧ c.value = a.value - b.value := by
  obtain ⟨hneg, hvalue⟩ := hb.neg
  obtain ⟨c, hsub, hc, hsum⟩ := ha.add? hneg hbound
  exact ⟨c, hsub, hc, by rw [hsum, hvalue, sub_eq_add_neg]⟩

section Compare

variable (a b : Decimal)

theorem cast_tenTo_pos (n : ℕ) : (0 : ℚ) < tenTo n := by exact_mod_cast tenTo_pos n

theorem abs_value : |a.value| = a.size / tenTo a.scale := by
  rw [value, abs_div, abs_of_pos (cast_tenTo_pos a.scale), ← natAbs_units, Nat.cast_natAbs,
    Int.cast_abs]

theorem size_le_iff (limit : ℕ) : a.size ≤ limit * tenTo a.scale ↔ |a.value| ≤ limit := by
  rw [abs_value, div_le_iff₀ (cast_tenTo_pos a.scale)]
  exact_mod_cast Iff.rfl

theorem units_nonneg_iff : 0 ≤ a.units ↔ 0 ≤ a.value := by
  rw [value, le_div_iff₀ (cast_tenTo_pos a.scale), zero_mul]
  exact_mod_cast Iff.rfl

theorem isZero_iff : a.isZero = true ↔ a.value = 0 := by
  have hpos := (cast_tenTo_pos a.scale).ne'
  rw [← abs_eq_zero, abs_value, div_eq_zero_iff, or_iff_left hpos, isZero, decide_eq_true_eq]
  exact_mod_cast Iff.rfl

theorem le_iff_value : a ≤ b ↔ a.value ≤ b.value := by
  rw [value, value, div_le_div_iff₀ (cast_tenTo_pos a.scale) (cast_tenTo_pos b.scale)]
  change a.units * tenTo b.scale ≤ b.units * tenTo a.scale ↔ _
  exact_mod_cast Iff.rfl

theorem sameValue_iff : a.sameValue b = true ↔ a.value = b.value := by
  rw [value, value, div_eq_div_iff (cast_tenTo_pos a.scale).ne' (cast_tenTo_pos b.scale).ne',
    sameValue, decide_eq_true_eq]
  exact_mod_cast Iff.rfl

theorem hasCents_iff {n : ℤ} : a.HasCents n ↔ a.value = n / 100 := by
  refine ⟨HasCents.value_eq, fun h => ?_⟩
  rw [value, div_eq_div_iff (cast_tenTo_pos a.scale).ne' (by norm_num)] at h
  exact_mod_cast h

end Compare

end TollClearing.Decimal
