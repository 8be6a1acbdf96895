import Mathlib.Order.Bounds.Basic
import TollClearing.Proofs.Decimal.Cents

/-!
The places of an amount that are left when zeros at its end are dropped. They are the fewest that
its value can be written with (`isLeast_places`), so amounts of one value have as many of them,
whatever their scales.
-/

set_option autoImplicit false

namespace TollClearing.Decimal

/-- With `k` zeros behind it the number is a multiple of the power of ten of its scale just if no
more than `k` places are left. -/
theorem placesOf_le_iff {size scale k : ℕ} :
    placesOf size scale ≤ k ↔ tenTo scale ∣ size * tenTo k := by
  induction scale generalizing size with
  | zero => simp [placesOf]
  | succ scale ih =>
    rw [placesOf]
    by_cases hdigit : size % 10 = 0
    · obtain ⟨rest, rfl⟩ := Nat.dvd_of_mod_eq_zero hdigit
      rw [if_pos hdigit, Nat.mul_div_cancel_left rest (by decide), ih, tenTo_succ,
        Nat.mul_comm (tenTo scale) 10, Nat.mul_assoc, Nat.mul_dvd_mul_iff_left (by decide)]
    · rw [if_neg hdigit]
      refine ⟨fun h => (Nat.pow_dvd_pow 10 h).mul_left size, fun h => ?_⟩
      by_contra hless
      -- otherwise the scale has a ten more than `k`, which divides the number
      obtain ⟨more, rfl⟩ : ∃ more, scale = more + k := ⟨scale - k, by omega⟩
      have htens : tenTo (more + k + 1) = 10 * tenTo more * tenTo k := by
        rw [tenTo_succ, tenTo_add]
        ring
      rw [htens, Nat.mul_dvd_mul_iff_right (tenTo_pos k)] at h
      exact hdigit (Nat.mod_eq_zero_of_dvd (dvd_of_mul_right_dvd h))

variable {a b : Decimal}

theorem places_le_iff {k : ℕ} : a.places ≤ k ↔ ∃ n : ℤ, a.value = n / tenTo k := by
  have hunits : tenTo a.scale ∣ a.size * tenTo k ↔ (tenTo a.scale : ℤ) ∣ a.units * tenTo k := by
    rw [Int.natCast_dvd, Int.natAbs_mul, natAbs_units, Int.natAbs_natCast]
  rw [places, placesOf_le_iff, hunits, dvd_def]
  refine exists_congr fun n => ?_
  rw [value, div_eq_div_iff (cast_tenTo_pos a.scale).ne' (cast_tenTo_pos k).ne',
    Int.mul_comm (tenTo a.scale) n]
  exact_mod_cast Iff.rfl

theorem places_le_scale (a : Decimal) : a.places ≤ a.scale := places_le_iff.2 ⟨a.units, rfl⟩

theorem exists_scale_eq_places (a : Decimal) :
    ∃ b : Decimal, b.value = a.value ∧ b.scale = a.places := by
  obtain ⟨n, hn⟩ := places_le_iff.1 (Nat.le_refl a.places)
  have hmul : a.size * tenTo a.places = n.natAbs * tenTo a.scale := by
    have hcross := hn
    rw [value, div_eq_div_iff (cast_tenTo_pos a.scale).ne' (cast_tenTo_pos a.places).ne'] at hcross
    have hint : a.units * tenTo a.places = n * tenTo a.scale := by exact_mod_cast hcross
    simpa [Int.natAbs_mul, natAbs_units] using congrArg Int.natAbs hint
  have hle : n.natAbs ≤ a.size := by
    refine Nat.le_of_mul_le_mul_right ?_ (tenTo_pos a.scale)
    calc n.natAbs * tenTo a.scale = a.size * tenTo a.places := hmul.symm
      _ ≤ a.size * tenTo a.scale :=
        Nat.mul_le_mul_left _ (Nat.pow_le_pow_right (by decide) a.places_le_scale)
  obtain ⟨b, -, hunits, hscale⟩ := ofUnits?_eq_some (hle.trans_lt a.size_lt)
    (a.places_le_scale.trans a.scale_le)
  exact ⟨b, by rw [value, hunits, hscale, hn], hscale⟩

theorem isLeast_places (a : Decimal) :
    IsLeast {scale | ∃ b : Decimal, b.value = a.value ∧ b.scale = scale} a.places := by
  refine ⟨a.exists_scale_eq_places, ?_⟩
  rintro scale ⟨b, hvalue, rfl⟩
  exact places_le_iff.2 ⟨b.units, hvalue.symm⟩

theorem places_eq_of_value_eq (h : a.value = b.value) : a.places = b.places := by
  have hleast := a.isLeast_places
  rw [h] at hleast
  exact hleast.unique b.isLeast_places

end TollClearing.Decimal
