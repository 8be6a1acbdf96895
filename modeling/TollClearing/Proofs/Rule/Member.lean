import TollClearing.Proofs.Decimal.Places
import TollClearing.Proofs.Rule.Record
import TollClearing.Proofs.Text.Utf8

/-!
What the checks on single members let pass: text that is told, names that can be components of a
key, words of capital letters, and amounts of whole cents. Of an amount they look at nothing but
its value, whatever its scale (`amounts_checked`).
-/

set_option autoImplicit false

namespace TollClearing.Rule

def IsTold (s : String) : Prop := ∃ c ∈ s.toList, Text.isBlank c = false

structure IsName (s : String) : Prop where
  ne_empty : s ≠ ""
  short : s.utf8ByteSize ≤ 32
  plain : ∀ c ∈ s.toList, c ≠ '_' ∧ Text.isBlank c = false ∧ Text.isControl c = false

def IsCapitals (count : ℕ) (s : String) : Prop :=
  s.length = count ∧ ∀ c ∈ s.toList, 'A' ≤ c ∧ c ≤ 'Z'

structure IsCents (a : Decimal) : Prop where
  whole : ∃ n : ℤ, a.value = n / 100
  abs_le : |a.value| ≤ 10 ^ 12

section Names

variable {member s : String}

theorem require_eq_ok_iff : require member s = .ok () ↔ IsTold s := by
  rw [require, ensure_eq_ok, Bool.not_eq_true', Text.allBlank, List.all_eq_false, IsTold]
  simp only [Bool.not_eq_true]

theorem distinct_eq_ok_iff {otherMember other : String} :
    distinct member s otherMember other = .ok () ↔ s ≠ other := by
  rw [distinct, ensure_eq_ok, decide_eq_true_eq]

theorem inRange_eq_ok_iff {value low high : ℤ} :
    inRange member value low high = .ok () ↔ low ≤ value ∧ value ≤ high := by
  rw [inRange, ensure_eq_ok, Bool.and_eq_true, decide_eq_true_eq, decide_eq_true_eq]

theorem identifier_eq_ok_iff : identifier member s = .ok () ↔
    s.utf8ByteSize ≤ 32 ∧
      ∀ c ∈ s.toList, c ≠ '_' ∧ Text.isBlank c = false ∧ Text.isControl c = false := by
  simp only [identifier, bind_unit_eq_ok, ensure_eq_ok, decide_eq_true_eq, Bool.not_eq_true',
    List.contains_eq_mem, decide_eq_false_iff_not, List.any_eq_false, Bool.or_eq_true, not_or,
    Bool.not_eq_true]
  refine and_congr Iff.rfl ⟨fun h c hc => ?_, fun h => ?_⟩
  · refine ⟨?_, h.2 c hc⟩
    rintro rfl
    exact h.1 hc
  · exact ⟨fun hmem => (h _ hmem).1 rfl, fun c hc => (h c hc).2⟩

theorem identifier_congr (h : identifier member s = .ok ()) (other : String) :
    identifier other s = .ok () := by
  rw [identifier_eq_ok_iff] at h ⊢
  exact h

/-- An identifier is told if it is not empty, for it holds no blanks. -/
theorem require_of_identifier (h : identifier member s = .ok ()) (hne : s ≠ "")
    (other : String) : require other s = .ok () := by
  obtain ⟨-, hplain⟩ := identifier_eq_ok_iff.1 h
  obtain ⟨c, hc⟩ : ∃ c, c ∈ s.toList :=
    List.exists_mem_of_ne_nil _ fun hnil => hne (String.toList_eq_nil_iff.1 hnil)
  rw [require, ensure_eq_ok, Text.allBlank_eq_false hc (hplain c hc).2.1]
  rfl

theorem isName_iff :
    IsName s ↔ require member s = .ok () ∧ identifier member s = .ok () := by
  constructor
  · rintro ⟨hne, hshort, hplain⟩
    have hidentifier : identifier member s = .ok () := identifier_eq_ok_iff.2 ⟨hshort, hplain⟩
    exact ⟨require_of_identifier hidentifier hne member, hidentifier⟩
  · rintro ⟨htold, hidentifier⟩
    obtain ⟨hshort, hplain⟩ := identifier_eq_ok_iff.1 hidentifier
    refine ⟨?_, hshort, hplain⟩
    rintro rfl
    cases htold

theorem isUpper_iff {c : Char} : c.isUpper = true ↔ 'A' ≤ c ∧ c ≤ 'Z' := decide_eq_true_iff

theorem length_utf8EncodeChar_of_isUpper {c : Char} (h : c.isUpper = true) :
    (String.utf8EncodeChar c).length = 1 := by
  have hle : c.val ≤ 127 := UInt32.le_trans (isUpper_iff.1 h).2 (by decide)
  rw [String.length_utf8EncodeChar]
  simp [Char.utf8Size, hle]

theorem utf8ByteSize_of_isUpper (h : ∀ c ∈ s.toList, c.isUpper = true) :
    s.utf8ByteSize = s.length := by
  have hbytes : s.utf8ByteSize = (Text.utf8Bytes s).length := rfl
  have hsizes : s.toList.map (fun c => (String.utf8EncodeChar c).length)
      = s.toList.map fun _ => 1 :=
    List.map_congr_left fun c hc => length_utf8EncodeChar_of_isUpper (h c hc)
  rw [hbytes, Text.utf8Bytes_eq, List.length_flatMap, hsizes, List.map_const',
    List.sum_replicate_nat, Nat.mul_one, String.length_toList]

theorem capitals_eq_ok_iff {count : ℕ} :
    capitals member s count = .ok () ↔ IsCapitals count s := by
  have hupper : (∀ c ∈ s.toList, c.isUpper = true) ↔ ∀ c ∈ s.toList, 'A' ≤ c ∧ c ≤ 'Z' :=
    forall₂_congr fun c _ => isUpper_iff
  rw [capitals, ensure_eq_ok, Bool.and_eq_true, decide_eq_true_eq, List.all_eq_true, IsCapitals,
    ← hupper]
  exact and_congr_left fun h => by rw [utf8ByteSize_of_isUpper h]

end Names

section Amounts

variable {member : String} {a : Decimal}

theorem cast_maxMoney : (maxMoney : ℚ) = 10 ^ 12 := by norm_num [maxMoney]

/-- Whole cents are what two places are enough for. -/
theorem places_le_moneyPlaces_iff : a.places ≤ moneyPlaces ↔ ∃ n : ℤ, a.value = n / 100 := by
  have htens : (tenTo moneyPlaces : ℚ) = 100 := by exact_mod_cast (rfl : tenTo moneyPlaces = 100)
  rw [Decimal.places_le_iff, htens]

theorem cents_eq_ok_iff : cents member a = .ok () ↔ IsCents a := by
  simp only [cents, bind_unit_eq_ok, ensure_eq_ok, decide_eq_true_eq, a.size_le_iff,
    places_le_moneyPlaces_iff, cast_maxMoney]
  exact ⟨fun ⟨hle, hwhole⟩ => ⟨hwhole, hle⟩, fun ⟨hwhole, hle⟩ => ⟨hle, hwhole⟩⟩

theorem money_eq_ok_iff : money member a = .ok () ↔ IsCents a ∧ 0 ≤ a.value := by
  simp only [money, bind_unit_eq_ok, ensure_eq_ok, decide_eq_true_eq, cents_eq_ok_iff,
    a.units_nonneg_iff]
  exact and_comm

/-- The check asks for nothing but the value, and so does what it reports. -/
theorem cents_congr {b : Decimal} (h : b.value = a.value) : cents member b = cents member a := by
  simp only [cents, Decimal.size_le_iff, Decimal.places_eq_of_value_eq h, h]

theorem money_congr {b : Decimal} (h : b.value = a.value) : money member b = money member a := by
  simp only [money, Decimal.units_nonneg_iff, cents_congr h, h]

theorem notAbove_eq_ok_iff {boundMember : String} {b : Decimal} :
    notAbove member a boundMember (some b) = .ok () ↔ a.value ≤ b.value := by
  rw [notAbove, ensure_eq_ok, decide_eq_true_eq, a.le_iff_value]

theorem IsCents.within (h : IsCents a) : a.Within maxMoney := by
  obtain ⟨n, hn⟩ := h.whole
  refine ⟨⟨n, a.hasCents_iff.2 hn⟩, ?_⟩
  rw [cast_maxMoney]
  exact h.abs_le

theorem IsCents.congr {b : Decimal} (h : IsCents a) (hvalue : b.value = a.value) : IsCents b := by
  obtain ⟨hwhole, hle⟩ := h
  rw [← hvalue] at hwhole hle
  exact ⟨hwhole, hle⟩

end Amounts

/-- Cents are the whole hundredths of either sign up to the largest amount, and money is what is
not negative among them. Amounts of one value, whatever their scales, pass both checks or are turned
down alike, with one report. -/
theorem amounts_checked (member : String) (a : Decimal) :
    (cents member a = .ok () ↔ (∃ n : ℤ, a.value = n / 100) ∧ |a.value| ≤ 10 ^ 12) ∧
      (money member a = .ok () ↔
        ((∃ n : ℤ, a.value = n / 100) ∧ |a.value| ≤ 10 ^ 12) ∧ 0 ≤ a.value) ∧
      ∀ b : Decimal, b.value = a.value →
        cents member b = cents member a ∧ money member b = money member a := by
  have hcents : IsCents a ↔ (∃ n : ℤ, a.value = n / 100) ∧ |a.value| ≤ 10 ^ 12 :=
    ⟨fun h => ⟨h.whole, h.abs_le⟩, fun h => ⟨h.1, h.2⟩⟩
  refine ⟨cents_eq_ok_iff.trans hcents, ?_, fun b h => ⟨cents_congr h, money_congr h⟩⟩
  rw [money_eq_ok_iff, hcents]

def roundedZero : Decimal :=
  { Decimal.zero with negative := true, scale := 28, scale_le := Nat.le_refl 28 }

def halfCent : Decimal := .amount 5 3

def longHalfCent : Decimal := .amount 50000000000000000000000000 28

theorem amounts_checked_rescaled :
    (roundedZero.value = Decimal.zero.value ∧ money "fee" roundedZero = .ok ()) ∧
      longHalfCent.value = halfCent.value ∧
      cents "fee" longHalfCent = .error (.rejected "fee" (.tooManyPlaces 2)) := by
  have hzero : roundedZero.value = Decimal.zero.value := (Decimal.sameValue_iff _ _).1 (by decide)
  have hhalf : longHalfCent.value = halfCent.value := (Decimal.sameValue_iff _ _).1 (by decide)
  obtain ⟨-, -, hsame⟩ := amounts_checked "fee" Decimal.zero
  obtain ⟨-, -, hreport⟩ := amounts_checked "fee" halfCent
  have hpass : money "fee" Decimal.zero = .ok () := by decide
  have hfault : cents "fee" halfCent = .error (.rejected "fee" (.tooManyPlaces 2)) := by decide
  exact ⟨⟨hzero, (hsame roundedZero hzero).2.trans hpass⟩, hhalf,
    (hreport longHalfCent hhalf).1.trans hfault⟩

end TollClearing.Rule
