import TollClearing.Decimal.Reader
import TollClearing.Proofs.Text.Digits

/-!
An amount is read back from its text with all its places. Only the sign of a zero is lost: rounding
can leave a zero with a sign, and the text of a zero is never read as a negative one.
-/

set_option autoImplicit false

namespace TollClearing.Decimal

open TollClearing.Text

/-- What the text of an amount is read as: a zero has no sign. -/
def asRead (a : Decimal) : Decimal := if a.isZero then { a with negative := false } else a

@[simp] theorem size_asRead (a : Decimal) : a.asRead.size = a.size := by
  unfold asRead
  split <;> rfl

@[simp] theorem scale_asRead (a : Decimal) : a.asRead.scale = a.scale := by
  unfold asRead
  split <;> rfl

@[simp] theorem units_asRead (a : Decimal) : a.asRead.units = a.units := by
  unfold asRead
  split
  · rename_i h
    have hsize : a.size = 0 := by simpa [isZero] using h
    simp [units, hsize]
  · rfl

@[simp] theorem asRead_asRead (a : Decimal) : a.asRead.asRead = a.asRead := by
  unfold asRead
  split <;> simp_all [isZero]

theorem asRead_eq_self {a : Decimal} (h : a.negative = false ∨ a.size ≠ 0) : a.asRead = a := by
  obtain ⟨negative, size, scale, hsize, hscale⟩ := a
  rcases h with h | h
  · simp_all [asRead]
  · simp_all [asRead, isZero]

@[simp] theorem isZero_asRead (a : Decimal) : a.asRead.isZero = a.isZero := by simp [isZero]

@[simp] theorem places_asRead (a : Decimal) : a.asRead.places = a.places := by simp [places]

@[simp] theorem isZero_neg (a : Decimal) : a.neg.isZero = a.isZero := by
  unfold neg
  split <;> rfl

theorem asRead_of_not_isZero {a : Decimal} (h : ¬ a.isZero = true) : a.asRead = a := if_neg h

theorem neg_asRead (a : Decimal) : a.asRead.neg = a.neg.asRead := by
  by_cases h : a.isZero = true
  · simp [neg, h]
  · rw [asRead_of_not_isZero h, asRead_of_not_isZero (by simpa using h)]

theorem asRead_of_ofUnits? {units : Int} {scale : Nat} {a : Decimal}
    (h : ofUnits? units scale = some a) : a.asRead = a := by
  unfold ofUnits? ofParts? at h
  split at h
  · obtain rfl := Option.some.inj h
    refine asRead_eq_self ?_
    by_cases hneg : units < 0
    · exact .inr (by simp; omega)
    · exact .inl (by simpa using hneg)
  · simp at h

theorem asRead_of_fit? {units : Int} {scale : Nat} {a : Decimal}
    (h : fit? units scale = some a) : a.asRead = a := by
  obtain ⟨k, -, hk⟩ := List.exists_of_findSome?_eq_some h
  exact asRead_of_ofUnits? hk

theorem add?_asRead (a b : Decimal) : a.asRead.add? b.asRead = (a.add? b).map asRead := by
  unfold add?
  simp only [isZero_asRead, scale_asRead, unitsAt, units_asRead]
  split
  · rfl
  · split
    · rfl
    · cases h : fit? (a.units * tenTo (max a.scale b.scale - a.scale)
          + b.units * tenTo (max a.scale b.scale - b.scale)) (max a.scale b.scale) with
      | none => rfl
      | some c => simp [asRead_of_fit? h]

theorem sub?_asRead (a b : Decimal) : a.asRead.sub? b.asRead = (a.sub? b).map asRead := by
  rw [sub?, sub?, neg_asRead, add?_asRead]

theorem asRead_of_add? {a b c : Decimal} (ha : a.asRead = a) (hb : b.asRead = b)
    (h : a.add? b = some c) : c.asRead = c := by
  have hread := add?_asRead a b
  rw [ha, hb, h] at hread
  exact (Option.some.inj hread).symm

theorem asRead_of_sub? {a b c : Decimal} (ha : a.asRead = a) (hb : b.asRead = b)
    (h : a.sub? b = some c) : c.asRead = c := by
  have hread := sub?_asRead a b
  rw [ha, hb, h] at hread
  exact (Option.some.inj hread).symm

theorem digitsValue_snoc_le (units : Nat) (c : Char) (ds : List Char) :
    10 * units + digitsValue [c] ≤ units * tenTo (c :: ds).length + digitsValue (c :: ds) := by
  have hpos := tenTo_pos ds.length
  have hunits : units * 10 ≤ units * tenTo (ds.length + 1) := by
    rw [tenTo_succ, ← Nat.mul_assoc]
    exact Nat.mul_le_mul_right 10 (Nat.le_mul_of_pos_right units hpos)
  have hdigit : digitsValue [c] ≤ digitsValue [c] * tenTo ds.length :=
    Nat.le_mul_of_pos_right _ hpos
  rw [digitsValue_cons c ds, List.length_cons]
  omega

theorem digitsValue_shift (units : Nat) (c : Char) (ds : List Char) :
    (10 * units + digitsValue [c]) * tenTo ds.length + digitsValue ds
      = units * tenTo (c :: ds).length + digitsValue (c :: ds) := by
  rw [digitsValue_cons c ds, List.length_cons, tenTo_succ, Nat.add_mul, Nat.add_assoc,
    Nat.mul_comm 10 units, Nat.mul_assoc, Nat.mul_comm 10]

theorem readPlain_whole {ds : List Char} (hds : ∀ c ∈ ds, c.isDigit = true) (units : Nat)
    (digitSeen : Bool) (hbound : units * tenTo ds.length + digitsValue ds < bound)
    (s : List Char) :
    readPlain ⟨units, 0, false, digitSeen⟩ (ds ++ s)
      = readPlain ⟨units * tenTo ds.length + digitsValue ds, 0, false,
          digitSeen || !ds.isEmpty⟩ s := by
  induction ds generalizing units digitSeen with
  | nil => simp [digitsValue]
  | cons c ds ih =>
    have hc := hds c List.mem_cons_self
    have hle := digitsValue_snoc_le units c ds
    have hshift := digitsValue_shift units c ds
    have hih := ih (fun d hd => hds d (List.mem_cons_of_mem c hd))
      (10 * units + digitsValue [c]) true (by omega)
    rw [List.cons_append, readPlain, if_neg (show 0 ≠ 28 by decide), if_pos hc]
    simp only [if_pos (Nat.lt_of_le_of_lt hle hbound), Bool.false_eq_true, if_false, hih, hshift]
    simp

theorem readPlain_fraction {ds : List Char} (hds : ∀ c ∈ ds, c.isDigit = true)
    (units scale : Nat) (digitSeen : Bool)
    (hbound : units * tenTo ds.length + digitsValue ds < bound) (hscale : scale + ds.length ≤ 28)
    (s : List Char) :
    readPlain ⟨units, scale, true, digitSeen⟩ (ds ++ s)
      = readPlain ⟨units * tenTo ds.length + digitsValue ds, scale + ds.length, true,
          digitSeen || !ds.isEmpty⟩ s := by
  induction ds generalizing units scale digitSeen with
  | nil => simp [digitsValue]
  | cons c ds ih =>
    have hc := hds c List.mem_cons_self
    have hle := digitsValue_snoc_le units c ds
    have hshift := digitsValue_shift units c ds
    have hscale' : scale + (ds.length + 1) ≤ 28 := hscale
    have hih := ih (fun d hd => hds d (List.mem_cons_of_mem c hd))
      (10 * units + digitsValue [c]) (scale + 1) true
      (by omega) (by omega)
    rw [List.cons_append, readPlain, if_neg (show scale ≠ 28 by omega), if_pos hc]
    simp only [if_pos (Nat.lt_of_le_of_lt hle hbound), if_true, hih, hshift, List.length_cons,
      Nat.add_assoc, Nat.add_comm 1]
    simp

theorem readPlain_placePoint {n scale : Nat} (hn : n < bound) (hscale : scale ≤ 28) :
    readPlain ⟨0, 0, false, false⟩ (placePoint (digits n) scale) = some (n, scale) := by
  by_cases hzero : scale = 0
  · subst hzero
    have hread := readPlain_whole (isDigit_digits n) 0 false
      (by simpa [digitsValue_digits] using hn) []
    rw [List.append_nil] at hread
    rw [placePoint, if_pos rfl, hread]
    simp [readPlain, digitsValue_digits, digits_ne_nil]
  · obtain ⟨whole, fraction, e, hwhole, hfraction, hne, hlength, hvalue⟩ :=
      placePoint_digits (n := n) hzero
    have hpos := tenTo_pos fraction.length
    have hsmall : digitsValue whole ≤ digitsValue whole * tenTo fraction.length :=
      Nat.le_mul_of_pos_right _ hpos
    have hreadWhole := readPlain_whole hwhole 0 false
      (by omega) ('.' :: fraction)
    have hreadFraction := readPlain_fraction hfraction (digitsValue whole) 0 true
      (by omega) (by omega) []
    rw [List.append_nil, Nat.zero_add, hvalue, hlength] at hreadFraction
    have hseen : whole.isEmpty = false := List.isEmpty_eq_false_iff.2 hne
    rw [e, hreadWhole, readPlain, if_neg (show 0 ≠ 28 by decide), if_neg (by decide), if_pos rfl]
    simp [hseen, hreadFraction, readPlain]

theorem exists_placePoint_eq_cons (n scale : Nat) :
    ∃ d ds, placePoint (digits n) scale = d :: ds ∧ d.isDigit = true := by
  by_cases hzero : scale = 0
  · rw [placePoint, if_pos hzero]
    cases hds : digits n with
    | nil => exact absurd hds (digits_ne_nil n)
    | cons d ds => exact ⟨d, ds, rfl, isDigit_digits n d (by simp [hds])⟩
  · obtain ⟨whole, fraction, e, hwhole, -, hne, -⟩ := placePoint_digits (n := n) hzero
    cases whole with
    | nil => exact absurd rfl hne
    | cons d ds => exact ⟨d, _, e, hwhole d List.mem_cons_self⟩

theorem placePoint_digits_ne_cons (n scale : Nat) {c : Char} (hc : c.isDigit = false)
    (s : List Char) : placePoint (digits n) scale ≠ c :: s := by
  intro e
  obtain ⟨d, ds, hd, hdigit⟩ := exists_placePoint_eq_cons n scale
  rw [hd, List.cons.injEq] at e
  rw [e.1, hc] at hdigit
  exact absurd hdigit (by decide)

theorem exists_isDigit_text (a : Decimal) : ∃ c ∈ a.text.toList, c.isDigit = true := by
  obtain ⟨d, ds, hd, hdigit⟩ := exists_placePoint_eq_cons a.size a.scale
  refine ⟨d, ?_, hdigit⟩
  simp [text, hd]

theorem ofUnits?_units (a : Decimal) : ofUnits? a.units a.scale = some a.asRead := by
  obtain ⟨negative, size, scale, hsize, hscale⟩ := a
  have hparts : size < bound ∧ scale ≤ 28 := ⟨hsize, hscale⟩
  cases negative with
  | false => simp [ofUnits?, ofParts?, units, asRead, hparts]
  | true =>
    by_cases hzero : size = 0
    · subst hzero
      simp [ofUnits?, ofParts?, units, asRead, isZero, hparts]
    · have hpos : 0 < size := Nat.pos_of_ne_zero hzero
      simp [ofUnits?, ofParts?, units, asRead, isZero, hparts, hzero, hpos]

theorem ofText?_text (a : Decimal) : ofText? a.text = some a.asRead := by
  have hread := readPlain_placePoint a.size_lt a.scale_le
  have hplain : plain? a.text.toList = some a.asRead := by
    rw [← ofUnits?_units]
    obtain ⟨negative, size, scale, hsize, hscale⟩ := a
    cases negative with
    | true => simp [plain?, text, hread, units]
    | false =>
      have hminus := placePoint_digits_ne_cons size scale (c := '-') (by decide)
      have hplus := placePoint_digits_ne_cons size scale (c := '+') (by decide)
      -- `hminus` and `hplus` rule the two signs out where `plain?` looks for them
      simp [plain?, text, hread, units]
  rw [ofText?, hplain]
  rfl

end TollClearing.Decimal
