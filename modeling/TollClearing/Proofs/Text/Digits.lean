import Mathlib.Data.List.TakeDrop
import TollClearing.Power
import TollClearing.Text.Digits

/-!
Digits that are written are read back: a number in full, a number padded to a width, and a
hexadecimal digit. Digits of one length stand in the order of the numbers.
-/

set_option autoImplicit false

namespace TollClearing.Text

def NoDigitNext (s : List Char) : Prop := ∀ c ∈ s.head?, c.isDigit = false

@[simp] theorem noDigitNext_nil : NoDigitNext [] := by simp [NoDigitNext]

@[simp] theorem noDigitNext_cons {c : Char} {s : List Char} :
    NoDigitNext (c :: s) ↔ c.isDigit = false := by simp [NoDigitNext]

theorem digits_ne_nil (n : Nat) : digits n ≠ [] := Nat.toDigits_ne_nil

theorem isDigit_digits (n : Nat) : ∀ c ∈ digits n, c.isDigit = true :=
  fun _ h => isDigit_of_mem_digits h

theorem length_digits_le_iff {n k : Nat} (hk : 0 < k) : (digits n).length ≤ k ↔ n < tenTo k :=
  Nat.length_toDigits_le_iff (by decide) hk

theorem digitsValue_append (xs ys : List Char) :
    digitsValue (xs ++ ys) = digitsValue xs * tenTo ys.length + digitsValue ys := by
  rw [digitsValue, Nat.ofDigitChars_append, Nat.ofDigitChars_eq_ofDigitChars_zero, Nat.mul_comm]
  rfl

theorem digitsValue_cons (c : Char) (ds : List Char) :
    digitsValue (c :: ds) = digitsValue [c] * tenTo ds.length + digitsValue ds :=
  digitsValue_append [c] ds

theorem digitsValue_lt_ten {c : Char} (h : c.isDigit = true) : digitsValue [c] < 10 := by
  simp only [Char.isDigit, ge_iff_le, Bool.and_eq_true, decide_eq_true_eq] at h
  have hc : c.toNat ≤ 57 := h.2
  rw [digitsValue, Nat.ofDigitChars_cons, Nat.ofDigitChars_nil]
  simp only [Char.reduceToNat, Nat.mul_zero, Nat.zero_add]
  omega

theorem digitsValue_lt {ds : List Char} (h : ∀ c ∈ ds, c.isDigit = true) :
    digitsValue ds < tenTo ds.length := by
  induction ds with
  | nil => decide
  | cons c ds ih =>
    have hc := digitsValue_lt_ten (h c List.mem_cons_self)
    have hds := ih fun d hd => h d (List.mem_cons_of_mem c hd)
    have hmul := Nat.mul_le_mul_right (tenTo ds.length) (Nat.succ_le_of_lt hc)
    rw [digitsValue_cons, List.length_cons, tenTo_succ]
    rw [Nat.succ_mul] at hmul
    omega

theorem digits_ne_zero_cons (n : Nat) (c : Char) (ds : List Char) : digits n ≠ '0' :: c :: ds := by
  intro e
  have hdigit : ∀ d ∈ c :: ds, d.isDigit = true := fun d hd =>
    isDigit_digits n d (e ▸ List.mem_cons_of_mem _ hd)
  have hvalue : n = digitsValue (c :: ds) := by
    have hzero : digitsValue ['0'] = 0 := by decide
    rw [← digitsValue_digits n, e, digitsValue_cons, hzero, Nat.zero_mul, Nat.zero_add]
  have hlt := digitsValue_lt hdigit
  have hle := (length_digits_le_iff (Nat.succ_pos ds.length)).2 (hvalue ▸ hlt)
  rw [e, List.length_cons, List.length_cons] at hle
  omega

theorem isDigit_padded (width n : Nat) : ∀ c ∈ padded width n, c.isDigit = true := by
  intro c h
  rcases List.mem_append.1 h with h | h
  · obtain ⟨-, rfl⟩ := List.mem_replicate.1 h
    decide
  · exact isDigit_of_mem_digits h

theorem padded_ne_nil (width n : Nat) : padded width n ≠ [] := by
  simp [padded, digits_ne_nil]

theorem digitsValue_padded (width n : Nat) : digitsValue (padded width n) = n := by
  simp only [digitsValue, padded, Nat.ofDigitChars_append, Nat.ofDigitChars_replicate_zero,
    Nat.mul_zero]
  exact digitsValue_digits n

theorem length_padded {width n : Nat} (h : n < tenTo width) (hw : 0 < width) :
    (padded width n).length = width := by
  have := (length_digits_le_iff hw).2 h
  simp only [padded, List.length_append, List.length_replicate]
  omega

theorem width_le_length_padded (width n : Nat) : width ≤ (padded width n).length := by
  simp only [padded, List.length_append, List.length_replicate]
  omega

theorem placePoint_digits {n places : Nat} (h : places ≠ 0) :
    ∃ whole fraction, placePoint (digits n) places = whole ++ '.' :: fraction ∧
      (∀ c ∈ whole, c.isDigit = true) ∧ (∀ c ∈ fraction, c.isDigit = true) ∧
      whole ≠ [] ∧ fraction.length = places ∧
      digitsValue whole * tenTo fraction.length + digitsValue fraction = n := by
  have hlength := width_le_length_padded (places + 1) n
  have hsplit := List.take_append_drop ((padded (places + 1) n).length - places)
    (padded (places + 1) n)
  refine ⟨(padded (places + 1) n).take ((padded (places + 1) n).length - places),
    (padded (places + 1) n).drop ((padded (places + 1) n).length - places), ?_, ?_, ?_, ?_, ?_, ?_⟩
  · rw [placePoint, if_neg h]
    rfl
  · exact fun c hc => isDigit_padded _ _ c (List.mem_of_mem_take hc)
  · exact fun c hc => isDigit_padded _ _ c (List.mem_of_mem_drop hc)
  · refine List.ne_nil_of_length_pos ?_
    rw [List.length_take]
    omega
  · rw [List.length_drop]
    omega
  · rw [← digitsValue_append, hsplit, digitsValue_padded]

theorem digitsValue_singleton {c : Char} : digitsValue [c] = c.toNat - 48 := by
  simp [digitsValue, Nat.ofDigitChars_cons, Nat.ofDigitChars_nil]

theorem lt_of_digitsValue_lt {xs ys : List Char} (hxs : ∀ c ∈ xs, c.isDigit = true)
    (hys : ∀ c ∈ ys, c.isDigit = true) (hlength : xs.length = ys.length)
    (h : digitsValue xs < digitsValue ys) : xs < ys := by
  induction xs generalizing ys with
  | nil =>
    obtain rfl := List.length_eq_zero_iff.1 hlength.symm
    exact absurd h (Nat.lt_irrefl _)
  | cons x xs ih =>
    cases ys with
    | nil => cases hlength
    | cons y ys =>
      obtain ⟨-, hxs'⟩ := List.forall_mem_cons.1 hxs
      obtain ⟨hy, hys'⟩ := List.forall_mem_cons.1 hys
      have hrest : xs.length = ys.length := Nat.succ_inj.1 hlength
      rw [digitsValue_cons x, digitsValue_cons y, hrest] at h
      rcases Nat.lt_trichotomy x.toNat y.toNat with hlt | heq | hgt
      · exact .rel hlt
      · obtain rfl : x = y := Char.toNat_inj.1 heq
        exact List.cons_lt_cons_iff.2 (.inr ⟨rfl, ih hxs' hys' hrest (Nat.lt_of_add_lt_add_left h)⟩)
      · have hle : digitsValue [y] + 1 ≤ digitsValue [x] := by
          have hzero : 48 ≤ y.toNat := (Char.isDigit_iff_toNat.1 hy).1
          rw [digitsValue_singleton, digitsValue_singleton]
          omega
        have hbound := digitsValue_lt hys'
        have hmul := Nat.mul_le_mul_right (tenTo ys.length) hle
        rw [Nat.succ_mul] at hmul
        omega

theorem takeWhile_isDigit_append {ds rest : List Char} (hds : ∀ c ∈ ds, c.isDigit = true)
    (hrest : NoDigitNext rest) : (ds ++ rest).takeWhile Char.isDigit = ds := by
  rw [List.takeWhile_append_of_pos hds]
  cases rest with
  | nil => simp
  | cons c rest => simp [noDigitNext_cons.1 hrest]

theorem spanDigits_append {ds rest : List Char} (hds : ∀ c ∈ ds, c.isDigit = true)
    (hrest : NoDigitNext rest) : spanDigits (ds ++ rest) = (ds, rest) := by
  have htake := takeWhile_isDigit_append hds hrest
  have hsplit := List.takeWhile_append_dropWhile (p := Char.isDigit) (l := ds ++ rest)
  rw [htake] at hsplit
  rw [spanDigits, List.span_eq_takeWhile_dropWhile, htake, List.append_cancel_left hsplit]

/-- Digits are taken as one number when none follows them, or when they are as many as may be. -/
theorem readNumber_append (most : Nat) {ds : List Char} (rest : List Char)
    (hds : ∀ c ∈ ds, c.isDigit = true) (hne : ds ≠ []) (hmost : ds.length ≤ most)
    (hrest : ds.length = most ∨ NoDigitNext rest) :
    readNumber most (ds ++ rest) = some (digitsValue ds, rest) := by
  have htake : ((ds ++ rest).take most).takeWhile Char.isDigit = ds := by
    rw [List.take_append, List.take_of_length_le hmost]
    refine takeWhile_isDigit_append hds ?_
    rcases hrest with hfull | hrest
    · simp [hfull]
    · cases hk : most - ds.length <;> cases rest <;> simp_all
  simp [readNumber, htake, hne]

theorem unsigned?_digits {bound n : Nat} (h : n < bound) : unsigned? bound (digits n) = some n := by
  have hall : (digits n).all Char.isDigit = true :=
    List.all_eq_true.2 (isDigit_digits n)
  have hplus : ∀ ds, digits n ≠ '+' :: ds := by
    intro ds e
    exact absurd (isDigit_digits n '+' (by simp [e])) (by decide)
  unfold unsigned?
  split
  · rename_i ds e
    exact absurd e (hplus ds)
  · simp [hall, digits_ne_nil, digitsValue_digits, h]

theorem hexValue?_hexDigit {n : Nat} (h : n < 16) : hexValue? (hexDigit n) = some n := by
  revert n
  decide

end TollClearing.Text
