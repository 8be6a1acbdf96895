import TollClearing.Calendar.Instant
import TollClearing.Proofs.Text.Digits

/-!
Dates and instants are read back as they were written, in every year and with leap seconds.
-/

set_option autoImplicit false

namespace TollClearing

open TollClearing.Text

namespace Text

theorem isBlank_eq_false_of_isDigit {c : Char} (h : c.isDigit = true) : isBlank c = false := by
  simp only [Char.isDigit, ge_iff_le, Bool.and_eq_true, decide_eq_true_eq] at h
  have hlow : 48 ≤ c.toNat := h.1
  have hhigh : c.toNat ≤ 57 := h.2
  simp only [isBlank, Bool.or_eq_false_iff, decide_eq_false_iff_not, Bool.and_eq_false_iff]
  omega

theorem trimStart_cons {c : Char} (h : isBlank c = false) (s : List Char) :
    trimStart (c :: s) = c :: s := by
  simp [trimStart, h]

theorem trimStart_padded (width n : Nat) (rest : List Char) :
    trimStart (padded width n ++ rest) = padded width n ++ rest := by
  cases e : padded width n with
  | nil => exact absurd e (padded_ne_nil width n)
  | cons c ds =>
    have hc := isDigit_padded width n c (by simp [e])
    exact trimStart_cons (isBlank_eq_false_of_isDigit hc) (ds ++ rest)

theorem padded_ne_cons {width n : Nat} {c : Char} (h : c.isDigit = false) (rest s : List Char) :
    padded width n ++ rest ≠ c :: s := by
  intro e
  cases hds : padded width n with
  | nil => exact padded_ne_nil width n hds
  | cons d ds =>
    have hd := isDigit_padded width n d (by simp [hds])
    simp only [hds, List.cons_append, List.cons.injEq] at e
    rw [e.1, h] at hd
    exact absurd hd (by decide)

end Text

namespace Date

theorem readYear_yearText (year : Int) (rest : List Char) (hrest : NoDigitNext rest) :
    readYear (yearText year ++ rest) = some (year, rest) := by
  have hlong : ∀ n, readNumber (padded 4 n ++ rest).length (padded 4 n ++ rest)
      = some (n, rest) := by
    intro n
    have h := readNumber_append (padded 4 n ++ rest).length rest (isDigit_padded 4 n)
      (padded_ne_nil 4 n) (by simp) (.inr hrest)
    rwa [digitsValue_padded] at h
  unfold yearText
  split
  · rename_i hyear
    have hlt : year.toNat < tenTo 4 := by
      have : tenTo 4 = 10000 := by decide
      omega
    have hlength := length_padded hlt (by decide)
    have hnumber := readNumber_append 4 rest (isDigit_padded 4 year.toNat)
      (padded_ne_nil 4 year.toNat) (Nat.le_of_eq hlength) (.inl hlength)
    rw [digitsValue_padded] at hnumber
    rw [readYear, trimStart_padded]
    split
    · rename_i e
      exact absurd e (padded_ne_cons (by decide) _ _)
    · rename_i e
      exact absurd e (padded_ne_cons (by decide) _ _)
    · simp only [hnumber, Option.map_some, Int.toNat_of_nonneg hyear.1]
  · by_cases hneg : year < 0
    · rw [if_pos hneg, List.cons_append, readYear, trimStart_cons (by decide)]
      simp only [hlong, Option.map_some]
      congr 2
      omega
    · rw [if_neg hneg, List.cons_append, readYear, trimStart_cons (by decide)]
      simp only [hlong, Option.map_some]
      congr 2
      omega

theorem readTwoDigits_padded {n : Nat} (h : n < 100) (rest : List Char) :
    readTwoDigits (padded 2 n ++ rest) = some (n, rest) := by
  have hlength : (padded 2 n).length = 2 := length_padded h (by decide)
  have hnumber := readNumber_append 2 rest (isDigit_padded 2 n) (padded_ne_nil 2 n)
    (Nat.le_of_eq hlength) (.inl hlength)
  rw [readTwoDigits, trimStart_padded, hnumber, digitsValue_padded]

theorem readMark_cons (tolerant : Bool) {c : Char} (h : isBlank c = false) (s : List Char) :
    readMark tolerant c (c :: s) = some s := by
  cases tolerant <;> simp [readMark, trimStart_cons h]

theorem daysInMonth_le (year : Int) (month : Nat) : daysInMonth year month ≤ 31 := by
  unfold daysInMonth
  split
  · split <;> decide
  · split <;> decide

theorem ofParts?_parts (d : Date) : ofParts? d.year d.month d.day = some d := dif_pos d.valid

/-- A date is read back, whatever follows it and whether blanks are tolerated or not. -/
theorem read_write (tolerant : Bool) (d : Date) (rest : List Char) :
    read tolerant (d.write ++ rest) = some (d, rest) := by
  obtain ⟨-, ⟨-, hmonth⟩, -, hday⟩ := d.valid
  have hdays := daysInMonth_le d.year d.month
  have hyear := readYear_yearText d.year ('-' :: (padded 2 d.month ++ '-' ::
    (padded 2 d.day ++ rest))) (by simp [NoDigitNext])
  simp only [write, List.append_assoc, List.cons_append]
  simp only [read, hyear, readMark_cons tolerant (c := '-') (by decide),
    readTwoDigits_padded (n := d.month) (by omega), readTwoDigits_padded (n := d.day) (by omega),
    ofParts?_parts, Option.bind_eq_bind, Option.bind_some]

theorem ofText?_text (d : Date) : ofText? d.text = some d := by
  have h := read_write true d []
  rw [List.append_nil] at h
  rw [ofText?, text, String.toList_ofList, h]
  rfl

theorem ofArgument?_text (d : Date) : ofArgument? d.text = some d := by
  have h := read_write false d []
  rw [List.append_nil] at h
  rw [ofArgument?, text, String.toList_ofList, h]
  rfl

end Date

namespace Instant

theorem readFraction_padded {width n nano : Nat} (hwidth : width ≤ 9) (hpos : 0 < width)
    (hn : n < tenTo width) (hnano : n * tenTo (9 - width) = nano) {rest : List Char}
    (hrest : NoDigitNext rest) :
    readFraction ('.' :: (padded width n ++ rest)) = some (nano, rest) := by
  have hlength := length_padded hn hpos
  have hspan := spanDigits_append (isDigit_padded width n) hrest
  rw [readFraction, hspan]
  split
  · rename_i e
    exact absurd (congrArg Prod.fst e) (padded_ne_nil width n)
  · rename_i e
    obtain ⟨rfl, rfl⟩ := Prod.mk.inj e
    simp only [List.take_of_length_le (hlength ▸ hwidth), hlength, digitsValue_padded, hnano]

theorem readFraction_fractionText (nano : Nat) (h : nano < 1000000000) {rest : List Char}
    (hrest : NoDigitNext rest) (hpoint : ∀ s, rest ≠ '.' :: s) :
    readFraction (fractionText nano ++ rest) = some (nano, rest) := by
  have h3 : tenTo 3 = 1000 := by decide
  have h6 : tenTo 6 = 1000000 := by decide
  have h9 : tenTo 9 = 1000000000 := by decide
  have h93 : tenTo (9 - 3) = 1000000 := by decide
  have h96 : tenTo (9 - 6) = 1000 := by decide
  unfold fractionText
  split
  · rename_i hzero
    rw [List.nil_append, hzero]
    unfold readFraction
    split
    · exact absurd rfl (hpoint _)
    · rfl
  · split
    · exact readFraction_padded (by decide) (by decide) (by omega) (by rw [h93]; omega) hrest
    · split
      · exact readFraction_padded (by decide) (by decide) (by omega) (by rw [h96]; omega) hrest
      · exact readFraction_padded (by decide) (by decide) (by omega) (by simp) hrest

theorem ofParts?_parts (t : Instant) : ofParts? t.date t.second t.nano = some t :=
  dif_pos ⟨t.second_lt, t.nano_lt, t.leap⟩

theorem readClock_write (t : Instant) (rest : List Char) (hrest : NoDigitNext rest)
    (hpoint : ∀ s, rest ≠ '.' :: s) :
    readClock (padded 2 (t.second / 3600) ++ ':' :: (padded 2 (t.second / 60 % 60)
        ++ ':' :: (padded 2 (t.second % 60 + t.nano / 1000000000)
          ++ (fractionText (t.nano % 1000000000) ++ rest))))
      = some ((t.second, t.nano), rest) := by
  have hsecond := t.second_lt
  have hnano := t.nano_lt
  have hleap := t.leap
  have hcarry : t.nano / 1000000000 ≤ 1 := by omega
  have hfraction := readFraction_fractionText (t.nano % 1000000000)
    (Nat.mod_lt _ (by decide)) hrest hpoint
  simp only [readClock, Date.readTwoDigits_padded (n := t.second / 3600) (by omega),
    Date.readTwoDigits_padded (n := t.second / 60 % 60) (by omega),
    Date.readTwoDigits_padded (n := t.second % 60 + t.nano / 1000000000) (by omega),
    Date.readMark_cons true (c := ':') (by decide), hfraction, Option.bind_eq_bind,
    Option.bind_some]
  rw [if_pos (by omega)]
  -- The second is written as 60 exactly when it is a leap second.
  split
  · rename_i hsixty
    have h : 1000000000 ≤ t.nano := by omega
    have := hleap h
    congr 3 <;> omega
  · rename_i hordinary
    have h : t.nano < 1000000000 := by
      by_contra hge
      have := hleap (by omega)
      omega
    congr 3 <;> omega

theorem ofLocal?_zero (t : Instant) : ofLocal? t.date t.second t.nano 0 = some t := by
  have hsecond := t.second_lt
  have hnot : ¬ ((t.second : Int) < 0) := by omega
  have hlt : (t.second : Int) < 86400 := by omega
  have hoffset : (-86400 : Int) < 0 ∧ (0 : Int) < 86400 := by decide
  simp only [ofLocal?, Int.sub_zero]
  rw [if_pos hoffset, if_neg hnot, if_pos hlt, Int.toNat_natCast, ofParts?_parts]

theorem read_of_parts {s s₁ s₂ rest : List Char} {date : Date} {second nano : Nat} {offset : Int}
    {t : Instant} (hdate : Date.read true s = some (date, 'T' :: s₁))
    (hclock : readClock s₁ = some ((second, nano), s₂))
    (hoffset : readOffset (trimStart s₂) = some (offset, rest))
    (hlocal : ofLocal? date second nano offset = some t) : read s = some (t, rest) := by
  simp [read, hdate, hclock, hoffset, hlocal]

theorem read_write (t : Instant) : read t.write = some (t, []) := by
  have hclock := readClock_write t ['Z'] (by simp [NoDigitNext]) (by simp)
  refine read_of_parts ?_ hclock (by decide) (ofLocal?_zero t)
  rw [← Date.read_write true t.date, write]
  simp

theorem ofText?_text (t : Instant) : ofText? t.text = some t := by
  rw [ofText?, text, String.toList_ofList, read_write]
  rfl

end Instant

end TollClearing
