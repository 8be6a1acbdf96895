import TollClearing.Json.Number
import TollClearing.Proofs.Text.Digits

/-!
What the text of a number is read as. The reader takes the whole text, whatever follows it
(`readNumber_text`), so what becomes of a number depends on the number alone (`Number.reread?`). A
whole number that fits 64 bits stays as it is; a double can become its neighbour.
-/

set_option autoImplicit false

namespace TollClearing.Json

open TollClearing.Text

def NumberEnds (s : List Char) : Prop :=
  ∀ c ∈ s.head?, c.isDigit = false ∧ c ≠ '.' ∧ c ≠ 'e' ∧ c ≠ 'E'

@[simp] theorem numberEnds_nil : NumberEnds [] := by simp [NumberEnds]

theorem numberEnds_cons {c : Char} {s : List Char}
    (h : c.isDigit = false ∧ c ≠ '.' ∧ c ≠ 'e' ∧ c ≠ 'E') : NumberEnds (c :: s) := by
  simpa [NumberEnds] using h

namespace NumberText

def signText (negative : Bool) : List Char := if negative then ['-'] else []

def fractionText : List Char → List Char
  | [] => []
  | d :: ds => '.' :: d :: ds

def exponentText : Option (Bool × List Char) → List Char
  | none => []
  | some (negative, ds) => 'e' :: (if negative then '-' else '+') :: ds

def text (t : NumberText) : List Char :=
  signText t.negative ++ (t.whole ++ (fractionText t.fraction ++ exponentText t.exponent))

structure WellFormed (t : NumberText) : Prop where
  whole_ne_nil : t.whole ≠ []
  whole : ∀ c ∈ t.whole, c.isDigit = true
  fraction : ∀ c ∈ t.fraction, c.isDigit = true
  exponent : ∀ e ∈ t.exponent, e.2 ≠ [] ∧ ∀ c ∈ e.2, c.isDigit = true

theorem readWhole_append {ds rest : List Char} (hds : ∀ c ∈ ds, c.isDigit = true)
    (hrest : NoDigitNext rest) :
    readWhole (ds ++ rest) = (readWhole ds).map fun _ => (ds, rest) := by
  have halone := spanDigits_append hds noDigitNext_nil
  rw [List.append_nil] at halone
  rw [readWhole, readWhole, halone, spanDigits_append hds hrest]
  rcases ds with _ | ⟨c, _ | ⟨d, ds⟩⟩
  · rfl
  · simp
  · by_cases hzero : c = '0' <;> simp [hzero]

theorem readWhole_digits (n : Nat) : readWhole (digits n) = some (digits n, []) := by
  have halone := spanDigits_append (isDigit_digits n) noDigitNext_nil
  rw [List.append_nil] at halone
  rw [readWhole, halone]
  split
  · rename_i e
    exact absurd (congrArg Prod.fst e) (digits_ne_nil n)
  · rename_i c ds _ e
    exact absurd (congrArg Prod.fst e) (digits_ne_zero_cons n c ds)
  · rename_i e
    rw [← e]

variable {ds rest : List Char} {e : Option (Bool × List Char)}

theorem readFraction_fractionText (hds : ∀ c ∈ ds, c.isDigit = true)
    (hrest : ∀ c ∈ rest.head?, c.isDigit = false ∧ c ≠ '.') :
    readFraction (fractionText ds ++ rest) = some (ds, rest) := by
  cases ds with
  | nil =>
    rw [fractionText, List.nil_append]
    unfold readFraction
    split
    · exact absurd rfl (hrest '.' (by simp)).2
    · rfl
  | cons d ds =>
    have hspan := spanDigits_append hds fun c hc => (hrest c hc).1
    simp only [fractionText, List.cons_append] at hspan ⊢
    simp [readFraction, hspan]

theorem readExponent_exponentText (he : ∀ x ∈ e, x.2 ≠ [] ∧ ∀ c ∈ x.2, c.isDigit = true)
    (hrest : NumberEnds rest) : readExponent (exponentText e ++ rest) = some (e, rest) := by
  cases e with
  | none =>
    cases rest with
    | nil => rfl
    | cons c rest =>
      obtain ⟨-, -, he, hE⟩ := hrest c (by simp)
      simp [exponentText, readExponent, he, hE]
  | some x =>
    obtain ⟨negative, ds⟩ := x
    obtain ⟨hne, hds⟩ := he _ rfl
    have hspan := spanDigits_append hds fun c hc => (hrest c hc).1
    cases ds with
    | nil => exact absurd rfl hne
    | cons d ds => cases negative <;> simp_all [exponentText, readExponent]

theorem head?_exponentText (hrest : NumberEnds rest) :
    ∀ c ∈ (exponentText e ++ rest).head?, c.isDigit = false ∧ c ≠ '.' := by
  cases e with
  | none => exact fun c hc => ⟨(hrest c hc).1, (hrest c hc).2.1⟩
  | some x => simp [exponentText]

theorem read_signText (negative : Bool) {s : List Char} (hs : s.head? ≠ some '-') :
    read (signText negative ++ s) = (do
      let (whole, s) ← readWhole s
      let (fraction, s) ← readFraction s
      let (exponent, s) ← readExponent s
      some (⟨negative, whole, fraction, exponent⟩, s)) := by
  cases negative with
  | true => rfl
  | false =>
    rcases s with _ | ⟨c, s⟩
    · rfl
    · have hminus : c ≠ '-' := by simpa using hs
      simp [signText, read, hminus]

/-- The reader takes the whole text of a number and nothing of what follows, unless it finds a zero
too many. -/
theorem read_text_append {t : NumberText} (h : t.WellFormed) (hrest : NumberEnds rest) :
    read (t.text ++ rest) = (readWhole t.whole).map fun _ => (t, rest) := by
  have hafter := head?_exponentText (e := t.exponent) hrest
  have hfraction := readFraction_fractionText h.fraction hafter
  have hexponent := readExponent_exponentText h.exponent hrest
  have hdigit : NoDigitNext (fractionText t.fraction ++ (exponentText t.exponent ++ rest)) := by
    cases t.fraction with
    | nil => exact fun c hc => (hafter c hc).1
    | cons d ds => simp [fractionText]
  have hwhole := readWhole_append h.whole hdigit
  have hminus : (t.whole ++ (fractionText t.fraction
      ++ (exponentText t.exponent ++ rest))).head? ≠ some '-' := by
    obtain ⟨c, ds, hcons⟩ := List.exists_cons_of_ne_nil h.whole_ne_nil
    rw [hcons, List.cons_append, List.head?_cons]
    rintro ⟨rfl⟩
    exact absurd (h.whole '-' (hcons ▸ List.mem_cons_self)) (by decide)
  rw [text, List.append_assoc, List.append_assoc, List.append_assoc, read_signText _ hminus, hwhole]
  cases readWhole t.whole with
  | none => rfl
  | some _ => simp [hfraction, hexponent]

end NumberText

namespace NumberText

def ofDigits (negative : Bool) (n : Nat) : NumberText := ⟨negative, digits n, [], none⟩

theorem wellFormed_ofDigits (negative : Bool) (n : Nat) : (ofDigits negative n).WellFormed where
  whole_ne_nil := digits_ne_nil n
  whole := isDigit_digits n
  fraction := by simp [ofDigits]
  exponent := by simp [ofDigits]

theorem exists_placePoint_eq (n places : Nat) :
    ∃ whole fraction, placePoint (digits n) places = whole ++ fractionText fraction ∧
      whole ≠ [] ∧ (∀ c ∈ whole, c.isDigit = true) ∧ ∀ c ∈ fraction, c.isDigit = true := by
  by_cases hzero : places = 0
  · refine ⟨digits n, [], ?_, digits_ne_nil n, isDigit_digits n, by simp⟩
    rw [placePoint, if_pos hzero, fractionText, List.append_nil]
  · obtain ⟨whole, fraction, e, hwhole, hfraction, hne, hlength, -⟩ :=
      placePoint_digits (n := n) hzero
    refine ⟨whole, fraction, ?_, hne, hwhole, hfraction⟩
    cases fraction with
    | nil => exact absurd hlength.symm hzero
    | cons d ds => exact e

theorem exists_pointed_eq (x : Binary64) :
    ∃ t : NumberText, t.WellFormed ∧ x.pointed = t.text := by
  have hsign : x.sign = signText x.negative := rfl
  unfold Binary64.pointed
  split
  · refine ⟨⟨x.negative, ['0'], ['0'], none⟩, ⟨?_, ?_, ?_, ?_⟩, rfl⟩ <;> simp
  · obtain ⟨d, e⟩ := x.shortest .toEven
    simp only
    split
    · -- a whole number, with zeros filled in up to the point
      refine ⟨⟨x.negative, digits d ++ List.replicate e.toNat '0', ['0'], none⟩,
        ⟨?_, ?_, ?_, ?_⟩, ?_⟩
      · simp [digits_ne_nil]
      · intro c hc
        rcases List.mem_append.1 hc with hc | hc
        · exact isDigit_digits d c hc
        · rw [(List.mem_replicate.1 hc).2]
          decide
      · simp
      · simp
      · simp [text, hsign, fractionText, exponentText]
    · split
      · obtain ⟨whole, fraction, hplace, hne, hwhole, hfraction⟩ :=
          exists_placePoint_eq d (-e).toNat
        refine ⟨⟨x.negative, whole, fraction, none⟩, ⟨hne, hwhole, hfraction, by simp⟩, ?_⟩
        simp [text, hsign, hplace, exponentText]
      · obtain ⟨whole, fraction, hplace, hne, hwhole, hfraction⟩ :=
          exists_placePoint_eq d ((digits d).length - 1)
        refine ⟨⟨x.negative, whole, fraction,
          some (decide (((digits d).length : Int) + e - 1 < 0),
            digits (((digits d).length : Int) + e - 1).natAbs)⟩, ⟨hne, hwhole, hfraction, ?_⟩, ?_⟩
        · rintro _ ⟨rfl⟩
          exact ⟨digits_ne_nil _, isDigit_digits _⟩
        · simp [text, hsign, hplace, exponentText, Binary64.signed]

end NumberText

theorem Number.text_ofNat (n : Nat) :
    (Number.whole (.ofNat n)).text = (NumberText.ofDigits false n).text := by
  simp [text, signedDigits, NumberText.text, NumberText.ofDigits, NumberText.signText,
    NumberText.fractionText, NumberText.exponentText]

theorem Number.text_negSucc (n : Nat) :
    (Number.whole (.negSucc n)).text = (NumberText.ofDigits true (n + 1)).text := by
  simp [text, signedDigits, NumberText.text, NumberText.ofDigits, NumberText.signText,
    NumberText.fractionText, NumberText.exponentText]

theorem Number.exists_text_eq (n : Number) :
    ∃ t : NumberText, t.WellFormed ∧ n.text = t.text := by
  cases n with
  | real x => exact NumberText.exists_pointed_eq x
  | whole n =>
    cases n with
    | ofNat n => exact ⟨_, NumberText.wellFormed_ofDigits false n, text_ofNat n⟩
    | negSucc n => exact ⟨_, NumberText.wellFormed_ofDigits true (n + 1), text_negSucc n⟩

theorem exists_text_eq_cons (n : Number) :
    ∃ c s, n.text = c :: s ∧ (c.isDigit = true ∨ c = '-') := by
  obtain ⟨t, ht, e⟩ := n.exists_text_eq
  obtain ⟨c, ds, hcons⟩ := List.exists_cons_of_ne_nil ht.whole_ne_nil
  have hc := ht.whole c (hcons ▸ List.mem_cons_self)
  rw [e, NumberText.text, hcons]
  cases t.negative with
  | true => exact ⟨'-', _, rfl, .inr rfl⟩
  | false => exact ⟨c, _, rfl, .inl hc⟩

/-- What a number becomes when its text is read. -/
def Number.reread? (n : Number) : Option Number := (readNumber n.text).map Prod.fst

theorem NumberText.readNumber_text {t : NumberText} (h : t.WellFormed) {rest : List Char}
    (hrest : NumberEnds rest) :
    readNumber (t.text ++ rest)
      = ((readWhole t.whole).bind fun _ => t.toNumber?).map fun n => (n, rest) := by
  rw [readNumber, read_text_append h hrest]
  cases readWhole t.whole with
  | none => rfl
  | some w => cases h : t.toNumber? <;> simp [h]

theorem NumberText.reread?_eq {t : NumberText} (h : t.WellFormed) {n : Number}
    (e : n.text = t.text) : n.reread? = (readWhole t.whole).bind fun _ => t.toNumber? := by
  have hread := NumberText.readNumber_text h numberEnds_nil
  rw [List.append_nil] at hread
  rw [Number.reread?, e, hread]
  simp [Function.comp_def]

theorem readNumber_text (n : Number) {rest : List Char} (hrest : NumberEnds rest) :
    readNumber (n.text ++ rest) = n.reread?.map fun n => (n, rest) := by
  obtain ⟨t, ht, e⟩ := n.exists_text_eq
  rw [NumberText.reread?_eq ht e, e, NumberText.readNumber_text ht hrest]

def Number.Exact : Number → Prop
  | .whole n => -(twoTo 63 : Int) ≤ n ∧ n < twoTo 64
  | .real _ => False

theorem Number.exact_natCast {n : Nat} (h : n < twoTo 64) : (Number.whole n).Exact := by
  refine ⟨?_, Int.ofNat_lt.2 h⟩
  have hnonneg : (0 : Int) ≤ n := Int.natCast_nonneg n
  have hpos : (0 : Int) ≤ twoTo 63 := Int.natCast_nonneg _
  omega

theorem Number.Exact.reread? {n : Number} (h : n.Exact) : n.reread? = some n := by
  cases n with
  | real x => exact h.elim
  | whole n =>
    obtain ⟨hlow, hhigh⟩ := h
    cases n with
    | ofNat n =>
      have hlt : n < twoTo 64 := by simpa using hhigh
      rw [NumberText.reread?_eq (NumberText.wellFormed_ofDigits false n) (text_ofNat n)]
      simp [NumberText.ofDigits, NumberText.readWhole_digits, NumberText.toNumber?,
        digitsValue_digits, hlt]
    | negSucc n =>
      have hle : n + 1 ≤ twoTo 63 := by omega
      rw [NumberText.reread?_eq (NumberText.wellFormed_ofDigits true (n + 1)) (text_negSucc n)]
      simp [NumberText.ofDigits, NumberText.readWhole_digits, NumberText.toNumber?,
        digitsValue_digits, hle, Int.negSucc_eq]

/-- The text of a double can be read as its neighbour: seventeen digits can be more than a
significand holds, and the quotient by the power of ten is rounded once more. -/
theorem Number.exists_reread?_ne : ∃ n m : Number, n.reread? = some m ∧ m ≠ n := by
  -- 0.9007589171439481 becomes 0.900758917143948
  refine ⟨.real ⟨false, 8113315047200272, -53⟩, .real ⟨false, 8113315047200271, -53⟩, ?_,
    by decide⟩
  have hread : NumberText.read (text (.real ⟨false, 8113315047200272, -53⟩))
      = some (⟨false, ['0'], "9007589171439481".toList, none⟩, []) := by decide +kernel
  have hdigits : NumberText.appendFraction 0 "9007589171439481".toList
      = (9007589171439481, 16) := by decide +kernel
  have hsignificand : Binary64.ofNat? 9007589171439481
      = some ⟨false, 4503794585719740, 1⟩ := by decide +kernel
  have hscale : NumberText.scale? ⟨false, 4503794585719740, 1⟩ (-16)
      = some ⟨false, 8113315047200271, -53⟩ := by
    rw [NumberText.scale?]
    decide +kernel
  have hreal : NumberText.toReal? ⟨false, ['0'], "9007589171439481".toList, none⟩
      = some ⟨false, 8113315047200271, -53⟩ := by
    have hwhole : NumberText.wholeSignificand ['0'] = (0, 0) := by decide
    rw [NumberText.toReal?]
    simp only [hwhole, hdigits, hsignificand]
    exact congrArg (Option.map _) hscale
  have hnumber : NumberText.toNumber? ⟨false, ['0'], "9007589171439481".toList, none⟩
      = some (.real ⟨false, 8113315047200271, -53⟩) := by
    rw [NumberText.toNumber?, if_neg (by decide), hreal]
    rfl
  rw [reread?, readNumber, hread]
  simp only [Option.bind_eq_bind, Option.bind_some, hnumber, Option.map_some]

end TollClearing.Json
