import TollClearing.Proofs.Calendar
import TollClearing.Proofs.Decimal.RoundTrip
import TollClearing.Proofs.Record.Layout
import TollClearing.Record.Column

/-!
Every column reads what it writes. What a blank-tolerant column writes is neither `null` nor blank
text, so that a value is not taken for a missing one.
-/

set_option autoImplicit false

namespace TollClearing

def Json.IsTold : Json → Prop
  | .null => False
  | .string s => Text.allBlank s = false
  | _ => True

theorem Text.allBlank_eq_false {s : String} {c : Char} (hc : c ∈ s.toList)
    (h : Text.isBlank c = false) : Text.allBlank s = false := by
  rw [Text.allBlank, List.all_eq_false]
  exact ⟨c, hc, by simp [h]⟩

/-- What a scalar writes is read as `norm` of it, in either form, and nests at most `depth`
deep. -/
class Scalar.Faithful {α : Type} (s : Scalar α) (norm : outParam (α → α)) (depth : Nat) : Prop where
  read_written : ∀ {g}, Copy g → ∀ a, s.read (g (s.write a)) = .ok (norm a)
  shallow : ∀ a, (s.write a).Shallow depth

/-- What a scalar writes is told, in either form. -/
class Scalar.Told {α : Type} (s : Scalar α) : Prop where
  isTold : ∀ {g}, Copy g → ∀ a, (g (s.write a)).IsTold

namespace Scalar

variable {α : Type} {depth : Nat}

instance faithful_text : text.Faithful id depth where
  read_written hg a := by simp [text, hg.string]
  shallow a := by simp [text]

theorem faithful_parsed {what : String} {parse? : String → Option α} {print : α → String}
    {norm : α → α} (h : ∀ a, parse? (print a) = some (norm a)) :
    (parsed what parse? print).Faithful norm depth where
  read_written hg a := by simp [parsed, hg.string, h]
  shallow a := by simp [parsed]

theorem told_parsed {what : String} {parse? : String → Option α} {print : α → String}
    (h : ∀ a, Text.allBlank (print a) = false) : (parsed what parse? print).Told where
  isTold hg a := by simpa [parsed, hg.string, Json.IsTold] using h a

instance faithful_date : date.Faithful id depth := faithful_parsed Date.ofText?_text

theorem allBlank_date (d : Date) : Text.allBlank d.text = false := by
  refine Text.allBlank_eq_false (c := '-') ?_ (by decide)
  simp [Date.text, Date.write]

instance told_date : date.Told := told_parsed allBlank_date

instance faithful_instant : instant.Faithful id depth := faithful_parsed Instant.ofText?_text

theorem allBlank_instant (t : Instant) : Text.allBlank t.text = false := by
  refine Text.allBlank_eq_false (c := 'Z') ?_ (by decide)
  simp [Instant.text, Instant.write]

instance told_instant : instant.Told := told_parsed allBlank_instant

instance faithful_code [Code α] : (code : Scalar α).Faithful id depth where
  read_written hg a := by simp [code, hg.string, Code.ofWire?_wire]
  shallow a := by simp [code]

theorem told_code [Code α] (h : ∀ a : α, Text.allBlank (Code.wire a) = false) :
    (code : Scalar α).Told where
  isTold hg a := by simpa [code, hg.string, Json.IsTold] using h a

instance faithful_decimal : decimal.Faithful Decimal.asRead depth where
  read_written hg a := by simp [decimal, hg.string, Decimal.ofText?_text]
  shallow a := by simp [decimal]

theorem allBlank_decimal (a : Decimal) : Text.allBlank a.text = false := by
  obtain ⟨c, hc, hdigit⟩ := a.exists_isDigit_text
  exact Text.allBlank_eq_false hc (Text.isBlank_eq_false_of_isDigit hdigit)

instance told_decimal : decimal.Told where
  isTold hg a := by simpa [decimal, hg.string, Json.IsTold] using allBlank_decimal a

instance faithful_byte : byte.Faithful id depth where
  read_written hg n := by
    have hlt : (n.toNat : Int) < 256 := Int.ofNat_lt.2 n.toNat_lt
    simp [byte, hg.number, hlt]
  shallow n := by
    have hlt := n.toNat_lt
    rw [byte, Json.shallow_number]
    exact Json.Number.exact_natCast (Nat.lt_of_lt_of_le hlt (by decide))

instance faithful_count : count.Faithful id depth where
  read_written hg n := by
    have hlt : (n.toNat : Int) < 4294967296 := Int.ofNat_lt.2 n.toNat_lt
    simp [count, hg.number, hlt]
  shallow n := by
    have hlt := n.toNat_lt
    rw [count, Json.shallow_number]
    exact Json.Number.exact_natCast (Nat.lt_of_lt_of_le hlt (by decide))

end Scalar

namespace Column

variable {α : Type} {s : Scalar α} {norm : α → α} {depth : Nat}

instance faithful_plain [h : s.Faithful norm depth] (absent : α) :
    (plain s absent).Faithful norm depth where
  read_written hg a v hwrite := by
    obtain rfl : s.write a = v := by simpa [plain] using hwrite
    exact h.read_written hg a
  absent_eq hwrite := by simp [plain] at hwrite
  shallow {a v} hwrite := by
    obtain rfl : s.write a = v := by simpa [plain] using hwrite
    exact h.shallow a

instance faithful_text : text.Faithful id depth := faithful_plain ""

instance faithful_optionalText : optionalText.Faithful id depth where
  read_written hg a v hwrite := by
    simp only [optionalText] at hwrite ⊢
    split at hwrite
    · simp at hwrite
    · obtain rfl : Json.string a = v := by simpa using hwrite
      have htext : Scalar.text.Faithful id depth := Scalar.faithful_text
      exact htext.read_written hg a
  absent_eq {a} hwrite := by
    by_cases h : a = "" <;> simp_all [optionalText]
  shallow {a v} hwrite := by
    simp only [optionalText] at hwrite
    split at hwrite
    · simp at hwrite
    · obtain rfl : Json.string a = v := by simpa using hwrite
      simp

theorem read_nullable {v : Json} (h : v ≠ .null) :
    (nullable s).read v = (s.read v).map some := by
  unfold nullable
  cases v <;> first | rfl | exact absurd rfl h

theorem readBlank_of_isTold {v : Json} (h : v.IsTold) :
    readBlank s v = (s.read v).map some := by
  cases v <;> simp_all [readBlank, Json.IsTold]

theorem faithful_nullable [h : s.Faithful id depth]
    (hne : ∀ {g}, Copy g → ∀ a, g (s.write a) ≠ .null) : (nullable s).Faithful id depth where
  read_written hg a v hwrite := by
    obtain ⟨b, rfl, rfl⟩ : ∃ b, a = some b ∧ s.write b = v := by
      simpa [nullable] using hwrite
    rw [read_nullable (hne hg b), h.read_written hg b]
    rfl
  absent_eq {a} hwrite := by
    obtain rfl : a = none := by simpa [nullable] using hwrite
    rfl
  shallow {a v} hwrite := by
    obtain ⟨b, rfl, rfl⟩ : ∃ b, a = some b ∧ s.write b = v := by
      simpa [nullable] using hwrite
    exact h.shallow b

section Blank

variable [htold : s.Told]

theorem read_blank_written (h : s.Faithful norm depth) {g : Json → Json} (hg : Copy g) (a : α) :
    readBlank s (g (s.write a)) = .ok (some (norm a)) := by
  rw [readBlank_of_isTold (htold.isTold hg a), h.read_written hg a]
  rfl

variable [h : s.Faithful norm depth]

include h

theorem faithful_map_blank : (blank s).Faithful (Option.map norm) depth where
  read_written {g} hg a v hwrite := by
    cases a with
    | none =>
      obtain rfl : Json.null = v := by simpa [blank] using hwrite
      simp [blank, readBlank, hg.null]
    | some a =>
      obtain rfl : s.write a = v := by simpa [blank] using hwrite
      exact read_blank_written h hg a
  absent_eq {a} hwrite := by cases a <;> simp [blank] at hwrite
  shallow {a v} hwrite := by
    cases a with
    | none =>
      obtain rfl : Json.null = v := by simpa [blank] using hwrite
      simp
    | some a =>
      obtain rfl : s.write a = v := by simpa [blank] using hwrite
      exact h.shallow a

theorem faithful_map_optionalBlank : (optionalBlank s).Faithful (Option.map norm) depth where
  read_written hg a v hwrite := by
    obtain ⟨b, rfl, rfl⟩ : ∃ b, a = some b ∧ s.write b = v := by
      simpa [optionalBlank] using hwrite
    exact read_blank_written h hg b
  absent_eq {a} hwrite := by
    obtain rfl : a = none := by simpa [optionalBlank] using hwrite
    rfl
  shallow {a v} hwrite := by
    obtain ⟨b, rfl, rfl⟩ : ∃ b, a = some b ∧ s.write b = v := by
      simpa [optionalBlank] using hwrite
    exact h.shallow b

end Blank

-- a column that keeps the values of an option is said to keep the option
instance faithful_blank [s.Faithful id depth] [s.Told] : (blank s).Faithful id depth :=
  Option.map_id (α := α) ▸ faithful_map_blank

instance faithful_optionalBlank [s.Faithful id depth] [s.Told] :
    (optionalBlank s).Faithful id depth :=
  Option.map_id (α := α) ▸ faithful_map_optionalBlank

instance faithful_blankDecimal :
    (blank Scalar.decimal).Faithful (Option.map Decimal.asRead) depth := faithful_map_blank

instance faithful_optionalDecimal :
    (optionalBlank Scalar.decimal).Faithful (Option.map Decimal.asRead) depth :=
  faithful_map_optionalBlank

theorem ne_null_of_told [htold : s.Told] {g : Json → Json} (hg : Copy g) (a : α) :
    g (s.write a) ≠ .null := by
  intro e
  have hwritten := htold.isTold hg a
  rw [e] at hwritten
  exact hwritten

instance faithful_stamp : stamp.Faithful id depth := faithful_nullable ne_null_of_told

end Column

end TollClearing
