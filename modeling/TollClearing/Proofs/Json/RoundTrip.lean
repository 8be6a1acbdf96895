import TollClearing.Json.Printer
import TollClearing.Proofs.Except
import TollClearing.Proofs.Json.Spread

/-!
What either printer writes is read back as the value that its numbers are read as (`reread?`), as
long as the value nests no deeper than the reader goes. A shallow value, whose numbers are exact
throughout, is read back as it was.
-/

set_option autoImplicit false

namespace TollClearing.Json

open TollClearing.Text

/-- A value that nests at most `depth` deep, with `p` of its numbers throughout. -/
def Within (p : Number → Prop) : Nat → Json → Prop
  | _, .null | _, .bool _ | _, .string _ => True
  | _, .number n => p n
  | 0, .array _ | 0, .object _ => False
  | depth + 1, .array vs => ∀ v ∈ vs, Within p depth v
  | depth + 1, .object ms => ∀ m ∈ ms, Within p depth m.2

/-- A value that nests at most `depth` deep, with exact numbers throughout. -/
abbrev Shallow : Nat → Json → Prop := Within Number.Exact

@[simp] theorem shallow_null (depth : Nat) : Shallow depth .null := by cases depth <;> trivial

@[simp] theorem shallow_string (depth : Nat) (s : String) : Shallow depth (.string s) := by
  cases depth <;> trivial

namespace Within

variable {p q : Number → Prop}

@[simp] theorem number_iff {depth : Nat} {n : Number} : Within p depth (.number n) ↔ p n := by
  cases depth <;> rfl

theorem imp (hpq : ∀ n, p n → q n) {depth : Nat} {v : Json} (h : Within p depth v) :
    Within q depth v := by
  induction depth generalizing v with
  | zero =>
    cases v with
    | number n => exact hpq n h
    | array vs => exact h.elim
    | object ms => exact h.elim
    | _ => trivial
  | succ depth ih =>
    cases v with
    | number n => exact hpq n h
    | array vs => exact fun v hv => ih (h v hv)
    | object ms => exact fun m hm => ih (h m hm)
    | _ => trivial

theorem succ {depth : Nat} {v : Json} (h : Within p depth v) : Within p (depth + 1) v := by
  induction depth generalizing v with
  | zero => cases v <;> first | exact h.elim | exact h
  | succ depth ih =>
    cases v with
    | array vs => exact fun v hv => ih (h v hv)
    | object ms => exact fun m hm => ih (h m hm)
    | _ => exact h

theorem mono {depth most : Nat} (hle : depth ≤ most) {v : Json} (h : Within p depth v) :
    Within p most v := by
  induction hle with
  | refl => exact h
  | step _ ih => exact ih.succ

end Within

theorem shallow_number {depth : Nat} {n : Number} : Shallow depth (.number n) ↔ n.Exact :=
  Within.number_iff

def reread? : Nat → Json → Option Json
  | _, .null => some .null
  | _, .bool b => some (.bool b)
  | _, .string s => some (.string s)
  | _, .number n => n.reread?.map .number
  | 0, .array _ | 0, .object _ => none
  | depth + 1, .array vs => (vs.mapM (reread? depth)).map .array
  | depth + 1, .object ms => (ms.mapM (named fun m => reread? depth m.2)).map .object

@[simp] theorem reread?_number (depth : Nat) (n : Number) :
    reread? depth (.number n) = n.reread?.map .number := by
  cases depth <;> rfl

theorem isSome_reread? {depth : Nat} {v : Json} :
    (reread? depth v).isSome ↔ Within (fun n => n.reread?.isSome) depth v := by
  induction depth generalizing v with
  | zero => cases v <;> simp [reread?, Within]
  | succ depth ih =>
    cases v with
    | array vs => simp [reread?, Within, isSome_mapM, ih]
    | object ms => simp [reread?, Within, isSome_mapM, named, ih]
    | _ => simp [reread?, Within]

theorem reread?_of_within {depth : Nat} {v : Json}
    (h : Within (fun n => n.reread? = some n) depth v) : reread? depth v = some v := by
  induction depth generalizing v with
  | zero =>
    cases v with
    | number n => rw [reread?_number, Within.number_iff.1 h, Option.map_some]
    | array vs => exact h.elim
    | object ms => exact h.elim
    | _ => rfl
  | succ depth ih =>
    cases v with
    | number n => rw [reread?_number, Within.number_iff.1 h, Option.map_some]
    | array vs =>
      have hitems : vs.mapM (reread? depth) = some vs :=
        mapM_eq_some.2 (List.forall₂_same.2 fun v hv => ih (h v hv))
      rw [reread?, hitems, Option.map_some]
    | object ms =>
      have hmembers : (ms.mapM (named fun m => reread? depth m.2)) = some ms :=
        mapM_eq_some.2 (List.forall₂_same.2 fun m hm => by rw [named, ih (h m hm), Option.map_some])
      rw [reread?, hmembers, Option.map_some]
    | _ => rfl

theorem reread?_of_shallow {depth : Nat} {v : Json} (h : Shallow depth v) :
    reread? depth v = some v :=
  reread?_of_within (h.imp fun _ hn => hn.reread?)

def IsScalar : Json → Prop
  | .array _ | .object _ => False
  | _ => True

theorem readScalar_of_number {c : Char} (h : c.isDigit = true ∨ c = '-') (s : List Char) :
    readScalar (c :: s) = (readNumber (c :: s)).map fun (n, rest) => (.number n, rest) := by
  have hne : c ≠ 'n' ∧ c ≠ 't' ∧ c ≠ 'f' ∧ c ≠ '"' := by
    refine ⟨?_, ?_, ?_, ?_⟩ <;> rintro rfl <;> revert h <;> decide
  obtain ⟨hn, ht, hf, hq⟩ := hne
  unfold readScalar
  split <;> simp_all

theorem readScalar_write {v : Json} (hv : IsScalar v) (depth : Nat) {rest : List Char}
    (hrest : NumberEnds rest) :
    readScalar (write v ++ rest) = (reread? depth v).map fun v => (v, rest) := by
  cases v with
  | null => cases depth <;> rfl
  | bool b => cases depth <;> cases b <;> rfl
  | string s => cases depth <;> simp [write, quote, readScalar, readQuoted_flatMap_escape, reread?]
  | number n =>
    obtain ⟨c, s, htext, hc⟩ := exists_text_eq_cons n
    have hread := readNumber_text n hrest
    simp only [htext, List.cons_append] at hread
    simp only [write, htext, List.cons_append]
    rw [readScalar_of_number hc, hread, reread?_number]
    cases n.reread? <;> rfl
  | array vs => exact hv.elim
  | object ms => exact hv.elim

def structural : List Char := [' ', '\n', '\t', '\r', '[', ']', '\x7b', '\x7d']

theorem exists_write_scalar_eq_cons {v : Json} (hv : IsScalar v) :
    ∃ c s, write v = c :: s ∧ c ∉ structural := by
  cases v with
  | null => exact ⟨'n', _, rfl, by decide⟩
  | bool b =>
    cases b
    · exact ⟨'f', _, rfl, by decide⟩
    · exact ⟨'t', _, rfl, by decide⟩
  | string s => exact ⟨'"', _, rfl, by decide⟩
  | number n =>
    obtain ⟨c, s, htext, hc⟩ := exists_text_eq_cons n
    refine ⟨c, s, htext, fun hmem => ?_⟩
    simp only [structural, List.mem_cons, List.not_mem_nil, or_false] at hmem
    rcases hmem with rfl | rfl | rfl | rfl | rfl | rfl | rfl | rfl <;> revert hc <;> decide
  | array vs => exact hv.elim
  | object ms => exact hv.elim

/-- A way to print values: blanks that stand in front of the items of an array or object at some
level, in front of its closing mark, and after a colon. -/
structure Style where
  print : Nat → Json → List Char
  gap : Nat → List Char
  last : Nat → List Char
  space : List Char
  isSpace_gap : ∀ level, ∀ c ∈ gap level, isSpace c = true
  isSpace_last : ∀ level, ∀ c ∈ last level, isSpace c = true
  isSpace_space : ∀ c ∈ space, isSpace c = true
  print_scalar : ∀ level v, IsScalar v → print level v = write v
  print_array : ∀ level vs,
    print level (.array vs) = spreadArray (gap level) (last level) (print (level + 1)) vs
  print_object : ∀ level ms,
    print level (.object ms) = spreadObject (gap level) (last level) space (print (level + 1)) ms

namespace Style

theorem solid_print (s : Style) (v : Json) (level : Nat) : Solid (s.print level v) := by
  have hscalar : IsScalar v → Solid (s.print level v) := by
    intro hv
    obtain ⟨c, t, e, hc⟩ := exists_write_scalar_eq_cons hv
    refine ⟨c, t, (s.print_scalar level v hv).trans e, ?_, ?_, ?_⟩
    · simp_all [isSpace, structural]
    · rintro rfl
      simp [structural] at hc
    · rintro rfl
      simp [structural] at hc
  cases v with
  | array vs =>
    rw [s.print_array]
    cases vs <;> exact ⟨'[', _, rfl, by decide⟩
  | object ms =>
    rw [s.print_object]
    cases ms <;> exact ⟨'\x7b', _, rfl, by decide⟩
  | _ => exact hscalar trivial

theorem read_print_scalar (s : Style) {v : Json} (hv : IsScalar v) (depth level : Nat)
    {rest : List Char} (hrest : NumberEnds rest) :
    read depth (s.print level v ++ rest) = (reread? depth v).map fun v => (v, rest) := by
  obtain ⟨c, t, e, hc⟩ := exists_write_scalar_eq_cons hv
  rw [s.print_scalar level v hv, ← readScalar_write hv depth hrest, e, List.cons_append]
  cases depth with
  | zero => rfl
  | succ depth =>
    have hbracket : c ≠ '[' := by rintro rfl; simp [structural] at hc
    have hbrace : c ≠ '\x7b' := by rintro rfl; simp [structural] at hc
    simp [read, hbracket, hbrace]

/-- A value is read back from its text in every style, with its numbers read anew. -/
theorem read_print (s : Style) (depth : Nat) (v : Json) (level : Nat) {rest : List Char}
    (hrest : NumberEnds rest) :
    read depth (s.print level v ++ rest) = (reread? depth v).map fun v => (v, rest) := by
  induction depth generalizing v level rest with
  | zero =>
    cases v with
    | array vs =>
      rw [s.print_array]
      cases vs <;> rfl
    | object ms =>
      rw [s.print_object]
      cases ms <;> rfl
    | _ => exact s.read_print_scalar (by trivial) 0 level hrest
  | succ depth ih =>
    cases v with
    | array vs =>
      have hread := readArray_spread (s.isSpace_gap level) (s.isSpace_last level) (reread? depth)
        vs (fun w _ => s.solid_print w (level + 1))
        (fun w _ _ hrest => ih w (level + 1) hrest) rest
      rw [s.print_array, reread?, Option.map_map]
      cases vs <;> simp only [spreadArray, List.tail_cons, List.cons_append] at hread ⊢ <;>
        simp only [read, hread, Option.map_map] <;> rfl
    | object ms =>
      have hread := readObject_spread (fun _ => read depth) s.isSpace_space
        (s.isSpace_gap level) (s.isSpace_last level) (fun m => reread? depth m.2) ms
        (fun m _ => s.solid_print m.2 (level + 1))
        (fun m _ _ hrest => ih m.2 (level + 1) hrest) rest
      rw [s.print_object, reread?, Option.map_map]
      cases ms <;> simp only [spreadObject, List.tail_cons, List.cons_append] at hread ⊢ <;>
        simp only [read, hread, Option.map_map] <;> rfl
    | _ => exact s.read_print_scalar (by trivial) (depth + 1) level hrest

end Style

theorem writeItems_eq_spread (vs : List Json) : writeItems vs = spread [] [] ']' write vs := by
  induction vs with
  | nil => rfl
  | cons v vs ih => simp [writeItems, spread, ih]

theorem writeMembers_eq_spread (ms : Members) :
    writeMembers ms = spread [] [] '\x7d' (spreadMember [] write) ms := by
  induction ms with
  | nil => rfl
  | cons m ms ih => simp [writeMembers, spread, spreadMember, ih]

theorem layOutItems_eq_spread (depth : Nat) (vs : List Json) :
    layOutItems depth vs
      = spread (newLine (depth + 1)) (newLine depth) ']' (layOut (depth + 1)) vs := by
  induction vs with
  | nil => rfl
  | cons v vs ih => simp [layOutItems, spread, ih]

theorem layOutMembers_eq_spread (depth : Nat) (ms : Members) :
    layOutMembers depth ms
      = spread (newLine (depth + 1)) (newLine depth) '\x7d'
          (spreadMember [' '] (layOut (depth + 1))) ms := by
  induction ms with
  | nil => rfl
  | cons m ms ih => simp [layOutMembers, spread, spreadMember, ih]

theorem isSpace_of_mem_newLine (depth : Nat) : ∀ c ∈ newLine depth, isSpace c = true := by
  intro c hc
  rcases List.mem_cons.1 hc with rfl | hc
  · decide
  · rw [(List.mem_replicate.1 hc).2]
    decide

def compactStyle : Style where
  print _ := write
  gap _ := []
  last _ := []
  space := []
  isSpace_gap := by simp
  isSpace_last := by simp
  isSpace_space := by simp
  print_scalar _ _ _ := rfl
  print_array _ vs := by cases vs <;> simp [write, spreadArray, writeItems_eq_spread]
  print_object _ ms := by
    cases ms <;> simp [write, spreadObject, spreadMember, writeMembers_eq_spread]

def prettyStyle : Style where
  print := layOut
  gap level := newLine (level + 1)
  last := newLine
  space := [' ']
  isSpace_gap level := isSpace_of_mem_newLine (level + 1)
  isSpace_last := isSpace_of_mem_newLine
  isSpace_space := by simp [isSpace]
  print_scalar level v hv := by cases v <;> first | rfl | exact hv.elim
  print_array level vs := by cases vs <;> simp [layOut, spreadArray, layOutItems_eq_spread]
  print_object level ms := by
    cases ms <;> simp [layOut, spreadObject, spreadMember, layOutMembers_eq_spread]

theorem skipSpace_print (s : Style) (v : Json) (level : Nat) :
    skipSpace (s.print level v) = s.print level v := by
  simpa using (s.solid_print v level).skipSpace_eq []

@[simp] theorem skipSpace_nil : skipSpace [] = [] := rfl

theorem read_skipSpace_write (depth : Nat) (v : Json) :
    read depth (skipSpace (write v)) = (reread? depth v).map fun v => (v, []) := by
  have hread := compactStyle.read_print depth v 0 numberEnds_nil
  rw [List.append_nil, ← skipSpace_print compactStyle v 0] at hread
  exact hread

theorem parse?_compact_eq (v : Json) : parse? v.compact = reread? maxDepth v := by
  rw [parse?, readAll, compact, String.toList_ofList, read_skipSpace_write]
  cases reread? maxDepth v <;> simp

theorem parse?_compact {v : Json} (h : Shallow maxDepth v) : parse? v.compact = some v := by
  rw [parse?_compact_eq, reread?_of_shallow h]

@[simp] theorem fromUTF8?_toUTF8 (s : String) : String.fromUTF8? s.toUTF8 = some s := by
  have hvalid : s.toUTF8.IsValidUTF8 := s.isValidUTF8
  rw [String.fromUTF8?, dif_pos hvalid]
  rfl

theorem ofBytes?_compact_eq (v : Json) : ofBytes? v.compact.toUTF8 = reread? maxDepth v := by
  rw [ofBytes?, fromUTF8?_toUTF8, Option.bind_some, parse?_compact_eq]

theorem ofBytes?_compact {v : Json} (h : Shallow maxDepth v) :
    ofBytes? v.compact.toUTF8 = some v := by
  rw [ofBytes?_compact_eq, reread?_of_shallow h]

theorem ofFront?_compact {v : Json} (h : Shallow maxDepth v) :
    ofFront? v.compact.toUTF8 = some (v, true) := by
  rw [ofFront?, fromUTF8?_toUTF8]
  simp [compact, read_skipSpace_write, reread?_of_shallow h]

end TollClearing.Json
