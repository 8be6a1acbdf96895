import TollClearing.Json.Reader
import TollClearing.Proofs.Json.Number
import TollClearing.Proofs.Json.Quoted

/-!
Arrays and objects as text, with any blanks between their parts, and how the readers of items and
members take them in again.
-/

set_option autoImplicit false

namespace TollClearing.Json

open TollClearing.Text

theorem skipSpace_append {gap : List Char} (hgap : ∀ c ∈ gap, isSpace c = true) {c : Char}
    (hc : isSpace c = false) (s : List Char) : skipSpace (gap ++ c :: s) = c :: s := by
  rw [skipSpace, List.dropWhile_append_of_pos hgap]
  simp [hc]

theorem skipSpace_cons {c : Char} (hc : isSpace c = false) (s : List Char) :
    skipSpace (c :: s) = c :: s := by
  simp [skipSpace, hc]

def Solid (s : List Char) : Prop :=
  ∃ c t, s = c :: t ∧ isSpace c = false ∧ c ≠ ']' ∧ c ≠ '\x7d'

theorem Solid.skipSpace_append {s : List Char} (h : Solid s) {gap : List Char}
    (hgap : ∀ c ∈ gap, isSpace c = true) (t : List Char) :
    skipSpace (gap ++ (s ++ t)) = s ++ t := by
  obtain ⟨c, s', rfl, hc, -⟩ := h
  exact Json.skipSpace_append hgap hc (s' ++ t)

theorem Solid.skipSpace_eq {s : List Char} (h : Solid s) (t : List Char) :
    skipSpace (s ++ t) = s ++ t := by
  obtain ⟨c, s', rfl, hc, -⟩ := h
  exact skipSpace_cons hc (s' ++ t)

/-- Items after the first, with the closing mark: `gap` stands in front of every item, `last` in
front of the mark. -/
def spread {α : Type} (gap last : List Char) (close : Char) (print : α → List Char) :
    List α → List Char
  | [] => last ++ [close]
  | a :: as => ',' :: gap ++ print a ++ spread gap last close print as

variable {α β : Type} {gap last : List Char} {close : Char}

theorem length_lt_length_spread (gap last : List Char) (close : Char) (print : α → List Char)
    (as : List α) : as.length < (spread gap last close print as).length := by
  induction as with
  | nil => simp [spread]
  | cons a as ih => simp only [spread, List.length_append, List.length_cons]; omega

theorem numberEnds_gap {gap s : List Char} (hgap : ∀ c ∈ gap, isSpace c = true)
    (hs : NumberEnds s) : NumberEnds (gap ++ s) := by
  cases gap with
  | nil => exact hs
  | cons c gap =>
    have hc := hgap c List.mem_cons_self
    simp only [isSpace, Bool.or_eq_true, decide_eq_true_eq] at hc
    rcases hc with ((rfl | rfl) | rfl) | rfl <;> exact numberEnds_cons (by decide)

theorem numberEnds_spread (gap : List Char) (hlast : ∀ c ∈ last, isSpace c = true)
    (hclose : close = ']' ∨ close = '\x7d') (print : α → List Char) (as : List α)
    (rest : List Char) : NumberEnds (spread gap last close print as ++ rest) := by
  cases as with
  | nil =>
    rw [spread, List.append_assoc]
    refine numberEnds_gap hlast ?_
    rcases hclose with rfl | rfl <;> exact numberEnds_cons (by decide)
  | cons a as => exact numberEnds_cons (by decide)

theorem readItems_spread {item : List Char → Option (β × List Char)} {print : α → List Char}
    (hgap : ∀ c ∈ gap, isSpace c = true) (hlast : ∀ c ∈ last, isSpace c = true)
    (first : List Char) (hfirst : ∀ c ∈ first, isSpace c = true) (f : α → Option β) (a : α)
    (as : List α) (hsolid : ∀ b ∈ a :: as, Solid (print b))
    (hitem : ∀ b ∈ a :: as, ∀ rest, NumberEnds rest →
      item (print b ++ rest) = (f b).map fun b => (b, rest))
    (count : Nat) (hcount : as.length < count) (rest : List Char) :
    readItems item count (first ++ (print a ++ (spread gap last ']' print as ++ rest)))
      = ((a :: as).mapM f).map fun bs => (bs, rest) := by
  induction as generalizing a count first with
  | nil =>
    obtain ⟨count, rfl⟩ : ∃ k, count = k + 1 := ⟨count - 1, by omega⟩
    have hread := hitem a List.mem_cons_self _
      (numberEnds_spread gap hlast (.inl rfl) print [] rest)
    have hskip : skipSpace (spread gap last ']' print [] ++ rest) = ']' :: rest := by
      rw [spread, List.append_assoc]
      exact skipSpace_append hlast (by decide) rest
    rw [readItems, (hsolid a List.mem_cons_self).skipSpace_append hfirst, hread]
    cases h : f a <;> simp [hskip, h]
  | cons b as ih =>
    obtain ⟨count, rfl⟩ : ∃ k, count = k + 1 := ⟨count - 1, by omega⟩
    have hread := hitem a List.mem_cons_self _
      (numberEnds_spread gap hlast (.inl rfl) print (b :: as) rest)
    have htail := ih gap hgap b (fun c hc => hsolid c (List.mem_cons_of_mem _ hc))
      (fun c hc => hitem c (List.mem_cons_of_mem _ hc)) count
      (by simp only [List.length_cons] at hcount; omega)
    have hskip : skipSpace (spread gap last ']' print (b :: as) ++ rest)
        = ',' :: (gap ++ (print b ++ (spread gap last ']' print as ++ rest))) := by
      simp only [spread, List.cons_append, List.append_assoc]
      exact skipSpace_cons (by decide) _
    rw [readItems, (hsolid a List.mem_cons_self).skipSpace_append hfirst, hread, List.mapM_cons]
    cases f a with
    | none => rfl
    | some _ =>
      simp only [Option.map_some, Option.bind_eq_bind, Option.bind_some, hskip, htail]
      cases (b :: as).mapM f <;> rfl

def spreadArray (gap last : List Char) (print : α → List Char) : List α → List Char
  | [] => ['[', ']']
  | a :: as => '[' :: (gap ++ (print a ++ spread gap last ']' print as))

theorem readArray_spread {item : List Char → Option (β × List Char)} {print : α → List Char}
    (hgap : ∀ c ∈ gap, isSpace c = true) (hlast : ∀ c ∈ last, isSpace c = true)
    (f : α → Option β) (as : List α) (hsolid : ∀ a ∈ as, Solid (print a))
    (hitem : ∀ a ∈ as, ∀ rest, NumberEnds rest →
      item (print a ++ rest) = (f a).map fun b => (b, rest))
    (rest : List Char) :
    readArray item ((spreadArray gap last print as).tail ++ rest)
      = (as.mapM f).map fun bs => (bs, rest) := by
  cases as with
  | nil => simp [spreadArray, readArray, skipSpace_cons (c := ']') (by decide)]
  | cons a as =>
    have hlength := length_lt_length_spread gap last ']' print as
    have hread := readItems_spread hgap hlast [] (by simp) f a as hsolid hitem
      (print a ++ (spread gap last ']' print as ++ rest)).length
      (by simp only [List.length_append]; omega) rest
    have hskip := (hsolid a List.mem_cons_self).skipSpace_append hgap
      (spread gap last ']' print as ++ rest)
    obtain ⟨c, s, e, -, hc, -⟩ := hsolid a List.mem_cons_self
    simp only [spreadArray, List.tail_cons, List.append_assoc]
    rw [readArray, hskip]
    rw [e, List.cons_append] at hread ⊢
    split
    · rename_i e'
      exact absurd (List.cons.inj e').1 hc
    · exact hread

def spreadMember (space : List Char) (print : α → List Char) (m : String × α) : List Char :=
  quote m.1 ++ ':' :: (space ++ print m.2)

theorem solid_spreadMember (space : List Char) (print : α → List Char) (m : String × α) :
    Solid (spreadMember space print m) := ⟨'"', _, rfl, by decide⟩

theorem readMembers_spreadMember {item : String → List Char → Option (β × List Char)}
    {print : α → List Char} {space : List Char} (hspace : ∀ c ∈ space, isSpace c = true)
    {first : List Char} (hfirst : ∀ c ∈ first, isSpace c = true) {m : String × α} {b : Option β}
    (hsolid : Solid (print m.2)) {rest : List Char}
    (hitem : item m.1 (print m.2 ++ rest) = b.map fun b => (b, rest)) (count : Nat) :
    readMembers readString item (count + 1) (first ++ (spreadMember space print m ++ rest))
      = b.bind fun b =>
        match skipSpace rest with
        | ',' :: s => do
          let (bs, s) ← readMembers readString item count s
          some ((m.1, b) :: bs, s)
        | '\x7d' :: s => some ([(m.1, b)], s)
        | _ => none := by
  have hcut : spreadMember space print m ++ rest
      = quote m.1 ++ (':' :: (space ++ (print m.2 ++ rest))) := by simp [spreadMember]
  have hcolon := skipSpace_cons (c := ':') (by decide) (space ++ (print m.2 ++ rest))
  have hvalue := hsolid.skipSpace_append hspace rest
  rw [readMembers, (solid_spreadMember space print m).skipSpace_append hfirst, hcut,
    readString_quote]
  simp only [Option.bind_eq_bind, Option.bind_some, hcolon, hvalue, hitem]
  cases b <;> rfl

def named (f : String × α → Option β) (m : String × α) : Option (String × β) :=
  (f m).map fun b => (m.1, b)

theorem readMembers_spread {item : String → List Char → Option (β × List Char)}
    {print : α → List Char} {space : List Char} (hspace : ∀ c ∈ space, isSpace c = true)
    (hgap : ∀ c ∈ gap, isSpace c = true) (hlast : ∀ c ∈ last, isSpace c = true)
    (first : List Char) (hfirst : ∀ c ∈ first, isSpace c = true)
    (f : String × α → Option β) (m : String × α) (ms : List (String × α))
    (hsolid : ∀ m' ∈ m :: ms, Solid (print m'.2))
    (hitem : ∀ m' ∈ m :: ms, ∀ rest, NumberEnds rest →
      item m'.1 (print m'.2 ++ rest) = (f m').map fun b => (b, rest))
    (count : Nat) (hcount : ms.length < count) (rest : List Char) :
    readMembers readString item count (first ++ (spreadMember space print m
        ++ (spread gap last '\x7d' (spreadMember space print) ms ++ rest)))
      = ((m :: ms).mapM (named f)).map fun bs => (bs, rest) := by
  induction ms generalizing m count first with
  | nil =>
    obtain ⟨count, rfl⟩ : ∃ k, count = k + 1 := ⟨count - 1, by omega⟩
    have hends := numberEnds_spread gap hlast (.inr rfl) (spreadMember space print) [] rest
    have hskip : skipSpace (spread gap last '\x7d' (spreadMember space print) [] ++ rest)
        = '\x7d' :: rest := by
      rw [spread, List.append_assoc]
      exact skipSpace_append hlast (by decide) rest
    rw [readMembers_spreadMember hspace hfirst (hsolid m List.mem_cons_self)
      (hitem m List.mem_cons_self _ hends), hskip]
    cases h : f m <;> simp [named, h]
  | cons m' ms ih =>
    obtain ⟨count, rfl⟩ : ∃ k, count = k + 1 := ⟨count - 1, by omega⟩
    have hends := numberEnds_spread gap hlast (.inr rfl) (spreadMember space print)
      (m' :: ms) rest
    have htail := ih gap hgap m' (fun c hc => hsolid c (List.mem_cons_of_mem _ hc))
      (fun c hc => hitem c (List.mem_cons_of_mem _ hc)) count
      (by simp only [List.length_cons] at hcount; omega)
    have hskip : skipSpace (spread gap last '\x7d' (spreadMember space print) (m' :: ms) ++ rest)
        = ',' :: (gap ++ (spreadMember space print m'
          ++ (spread gap last '\x7d' (spreadMember space print) ms ++ rest))) := by
      simp only [spread, List.cons_append, List.append_assoc]
      exact skipSpace_cons (by decide) _
    rw [readMembers_spreadMember hspace hfirst (hsolid m List.mem_cons_self)
      (hitem m List.mem_cons_self _ hends), hskip, List.mapM_cons, named]
    cases f m with
    | none => rfl
    | some _ =>
      simp only [Option.bind_some, htail]
      cases (m' :: ms).mapM (named f) <;> rfl

def spreadObject (gap last space : List Char) (print : α → List Char) :
    List (String × α) → List Char
  | [] => ['\x7b', '\x7d']
  | m :: ms =>
    '\x7b' :: (gap ++ (spreadMember space print m
      ++ spread gap last '\x7d' (spreadMember space print) ms))

theorem readObject_spread (item : String → List Char → Option (β × List Char))
    {print : α → List Char} {space : List Char} (hspace : ∀ c ∈ space, isSpace c = true)
    (hgap : ∀ c ∈ gap, isSpace c = true) (hlast : ∀ c ∈ last, isSpace c = true)
    (f : String × α → Option β) (ms : List (String × α)) (hsolid : ∀ m ∈ ms, Solid (print m.2))
    (hitem : ∀ m ∈ ms, ∀ rest, NumberEnds rest →
      item m.1 (print m.2 ++ rest) = (f m).map fun b => (b, rest)) (rest : List Char) :
    readObject readString item ((spreadObject gap last space print ms).tail ++ rest)
      = (ms.mapM (named f)).map fun bs => (bs, rest) := by
  cases ms with
  | nil => simp [spreadObject, readObject, skipSpace_cons (c := '\x7d') (by decide)]
  | cons m ms =>
    have hlength := length_lt_length_spread gap last '\x7d'
      (spreadMember space print) ms
    have hread := readMembers_spread hspace hgap hlast [] (by simp) f m ms hsolid hitem
      (spreadMember space print m
        ++ (spread gap last '\x7d' (spreadMember space print) ms ++ rest)).length
      (by simp only [List.length_append]; omega) rest
    have hskip := (solid_spreadMember space print m).skipSpace_append hgap
      (spread gap last '\x7d' (spreadMember space print) ms ++ rest)
    obtain ⟨c, s, e, -, -, hc⟩ := solid_spreadMember space print m
    simp only [spreadObject, List.tail_cons, List.append_assoc]
    rw [readObject, hskip]
    rw [e, List.cons_append] at hread ⊢
    split
    · rename_i e'
      exact absurd (List.cons.inj e').1 hc
    · exact hread

end TollClearing.Json
