import Mathlib.Data.List.Nodup
import TollClearing.Proofs.Except
import TollClearing.Table

/-!
Tables made of rows in any order. Where no name is repeated a table holds exactly the rows that it
is made of, and nothing depends on their order. Two tables with the same names can be compared value
by value (`Related`).
-/

set_option autoImplicit false

namespace TollClearing.Table

variable {α β : Type}

theorem lookup_eq_some_iff_of_nodup {rows : List (String × α)} (h : (rows.map Prod.fst).Nodup)
    {name : String} {a : α} : rows.lookup name = some a ↔ (name, a) ∈ rows := by
  induction rows with
  | nil => simp
  | cons r rows ih =>
    obtain ⟨hr, hrows⟩ := List.nodup_cons.1 h
    rw [lookup_row, List.mem_cons]
    by_cases hname : name = r.1
    · subst hname
      have hnot : (r.1, a) ∉ rows := fun hmem => hr (List.mem_map.2 ⟨_, hmem, rfl⟩)
      simp [hnot, Prod.ext_iff, eq_comm]
    · have hne : (name, a) ≠ r := fun e => hname (congrArg Prod.fst e)
      simp [hname, hne, ih hrows]

theorem lookup_eq_none_of_not_mem {rows : List (String × α)} {name : String}
    (h : name ∉ rows.map Prod.fst) : rows.lookup name = none := by
  induction rows with
  | nil => rfl
  | cons r rows ih =>
    rw [List.map_cons, List.mem_cons, not_or] at h
    rw [lookup_row, if_neg h.1, ih h.2]

theorem lookup_eq_of_perm {xs ys : List (String × α)} (hperm : xs.Perm ys)
    (h : (ys.map Prod.fst).Nodup) (name : String) : xs.lookup name = ys.lookup name := by
  have hxs : (xs.map Prod.fst).Nodup := (hperm.map Prod.fst).nodup_iff.2 h
  apply Option.ext
  intro a
  rw [lookup_eq_some_iff_of_nodup hxs, lookup_eq_some_iff_of_nodup h, hperm.mem_iff]

theorem mem_of_lookup_eq_some {rows : List (String × α)} {name : String} {a : α}
    (h : rows.lookup name = some a) : (name, a) ∈ rows := by
  induction rows with
  | nil => simp at h
  | cons r rows ih =>
    rw [lookup_row] at h
    by_cases hname : name = r.1
    · rw [if_pos hname, Option.some.injEq] at h
      exact List.mem_cons.2 (.inl (Prod.ext hname h.symm))
    · rw [if_neg hname] at h
      exact List.mem_cons_of_mem _ (ih h)

theorem nodup_names (t : Table α) : (t.rows.map Prod.fst).Nodup := by
  refine List.Pairwise.imp (fun hlt e => ?_) (List.pairwise_map.2 t.ascending)
  exact String.lt_irrefl _ (e ▸ hlt)

theorem find?_foldl_insert (rows : List (String × α)) (t : Table α) (name : String) :
    (rows.foldl (fun t row => t.insert row.1 row.2) t).find? name
      = (rows.reverse.lookup name).or (t.find? name) := by
  induction rows generalizing t with
  | nil => simp
  | cons r rows ih =>
    rw [List.foldl_cons, ih, find?_insert, List.reverse_cons, List.lookup_append, lookup_row,
      List.lookup_nil]
    by_cases h : name = r.1 <;> cases rows.reverse.lookup name <;> simp [h]

/-- Of rows with one name the last counts. -/
theorem find?_ofList (rows : List (String × α)) (name : String) :
    (ofList rows).find? name = rows.reverse.lookup name := by
  rw [ofList, find?_foldl_insert]
  simp

theorem mem_of_mem_rows_ofList {rows : List (String × α)} {row : String × α}
    (h : row ∈ (ofList rows).rows) : row ∈ rows := by
  have hlookup : rows.reverse.lookup row.1 = some row.2 := by
    rw [← find?_ofList]
    exact find?_eq_some_iff.2 h
  exact List.mem_reverse.1 (mem_of_lookup_eq_some hlookup)

theorem perm_rows_ofList {rows : List (String × α)} (h : (rows.map Prod.fst).Nodup) :
    (ofList rows).rows.Perm rows := by
  have hreverse : (rows.reverse.map Prod.fst).Nodup := by
    rw [List.map_reverse]
    exact List.nodup_reverse.2 h
  refine (List.perm_ext_iff_of_nodup (nodup_names _).of_map h.of_map).2 fun (name, a) => ?_
  rw [← find?_eq_some_iff, find?_ofList, lookup_eq_some_iff_of_nodup hreverse, List.mem_reverse]

theorem ofList_eq_of_perm {xs ys : List (String × α)} (hperm : xs.Perm ys)
    (h : (xs.map Prod.fst).Nodup) : ofList xs = ofList ys := by
  have hys : (ys.map Prod.fst).Nodup := (hperm.map Prod.fst).nodup_iff.1 h
  have hreverse : (ys.reverse.map Prod.fst).Nodup := by
    rw [List.map_reverse]
    exact List.nodup_reverse.2 hys
  apply ext_find?
  intro name
  rw [find?_ofList, find?_ofList]
  exact lookup_eq_of_perm ((List.reverse_perm xs).trans (hperm.trans (List.reverse_perm ys).symm))
    hreverse name

theorem lookup_reverse_rows (t : Table α) (name : String) :
    t.rows.reverse.lookup name = t.find? name :=
  lookup_eq_of_perm (List.reverse_perm t.rows) t.nodup_names name

theorem ofList_rows (t : Table α) : ofList t.rows = t := by
  apply ext_find?
  intro name
  rw [find?_ofList, lookup_reverse_rows]

theorem length_insertRow_le (name : String) (a : α) (rows : List (String × α)) :
    (insertRow name a rows).length ≤ rows.length + 1 := by
  induction rows with
  | nil => exact Nat.le_refl 1
  | cons r rows ih =>
    rw [insertRow]
    split
    · exact Nat.le_refl _
    · split
      · exact Nat.le_succ _
      · exact Nat.succ_le_succ ih

theorem length_rows_ofList_le (rows : List (String × α)) :
    (ofList rows).rows.length ≤ rows.length := by
  have hfold : ∀ t : Table α,
      (rows.foldl (fun t row => t.insert row.1 row.2) t).rows.length
        ≤ t.rows.length + rows.length := by
    induction rows with
    | nil => exact fun t => Nat.le_refl _
    | cons r rows ih =>
      intro t
      have hrow : (t.insert r.1 r.2).rows.length ≤ t.rows.length + 1 :=
        length_insertRow_le r.1 r.2 t.rows
      rw [List.foldl_cons, List.length_cons]
      exact Nat.le_trans (ih _) (by omega)
  simpa [ofList, empty] using hfold empty

theorem rows_eq {t : Table α} {rows : List (String × α)}
    (ascending : rows.Pairwise fun a b => a.1 < b.1)
    (h : ∀ name a, t.find? name = some a ↔ (name, a) ∈ rows) : t.rows = rows :=
  eq_of_mem_iff t.ascending ascending fun (name, a) => by rw [← find?_eq_some_iff, h]

theorem lookup_map (f : α → β) (rows : List (String × α)) (name : String) :
    (rows.map fun row => (row.1, f row.2)).lookup name = (rows.lookup name).map f := by
  induction rows with
  | nil => rfl
  | cons r rows ih =>
    rw [List.map_cons, lookup_row, lookup_row, ih]
    split <;> rfl

theorem find?_map (f : α → β) (t : Table α) (name : String) :
    (t.map f).find? name = (t.find? name).map f := lookup_map f t.rows name

def Related (R : α → β → Prop) (t : Table α) (u : Table β) : Prop :=
  List.Forall₂ (fun a b => a.1 = b.1 ∧ R a.2 b.2) t.rows u.rows

section Related

variable {γ : Type} {R : α → β → Prop} {t : Table α} {u : Table β}

theorem forall₂_insertRow {name : String} {a : α} {b : β} (hab : R a b)
    {xs : List (String × α)} {ys : List (String × β)}
    (h : List.Forall₂ (fun a b => a.1 = b.1 ∧ R a.2 b.2) xs ys) :
    List.Forall₂ (fun a b => a.1 = b.1 ∧ R a.2 b.2) (insertRow name a xs)
      (insertRow name b ys) := by
  induction h with
  | nil => exact .cons ⟨rfl, hab⟩ .nil
  | @cons x y xs ys hxy h ih =>
    simp only [insertRow, ← hxy.1]
    split
    · exact .cons ⟨rfl, hab⟩ (.cons hxy h)
    · split
      · exact .cons ⟨rfl, hab⟩ h
      · exact .cons hxy ih

theorem Related.insert (h : t.Related R u) (name : String) {a : α} {b : β} (hab : R a b) :
    (t.insert name a).Related R (u.insert name b) := forall₂_insertRow hab h

theorem forall₂_lookup {xs : List (String × α)} {ys : List (String × β)}
    (h : List.Forall₂ (fun a b => a.1 = b.1 ∧ R a.2 b.2) xs ys) (name : String) :
    Option.Rel R (xs.lookup name) (ys.lookup name) := by
  induction h with
  | nil => exact .none
  | @cons x y xs ys hxy _ ih =>
    rw [lookup_row, lookup_row, ← hxy.1]
    split
    · exact .some hxy.2
    · exact ih

theorem Related.find? (h : t.Related R u) (name : String) :
    Option.Rel R (t.find? name) (u.find? name) := forall₂_lookup h name

theorem Related.map_right {S : α → γ → Prop} {f : β → γ} (h : t.Related R u)
    (hf : ∀ a b, R a b → S a (f b)) : t.Related S (u.map f) :=
  List.forall₂_map_right_iff.2 (h.imp fun _ _ hab => ⟨hab.1, hf _ _ hab.2⟩)

def names (t : Table α) : List String := t.rows.map Prod.fst

theorem mem_names_iff {t : Table α} {name : String} :
    name ∈ t.names ↔ ∃ a, t.find? name = some a := by
  simp only [names, List.mem_map, find?_eq_some_iff, Prod.exists, exists_and_right,
    exists_eq_right]

theorem mem_names_insert {t : Table α} {name other : String} {a : α} :
    other ∈ (t.insert name a).names ↔ other = name ∨ other ∈ t.names := by
  rw [mem_names_iff, mem_names_iff, find?_insert]
  by_cases h : other = name <;> simp [h]

theorem forall₂_names {xs : List (String × α)} {ys : List (String × β)}
    (h : List.Forall₂ (fun a b => a.1 = b.1 ∧ R a.2 b.2) xs ys) :
    ys.map Prod.fst = xs.map Prod.fst := by
  induction h with
  | nil => rfl
  | cons hab _ ih => rw [List.map_cons, List.map_cons, ih, hab.1]

theorem Related.names_eq (h : t.Related R u) : u.names = t.names := forall₂_names h

theorem mapM?_eq_some_iff {f : α → Option β} :
    t.mapM? f = some u ↔ t.Related (fun a b => f a = some b) u := by
  have hrow : ∀ (a : String × α) (b : String × β),
      ((f a.2).map fun b => (a.1, b)) = some b ↔ a.1 = b.1 ∧ f a.2 = some b.2 := by
    intro a b
    rw [Option.map_eq_some_iff]
    exact ⟨fun ⟨_, hf, h⟩ => h ▸ ⟨rfl, hf⟩, fun ⟨hname, hf⟩ => ⟨b.2, hf, Prod.ext hname rfl⟩⟩
  rw [mapM?, Option.map_eq_some_iff]
  simp only [mapM_eq_some, hrow]
  constructor
  · rintro ⟨rows, hrows, rfl⟩
    have ascending : rows.Pairwise fun a b => a.1 < b.1 := by
      have hnames : (rows.map Prod.fst).Pairwise (· < ·) := by
        rw [forall₂_names (R := fun a b => f a = some b) hrows]
        exact List.pairwise_map.2 t.ascending
      exact List.pairwise_map.1 hnames
    rw [show ofList rows = ⟨rows, ascending⟩ from ofList_rows ⟨rows, ascending⟩]
    exact hrows
  · exact fun h => ⟨u.rows, h, ofList_rows u⟩

theorem Related.mapM?_eq {f : α → Option γ} {g : β → Option γ} (h : t.Related R u)
    (hfg : ∀ a b, R a b → f a = g b) : t.mapM? f = u.mapM? g := by
  rw [mapM?, mapM?, mapM_eq_of_forall₂ h fun a b hab => by rw [hab.1, hfg _ _ hab.2]]

theorem ofList_map (f : α → β) (rows : List (String × α)) :
    ofList (rows.map fun row => (row.1, f row.2)) = (ofList rows).map f := by
  apply ext_find?
  intro name
  rw [find?_ofList, ← List.map_reverse, lookup_map, find?_map, find?_ofList]

theorem map_mapM? (f : α → Option β) (g : β → γ) (t : Table α) :
    (t.mapM? f).map (map g) = t.mapM? fun a => (f a).map g := by
  have hrows : ∀ rows : List (String × α),
      (rows.mapM fun row => ((f row.2).map g).map fun c => (row.1, c))
        = (rows.mapM fun row => (f row.2).map fun b => (row.1, b)).map
            (List.map fun row => (row.1, g row.2)) := by
    intro rows
    induction rows with
    | nil => rfl
    | cons r rows ih =>
      rw [List.mapM_cons, List.mapM_cons, ih]
      cases f r.2 with
      | none => rfl
      | some b => cases rows.mapM fun row => (f row.2).map fun b => (row.1, b) <;> rfl
  rw [mapM?, mapM?, hrows, Option.map_map, Option.map_map]
  congr 1
  exact funext fun rows => (ofList_map g rows).symm

theorem isSome_mapM? {f : α → Option β} :
    (t.mapM? f).isSome ↔ ∀ row ∈ t.rows, (f row.2).isSome := by
  rw [mapM?, Option.isSome_map, isSome_mapM]
  simp

end Related

theorem mapM?_eq_some {f : α → Option β} {g : α → β} {t : Table α}
    (h : ∀ row ∈ t.rows, f row.2 = some (g row.2)) : t.mapM? f = some (t.map g) :=
  mapM?_eq_some_iff.2 (List.forall₂_map_right_iff.2 (List.forall₂_same.2 fun row hrow =>
    ⟨rfl, h row hrow⟩))

end TollClearing.Table
