/-!
Tables: finite maps from names to values whose rows stand in ascending order of the names.
Text is ordered by its code points, which is also the order of its UTF-8 bytes. Two tables with
the same look-ups are equal (`Table.ext_find?`), so "nothing else changed" is an equation.
-/

set_option autoImplicit false

namespace TollClearing

/-- Rows in strictly ascending order of their names. -/
structure Table (α : Type) where
  rows : List (String × α)
  ascending : rows.Pairwise fun a b => a.1 < b.1

namespace Table

variable {α β : Type}

def empty : Table α := ⟨[], List.Pairwise.nil⟩

instance : EmptyCollection (Table α) := ⟨empty⟩

instance : Inhabited (Table α) := ⟨empty⟩

def insertRow (name : String) (a : α) : List (String × α) → List (String × α)
  | [] => [(name, a)]
  | row :: rows =>
    if name < row.1 then (name, a) :: row :: rows
    else if name = row.1 then (name, a) :: rows
    else row :: insertRow name a rows

theorem eq_or_mem_of_mem_insertRow {name : String} {a : α} {rows : List (String × α)}
    {row : String × α} (h : row ∈ insertRow name a rows) : row = (name, a) ∨ row ∈ rows := by
  induction rows with
  | nil => simpa [insertRow] using h
  | cons r rows ih =>
    simp only [insertRow] at h
    split at h
    · simpa using h
    · split at h
      · rcases List.mem_cons.1 h with h | h
        · exact .inl h
        · exact .inr (List.mem_cons_of_mem _ h)
      · rcases List.mem_cons.1 h with h | h
        · exact .inr (h ▸ List.mem_cons_self)
        · exact (ih h).imp id (List.mem_cons_of_mem _)

theorem ascending_insertRow {name : String} {a : α} {rows : List (String × α)}
    (h : rows.Pairwise fun a b => a.1 < b.1) :
    (insertRow name a rows).Pairwise fun a b => a.1 < b.1 := by
  induction rows with
  | nil => simp [insertRow]
  | cons r rows ih =>
    obtain ⟨hr, hrows⟩ := List.pairwise_cons.1 h
    simp only [insertRow]
    split
    · rename_i hlt
      refine List.pairwise_cons.2 ⟨fun x hx => ?_, h⟩
      rcases List.mem_cons.1 hx with rfl | hx
      · exact hlt
      · exact String.lt_trans hlt (hr x hx)
    · split
      · rename_i heq
        exact List.pairwise_cons.2 ⟨fun x hx => heq ▸ hr x hx, hrows⟩
      · rename_i hlt hne
        have hgt : r.1 < name := Decidable.byContradiction fun hge =>
          hne (String.le_antisymm (String.not_lt.1 hge) (String.not_lt.1 hlt))
        refine List.pairwise_cons.2 ⟨fun x hx => ?_, ih hrows⟩
        rcases eq_or_mem_of_mem_insertRow hx with rfl | hx
        · exact hgt
        · exact hr x hx

def insert (name : String) (a : α) (t : Table α) : Table α :=
  ⟨insertRow name a t.rows, ascending_insertRow t.ascending⟩

def find? (t : Table α) (name : String) : Option α := t.rows.lookup name

theorem lookup_row (name : String) (r : String × α) (rows : List (String × α)) :
    (r :: rows).lookup name = if name = r.1 then some r.2 else rows.lookup name := by
  rw [List.lookup_cons]
  by_cases h : name = r.1
  · simp [h]
  · simp [h, beq_eq_false_iff_ne.2 h]

theorem lookup_insertRow (name other : String) (a : α) (rows : List (String × α)) :
    (insertRow name a rows).lookup other = if other = name then some a else rows.lookup other := by
  induction rows with
  | nil => simp only [insertRow, lookup_row]
  | cons r rows ih =>
    simp only [insertRow]
    split
    · rw [lookup_row]
    · split
      · rename_i h
        subst h
        by_cases h : other = r.1 <;> simp [lookup_row, h]
      · rename_i hne
        rw [lookup_row, ih, lookup_row]
        by_cases h : other = r.1
        · simp [h, Ne.symm hne]
        · simp [h]

theorem find?_insert (t : Table α) (name other : String) (a : α) :
    (t.insert name a).find? other = if other = name then some a else t.find? other :=
  lookup_insertRow name other a t.rows

@[simp] theorem find?_empty (name : String) : (empty : Table α).find? name = none := rfl

theorem lookup_eq_some_iff {rows : List (String × α)}
    (ascending : rows.Pairwise fun a b => a.1 < b.1) {name : String} {a : α} :
    rows.lookup name = some a ↔ (name, a) ∈ rows := by
  induction rows with
  | nil => simp
  | cons r rows ih =>
    obtain ⟨hr, hrows⟩ := List.pairwise_cons.1 ascending
    rw [lookup_row, List.mem_cons]
    by_cases h : name = r.1
    · subst h
      have hnot : (r.1, a) ∉ rows := fun hmem => String.lt_irrefl r.1 (hr (r.1, a) hmem)
      simp [hnot, Prod.ext_iff, eq_comm]
    · have hne : (name, a) ≠ r := fun e => h (congrArg Prod.fst e)
      simp [h, hne, ih hrows]

theorem find?_eq_some_iff {t : Table α} {name : String} {a : α} :
    t.find? name = some a ↔ (name, a) ∈ t.rows :=
  lookup_eq_some_iff t.ascending

theorem eq_of_mem_iff {xs ys : List (String × α)} (hxs : xs.Pairwise fun a b => a.1 < b.1)
    (hys : ys.Pairwise fun a b => a.1 < b.1) (h : ∀ row, row ∈ xs ↔ row ∈ ys) : xs = ys := by
  induction xs generalizing ys with
  | nil =>
    cases ys with
    | nil => rfl
    | cons y ys => exact absurd ((h y).2 List.mem_cons_self) List.not_mem_nil
  | cons x xs ih =>
    cases ys with
    | nil => exact absurd ((h x).1 List.mem_cons_self) List.not_mem_nil
    | cons y ys =>
      obtain ⟨hx, hxs'⟩ := List.pairwise_cons.1 hxs
      obtain ⟨hy, hys'⟩ := List.pairwise_cons.1 hys
      have hxy : x = y := by
        rcases List.mem_cons.1 ((h x).1 List.mem_cons_self) with e | hx'
        · exact e
        · rcases List.mem_cons.1 ((h y).2 List.mem_cons_self) with e | hy'
          · exact e.symm
          · exact absurd (String.lt_trans (hx y hy') (hy x hx')) (String.lt_irrefl x.1)
      subst hxy
      refine congrArg (x :: ·) (ih hxs' hys' fun row => ?_)
      by_cases e : row = x
      · subst e
        exact ⟨fun hm => absurd (hx row hm) (String.lt_irrefl row.1),
          fun hm => absurd (hy row hm) (String.lt_irrefl row.1)⟩
      · simpa [e] using h row

theorem ext_find? {t u : Table α} (h : ∀ name, t.find? name = u.find? name) : t = u := by
  have : t.rows = u.rows := eq_of_mem_iff t.ascending u.ascending fun (name, a) => by
    rw [← find?_eq_some_iff, ← find?_eq_some_iff, h name]
  cases t
  cases u
  simpa using this

def size (t : Table α) : Nat := t.rows.length

/-- Of rows with one name the last counts. -/
def ofList (rows : List (String × α)) : Table α :=
  rows.foldl (fun t row => t.insert row.1 row.2) empty

theorem ascending_map (f : α → β) {rows : List (String × α)}
    (h : rows.Pairwise fun a b => a.1 < b.1) :
    (rows.map fun row => (row.1, f row.2)).Pairwise fun a b => a.1 < b.1 :=
  List.pairwise_map.2 h

def map (f : α → β) (t : Table α) : Table β :=
  ⟨t.rows.map fun row => (row.1, f row.2), ascending_map f t.ascending⟩

def mapM? (f : α → Option β) (t : Table α) : Option (Table β) :=
  (t.rows.mapM fun row => (f row.2).map fun b => (row.1, b)).map ofList

end Table

end TollClearing
