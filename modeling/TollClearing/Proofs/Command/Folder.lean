import TollClearing.Command.Folder
import TollClearing.Table

/-!
Entries put into folders. What is put is found again, another entry put in its place leaves no trace
of the first one, and every other entry that was there still is.
-/

set_option autoImplicit false

namespace TollClearing.Command.Entry

theorem lookup_setRow (name other : String) (e : Entry) (rows : List (String × Entry)) :
    (setRow name e rows).lookup other = if other = name then some e else rows.lookup other := by
  induction rows with
  | nil => rw [setRow, Table.lookup_row, List.lookup_nil]
  | cons row rows ih =>
    rw [setRow]
    split
    · rename_i h
      rw [Table.lookup_row, Table.lookup_row, h]
      split <;> rfl
    · rename_i h
      rw [Table.lookup_row, ih, Table.lookup_row]
      by_cases hother : other = row.1
      · simp [hother, h]
      · simp [hother]

theorem setRow_setRow (name : String) (a b : Entry) (rows : List (String × Entry)) :
    setRow name b (setRow name a rows) = setRow name b rows := by
  induction rows with
  | nil => simp [setRow]
  | cons row rows ih =>
    by_cases h : row.1 = name
    · simp [setRow, h]
    · simp [setRow, h, ih]

theorem find?_snoc {location : List String} {root : Entry} {rows : List (String × Entry)}
    (h : root.find? location = some (.folder rows)) (name : String) :
    root.find? (location ++ [name]) = rows.lookup name := by
  induction location generalizing root with
  | nil =>
    obtain rfl := Option.some.inj h
    simp only [List.nil_append, find?]
    cases rows.lookup name <;> rfl
  | cons part location ih =>
    cases root with
    | file bytes => simp [find?] at h
    | folder inner =>
      simp only [List.cons_append, find?] at h ⊢
      cases hpart : inner.lookup part with
      | none => simp [hpart] at h
      | some e =>
        simp only [hpart] at h
        exact ih h

@[simp] theorem put_singleton (e : Entry) (name : String) (rows : List (String × Entry)) :
    put e [name] (.folder rows) = .folder (setRow name e rows) := rfl

theorem put_of_some {rows : List (String × Entry)} {name : String} {inner : Entry}
    (h : rows.lookup name = some inner) (e : Entry) {location : List String} (hne : location ≠ []) :
    put e (name :: location) (.folder rows)
      = .folder (setRow name (put e location inner) rows) := by
  cases location with
  | nil => exact absurd rfl hne
  | cons next rest => simp [put, h]

theorem put_of_none {rows : List (String × Entry)} {name : String} (h : rows.lookup name = none)
    (e : Entry) {location : List String} (hne : location ≠ []) :
    put e (name :: location) (.folder rows) = .folder rows := by
  cases location with
  | nil => exact absurd rfl hne
  | cons next rest => simp [put, h]

theorem find?_put_self {location : List String} {root : Entry} {rows : List (String × Entry)}
    (h : root.find? location = some (.folder rows)) (name : String) (e : Entry) :
    (put e (location ++ [name]) root).find? (location ++ [name]) = some e := by
  induction location generalizing root with
  | nil =>
    obtain rfl := Option.some.inj h
    simp [find?, lookup_setRow]
  | cons part location ih =>
    cases root with
    | file bytes => simp [find?] at h
    | folder inner =>
      simp only [find?] at h
      cases hpart : inner.lookup part with
      | none => simp [hpart] at h
      | some inside =>
        simp only [hpart] at h
        rw [List.cons_append, put_of_some hpart e (by simp)]
        simp [find?, lookup_setRow, ih h]

theorem put_put (a b : Entry) (location : List String) (root : Entry) :
    put b location (put a location root) = put b location root := by
  induction location generalizing root with
  | nil => simp [put]
  | cons part location ih =>
    cases root with
    | file bytes => simp [put]
    | folder rows =>
      by_cases hne : location = []
      · subst hne
        simp [setRow_setRow]
      · cases hpart : rows.lookup part with
        | none => simp only [put_of_none hpart _ hne]
        | some inside =>
          have hnew : (setRow part (put a location inside) rows).lookup part
              = some (put a location inside) := by simp [lookup_setRow]
          rw [put_of_some hpart a hne, put_of_some hnew b hne, put_of_some hpart b hne, ih,
            setRow_setRow]

theorem exists_put_cons (e : Entry) (part : String) (target : List String)
    (rows : List (String × Entry)) :
    ∃ rows', put e (part :: target) (.folder rows) = .folder rows' ∧
      (∀ other, other ≠ part → rows'.lookup other = rows.lookup other) ∧
      ∀ inner, rows.lookup part = some inner → rows'.lookup part = some (put e target inner) := by
  by_cases hne : target = []
  · subst hne
    exact ⟨setRow part e rows, rfl, fun other h => by simp [lookup_setRow, h],
      fun inner _ => by simp [lookup_setRow, put]⟩
  · cases hpart : rows.lookup part with
    | none => exact ⟨rows, put_of_none hpart e hne, fun _ _ => rfl, fun _ h => by simp at h⟩
    | some inner =>
      refine ⟨_, put_of_some hpart e hne, fun other h => by simp [lookup_setRow, h], ?_⟩
      intro inner' h
      obtain rfl := Option.some.inj h
      simp [lookup_setRow]

theorem exists_folder_put {e : Entry} {target : List String} {root : Entry}
    (htarget : ∀ rows, root.find? target ≠ some (.folder rows)) {location : List String}
    {rows : List (String × Entry)} (h : root.find? location = some (.folder rows)) :
    ∃ rows', (put e target root).find? location = some (.folder rows') ∧
      ∀ name, (rows.lookup name).isSome → (rows'.lookup name).isSome := by
  induction target generalizing root location with
  | nil =>
    cases root with
    | file bytes => cases location <;> simp [find?] at h
    | folder inner => exact absurd rfl (htarget inner)
  | cons part target ih =>
    cases root with
    | file bytes => exact ⟨rows, by simpa [put] using h, fun _ hname => hname⟩
    | folder inner =>
      obtain ⟨inner', hput, hother, hpart⟩ := exists_put_cons e part target inner
      rw [hput]
      cases location with
      | nil =>
        obtain rfl : inner = rows := by simpa [find?] using h
        refine ⟨inner', rfl, fun name hname => ?_⟩
        by_cases heq : name = part
        · obtain ⟨inside, hinside⟩ := Option.isSome_iff_exists.1 hname
          subst heq
          simp [hpart inside hinside]
        · rwa [hother name heq]
      | cons next rest =>
        simp only [find?] at h ⊢
        cases hnext : inner.lookup next with
        | none => simp [hnext] at h
        | some inside =>
          simp only [hnext] at h
          by_cases heq : next = part
          · subst heq
            have htarget' : ∀ rows, inside.find? target ≠ some (.folder rows) := by
              intro rows' hfolder
              exact htarget rows' (by simp [find?, hnext, hfolder])
            simpa [hpart inside hnext] using ih htarget' h
          · exact ⟨rows, by simp [hother next heq, hnext, h], fun _ hname => hname⟩

end TollClearing.Command.Entry
