import TollClearing.Proofs.Json.Canonical
import TollClearing.Record.Layout

/-!
A layout reads what it writes. Faithfulness is proved of single columns and carried through the
combination of layouts, so that a record's layout is faithful when its columns are. Members may be
read in another order and their values in canonical form.
-/

set_option autoImplicit false

namespace TollClearing

/-- The two forms in which a written value is read again: as written, or in canonical form. -/
def Copy (g : Json → Json) : Prop := g = id ∨ g = Json.canonical

namespace Copy

variable {g : Json → Json} (hg : Copy g)

include hg

theorem eq_self {v : Json} (h : v.canonical = v) : g v = v := by
  rcases hg with rfl | rfl
  · rfl
  · exact h

theorem string (s : String) : g (.string s) = .string s := hg.eq_self (by simp [Json.canonical])

theorem null : g .null = .null := hg.eq_self (by simp [Json.canonical])

theorem number (n : Json.Number) : g (.number n) = .number n :=
  hg.eq_self (by simp [Json.canonical])

theorem array (vs : List Json) : g (.array vs) = .array (vs.map g) := by
  rcases hg with rfl | rfl
  · simp
  · exact Json.canonical_array vs

theorem object {ms : Json.Members} (h : (ms.map Prod.fst).Nodup) :
    ∃ ms', g (.object ms) = .object ms' ∧ ms'.Perm (ms.map fun m => (m.1, g m.2)) := by
  rcases hg with rfl | rfl
  · exact ⟨ms, rfl, by simp⟩
  · refine ⟨_, Json.canonical_object ms, Table.perm_rows_ofList ?_⟩
    simpa [Function.comp_def] using h

theorem shallow {depth : Nat} {v : Json} (h : v.Shallow depth) : (g v).Shallow depth := by
  rcases hg with rfl | rfl
  · exact h
  · exact h.canonical

end Copy

namespace Column

variable {α : Type}

/-- A column reads what it writes as `norm` of it, and a value that it leaves out too. What it
writes nests at most `depth` deep. -/
class Faithful (c : Column α) (norm : outParam (α → α)) (depth : Nat) : Prop where
  read_written : ∀ {g}, Copy g → ∀ {a v}, c.write a = some v → c.read (g v) = .ok (norm a)
  absent_eq : ∀ {a}, c.write a = none → c.absent = norm a
  shallow : ∀ {a v}, c.write a = some v → v.Shallow depth

end Column

namespace Layout

variable {ρ α β : Type} {depth : Nat}

def names (l : Layout ρ α) : List String := l.columns.map Prod.fst

/-- What is needed of a layout to read its own members as `f` of the record, stated so that it
carries over when layouts are combined. -/
structure Faithful (l : Layout ρ α) (f : ρ → α) (depth : Nat) : Prop where
  mem_names : ∀ {r m}, m ∈ l.write r → m.1 ∈ l.names
  nodup_written : ∀ r, ((l.write r).map Prod.fst).Nodup
  fits : ∀ {g}, Copy g → ∀ {r m check}, m ∈ l.write r → (m.1, check) ∈ l.columns →
    check (g m.2) = none
  build_eq : ∀ {g}, Copy g → ∀ {r ms},
    (∀ name ∈ l.names, ms.lookup name = ((l.write r).lookup name).map g) → l.build ms = f r
  shallow : ∀ {r m}, m ∈ l.write r → m.2.Shallow depth

theorem Faithful.column {c : Column α} {norm : α → α} (h : c.Faithful norm depth) (name : String)
    (get : ρ → α) : (Layout.column name c get).Faithful (fun r => norm (get r)) depth where
  mem_names {r m} hm := by
    simp only [Layout.column, Column.member] at hm
    split at hm
    · simp at hm
    · simp_all [Layout.column, names]
  nodup_written r := by
    simp only [Layout.column, Column.member]
    split <;> simp
  fits {g} hg {r m check} hm hcheck := by
    simp only [Layout.column, List.mem_singleton, Prod.mk.injEq] at hcheck
    simp only [Layout.column, Column.member] at hm
    split at hm
    · simp at hm
    · rename_i v hwrite
      rw [List.mem_singleton.1 hm, hcheck.2, Column.misfit?, h.read_written hg hwrite]
  build_eq {g} hg {r ms} hlookup := by
    have hname := hlookup name (by simp [Layout.column, names])
    simp only [Layout.column, Column.member, Column.value] at hname ⊢
    cases hwrite : c.write (get r) with
    | none =>
      simp only [hwrite, List.lookup_nil, Option.map_none] at hname
      simp only [hname, h.absent_eq hwrite]
    | some v =>
      simp only [hwrite, List.lookup_cons_self, Option.map_some] at hname
      simp only [hname, h.read_written hg hwrite]
  shallow {r m} hm := by
    simp only [Layout.column, Column.member] at hm
    split at hm
    · simp at hm
    · rename_i v hwrite
      rw [List.mem_singleton.1 hm]
      exact h.shallow hwrite

theorem Faithful.map {l : Layout ρ α} {f : ρ → α} (h : l.Faithful f depth) (u : α → β) :
    (u <$> l).Faithful (fun r => u (f r)) depth where
  mem_names := h.mem_names
  nodup_written := h.nodup_written
  fits := h.fits
  build_eq hg _ _ hlookup := congrArg u (h.build_eq hg hlookup)
  shallow := h.shallow

theorem lookup_append_left {xs ys : Json.Members} {name : String} (h : name ∉ ys.map Prod.fst) :
    (xs ++ ys).lookup name = xs.lookup name := by
  rw [List.lookup_append, Table.lookup_eq_none_of_not_mem h, Option.or_none]

theorem lookup_append_right {xs ys : Json.Members} {name : String} (h : name ∉ xs.map Prod.fst) :
    (xs ++ ys).lookup name = ys.lookup name := by
  rw [List.lookup_append, Table.lookup_eq_none_of_not_mem h, Option.none_or]

theorem Faithful.not_mem_written {l : Layout ρ α} {f : ρ → α} (h : l.Faithful f depth)
    {name : String} (hname : name ∉ l.names) (r : ρ) : name ∉ (l.write r).map Prod.fst := by
  intro hmem
  obtain ⟨m, hm, rfl⟩ := List.mem_map.1 hmem
  exact hname (h.mem_names hm)

/-- Layouts with different names are faithful together. -/
theorem Faithful.seq {l : Layout ρ (α → β)} {x : Layout ρ α} {f : ρ → α → β} {u : ρ → α}
    (hl : l.Faithful f depth) (hx : x.Faithful u depth) (hdisjoint : l.names.Disjoint x.names) :
    (l <*> x).Faithful (fun r => f r (u r)) depth where
  mem_names {r m} hm := by
    simp only [names, Seq.seq, List.map_append, List.mem_append]
    exact (List.mem_append.1 hm).imp hl.mem_names hx.mem_names
  nodup_written r := by
    change ((l.write r ++ x.write r).map Prod.fst).Nodup
    rw [List.map_append]
    refine List.nodup_append'.2 ⟨hl.nodup_written r, hx.nodup_written r, fun name h₁ h₂ => ?_⟩
    obtain ⟨m₁, hm₁, rfl⟩ := List.mem_map.1 h₁
    obtain ⟨m₂, hm₂, e⟩ := List.mem_map.1 h₂
    exact hdisjoint (hl.mem_names hm₁) (e ▸ hx.mem_names hm₂)
  fits {g} hg {r m check} hm hcheck := by
    rcases List.mem_append.1 hm with hm | hm <;> rcases List.mem_append.1 hcheck with hc | hc
    · exact hl.fits hg hm hc
    · exact absurd (List.mem_map.2 ⟨_, hc, rfl⟩) (hdisjoint (hl.mem_names hm))
    · exact absurd (hx.mem_names hm) (hdisjoint (List.mem_map.2 ⟨_, hc, rfl⟩))
    · exact hx.fits hg hm hc
  build_eq {g} hg {r ms} hlookup := by
    have happly : ∀ name, name ∈ l.names ∨ name ∈ x.names →
        ms.lookup name = ((l.write r ++ x.write r).lookup name).map g := by
      intro name hname
      refine hlookup name ?_
      simpa only [names, Seq.seq, List.map_append, List.mem_append] using hname
    have hbuild : l.build ms = f r := by
      refine hl.build_eq hg fun name hname => ?_
      rw [happly name (.inl hname),
        lookup_append_left (hx.not_mem_written (hdisjoint hname) r)]
    have hvalue : x.build ms = u r := by
      refine hx.build_eq hg fun name hname => ?_
      rw [happly name (.inr hname),
        lookup_append_right (hl.not_mem_written (fun h => hdisjoint h hname) r)]
    change l.build ms (x.build ms) = f r (u r)
    rw [hbuild, hvalue]
  shallow hm := (List.mem_append.1 hm).elim hl.shallow hx.shallow

/-- What is wrong with members of known names, in the order in which they stand. -/
def faults (columns : List (String × (Json → Option Misfit))) (ms : Json.Members) :
    List (String × Misfit) :=
  ms.filterMap fun m => ((columns.lookup m.1).bind (· m.2)).map (m.1, ·)

theorem firstMisfit_eq_head? {columns : List (String × (Json → Option Misfit))}
    {seen : List String} {ms : Json.Members} (hnodup : (ms.map Prod.fst).Nodup)
    (hseen : ∀ m ∈ ms, m.1 ∉ seen) :
    firstMisfit columns seen ms = (faults columns ms).head?.map Prod.snd := by
  induction ms generalizing seen with
  | nil => rfl
  | cons m ms ih =>
    obtain ⟨hm, hms⟩ := List.nodup_cons.1 hnodup
    have hrest : ∀ m' ∈ ms, m'.1 ∉ seen := fun m' h => hseen m' (List.mem_cons_of_mem _ h)
    simp only [firstMisfit, faults, List.filterMap_cons]
    cases hcheck : columns.lookup m.1 with
    | none => exact ih hms hrest
    | some check =>
      simp only [if_neg (hseen m List.mem_cons_self), Option.bind_some]
      cases check m.2 with
      | some e => rfl
      | none =>
        refine ih hms fun m' h => ?_
        rw [List.mem_cons, not_or]
        exact ⟨fun e => hm (List.mem_map.2 ⟨m', h, e⟩), hrest m' h⟩

theorem firstMisfit_eq_none {columns : List (String × (Json → Option Misfit))}
    {seen : List String} {ms : Json.Members} (hnodup : (ms.map Prod.fst).Nodup)
    (hseen : ∀ m ∈ ms, m.1 ∉ seen)
    (hfits : ∀ m ∈ ms, ∀ check, (m.1, check) ∈ columns → check m.2 = none) :
    firstMisfit columns seen ms = none := by
  have hfaults : faults columns ms = [] := by
    refine List.filterMap_eq_nil_iff.2 fun m hm => Option.map_eq_none_iff.2 ?_
    refine Option.bind_eq_none_iff.2 fun check hcheck => ?_
    exact hfits m hm check (Table.mem_of_lookup_eq_some hcheck)
  rw [firstMisfit_eq_head? hnodup hseen, hfaults]
  rfl

/-- The members that a faithful layout has written are read, in whatever order they stand. -/
theorem Faithful.ofMembers_eq {l : Layout ρ α} {f : ρ → α} (h : l.Faithful f depth)
    {g : Json → Json} (hg : Copy g) {r : ρ} {ms : Json.Members}
    (hperm : ms.Perm ((l.write r).map fun m => (m.1, g m.2))) : l.ofMembers ms = .ok (f r) := by
  have hnames : ((l.write r).map fun m => (m.1, g m.2)).map Prod.fst
      = (l.write r).map Prod.fst := by simp
  have hwritten : (((l.write r).map fun m => (m.1, g m.2)).map Prod.fst).Nodup :=
    hnames ▸ h.nodup_written r
  have hmisfit : firstMisfit l.columns [] ms = none := by
    refine firstMisfit_eq_none ((hperm.map Prod.fst).nodup_iff.2 hwritten) (by simp) ?_
    intro m hm check hcheck
    obtain ⟨m', hm', rfl⟩ := List.mem_map.1 (hperm.mem_iff.1 hm)
    exact h.fits hg hm' hcheck
  have hbuild : l.build ms = f r := by
    refine h.build_eq hg fun name _ => ?_
    rw [Table.lookup_eq_of_perm hperm hwritten, Table.lookup_map]
  rw [ofMembers, hmisfit]
  exact congrArg Except.ok hbuild

/-- A member may be left out if the layout takes for it what it would read. -/
theorem Faithful.ofMembers_without {l : Layout ρ α} {f : ρ → α} (h : l.Faithful f depth)
    {g : Json → Json} (hg : Copy g) {r : ρ} {ms : Json.Members} {m : String × Json}
    (hperm : (m :: ms).Perm ((l.write r).map fun m => (m.1, g m.2)))
    (habsent : l.build (m :: ms) = l.build ms) : l.ofMembers ms = .ok (f r) := by
  have hwritten : (((l.write r).map fun m => (m.1, g m.2)).map Prod.fst).Nodup := by
    simpa [Function.comp_def] using h.nodup_written r
  have hnames := (hperm.map Prod.fst).nodup_iff.2 hwritten
  have hmisfit : firstMisfit l.columns [] ms = none := by
    refine firstMisfit_eq_none (List.nodup_cons.1 hnames).2 (by simp) ?_
    intro m' hm' check hcheck
    obtain ⟨w, hw, rfl⟩ := List.mem_map.1 (hperm.mem_iff.1 (List.mem_cons_of_mem m hm'))
    exact h.fits hg hw hcheck
  have hbuild : l.build (m :: ms) = f r := by
    refine h.build_eq hg fun name _ => ?_
    rw [Table.lookup_eq_of_perm hperm hwritten, Table.lookup_map]
  rw [ofMembers, hmisfit]
  exact congrArg Except.ok (habsent.symm.trans hbuild)

end Layout

end TollClearing
