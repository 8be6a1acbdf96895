import TollClearing.Proofs.Record.Column
import TollClearing.Record.Basic

/-!
What a layout sees of the members of an object. It looks each of its columns up by name, so that a
record, or the first fault, is told by what the columns make of the values that they find. A
blank-tolerant column makes the same of a missing value, of `null` and of blank text. A layout is
sound by the way it is put together, so that nothing is proved of its columns one by one.
-/

set_option autoImplicit false

namespace TollClearing

def Json.Missing (x : Option Json) : Prop := ∀ v ∈ x, ¬ v.IsTold

namespace Column

variable {α : Type}

def look (c : Column α) : Option Json → Except Misfit α
  | none => .ok c.absent
  | some v => c.read v

/-- `null` and blank text stand for a missing value. -/
class Tolerant (c : Column α) : Prop where
  read_untold : ∀ v : Json, ¬ v.IsTold → c.read v = .ok c.absent

theorem readBlank_of_not_isTold {s : Scalar α} {v : Json} (h : ¬ v.IsTold) :
    readBlank s v = .ok none := by
  cases v <;> simp_all [readBlank, Json.IsTold]

instance tolerant_blank (s : Scalar α) : (blank s).Tolerant := ⟨fun _ => readBlank_of_not_isTold⟩

instance tolerant_optionalBlank (s : Scalar α) : (optionalBlank s).Tolerant :=
  ⟨fun _ => readBlank_of_not_isTold⟩

theorem look_of_missing {c : Column α} [h : c.Tolerant] {x : Option Json} (hx : Json.Missing x) :
    c.look x = .ok c.absent := by
  cases x with
  | none => rfl
  | some v => exact h.read_untold v (hx v rfl)

theorem value_eq_of_look {c : Column α} {name : String} {ms ns : Json.Members}
    (h : c.look (ms.lookup name) = c.look (ns.lookup name)) :
    c.value name ms = c.value name ns := by
  have hvalue : ∀ ms : Json.Members,
      c.value name ms = (c.look (ms.lookup name)).toOption.getD c.absent := by
    intro ms
    unfold value
    cases ms.lookup name with
    | none => rfl
    | some v => cases hread : c.read v <;> simp [look, hread, Except.toOption]
  rw [hvalue, hvalue, h]

theorem bind_misfit?_eq_some {c : Column α} {x : Option Json} {e : Misfit} :
    x.bind c.misfit? = some e ↔ c.look x = .error e := by
  cases x with
  | none => simp [look]
  | some v => cases hread : c.read v <;> simp [look, misfit?, hread]

theorem misfit?_eq_of_look {c : Column α} {x y : Option Json} (h : c.look x = c.look y) :
    x.bind c.misfit? = y.bind c.misfit? := by
  apply Option.ext
  intro e
  rw [bind_misfit?_eq_some, bind_misfit?_eq_some, h]

end Column

namespace Layout

variable {ρ α β : Type} {R : String → Option Json → Option Json → Prop}

/-- What a layout reads is determined by the values of its members up to `R`, stated so that it
carries over when layouts are combined. -/
structure Determined (l : Layout ρ α) (R : String → Option Json → Option Json → Prop) : Prop where
  check_eq : ∀ {name check}, (name, check) ∈ l.columns → ∀ {x y : Option Json}, R name x y →
    x.bind check = y.bind check
  build_eq : ∀ {ms ns : Json.Members},
    (∀ name ∈ l.names, R name (ms.lookup name) (ns.lookup name)) → l.build ms = l.build ns

theorem Determined.column {c : Column α} {name : String}
    (h : ∀ {x y}, R name x y → c.look x = c.look y) (get : ρ → α) :
    (Layout.column name c get).Determined R where
  check_eq := by
    intro other check hcheck x y hR
    obtain ⟨rfl, rfl⟩ := Prod.mk.inj (List.mem_singleton.1 hcheck)
    exact Column.misfit?_eq_of_look (h hR)
  build_eq hall := Column.value_eq_of_look (h (hall name (List.mem_singleton.2 rfl)))

theorem Determined.map {l : Layout ρ α} (h : l.Determined R) (u : α → β) :
    (u <$> l).Determined R where
  check_eq := h.check_eq
  build_eq hall := congrArg u (h.build_eq hall)

theorem Determined.seq {l : Layout ρ (α → β)} {x : Layout ρ α} (hl : l.Determined R)
    (hx : x.Determined R) : (l <*> x).Determined R where
  check_eq hcheck _ _ hR :=
    (List.mem_append.1 hcheck).elim (hl.check_eq · hR) (hx.check_eq · hR)
  build_eq {ms ns} hall := by
    simp only [names, Seq.seq, List.map_append, List.mem_append] at hall
    have hbuild := hl.build_eq fun name h => hall name (.inl h)
    have hvalue := hx.build_eq fun name h => hall name (.inr h)
    change l.build ms (x.build ms) = l.build ns (x.build ns)
    rw [hbuild, hvalue]

section Faults

variable {columns : List (String × (Json → Option Misfit))}

theorem ascending_faults (t : Table Json) :
    (faults columns t.rows).Pairwise fun a b => a.1 < b.1 := by
  refine t.ascending.filterMap _ fun a b hlt x hx y hy => ?_
  obtain ⟨e, -, rfl⟩ := Option.map_eq_some_iff.1 hx
  obtain ⟨e', -, rfl⟩ := Option.map_eq_some_iff.1 hy
  exact hlt

theorem mem_faults_iff {t : Table Json} {name : String} {e : Misfit} :
    (name, e) ∈ faults columns t.rows ↔
      ∃ check, columns.lookup name = some check ∧ (t.find? name).bind check = some e := by
  simp only [faults, List.mem_filterMap, Option.map_eq_some_iff, Option.bind_eq_some_iff,
    Table.find?_eq_some_iff]
  constructor
  · rintro ⟨m, hm, e', ⟨check, hcheck, he⟩, heq⟩
    obtain ⟨rfl, rfl⟩ := Prod.mk.inj heq
    exact ⟨check, hcheck, m.2, hm, he⟩
  · rintro ⟨check, hcheck, v, hv, he⟩
    exact ⟨(name, v), hv, e, ⟨check, hcheck, he⟩, rfl⟩

end Faults

/-- Members that are alike to a layout are read as one record, or with one fault. -/
theorem Determined.ofMembers_eq {l : Layout ρ α} (h : l.Determined R) {t u : Table Json}
    (hall : ∀ name ∈ l.names, R name (t.find? name) (u.find? name)) :
    l.ofMembers t.rows = l.ofMembers u.rows := by
  -- both lists of faults ascend, so that they are equal, and have one head, if they have the same
  -- elements
  have hfaults : faults l.columns t.rows = faults l.columns u.rows := by
    refine Table.eq_of_mem_iff (ascending_faults t) (ascending_faults u) fun (name, e) => ?_
    rw [mem_faults_iff, mem_faults_iff]
    refine exists_congr fun check => and_congr_right fun hcheck => ?_
    have hmem := Table.mem_of_lookup_eq_some hcheck
    rw [h.check_eq hmem (hall name (List.mem_map.2 ⟨_, hmem, rfl⟩))]
  have hmisfit : firstMisfit l.columns [] t.rows = firstMisfit l.columns [] u.rows := by
    rw [firstMisfit_eq_head? t.nodup_names (by simp), firstMisfit_eq_head? u.nodup_names (by simp),
      hfaults]
  rw [ofMembers, ofMembers, hmisfit, h.build_eq hall]

end Layout

/-- The values of the member `name` say the same to the reader of a record with some
blank-tolerant members, and to the reader of discount plans. -/
inductive SaysSame (tolerant : List String) (name : String) : Option Json → Option Json → Prop where
  | same (x : Option Json) : SaysSame tolerant name x x
  | missing {x y : Option Json} (hname : name ∈ tolerant) (hx : Json.Missing x)
      (hy : Json.Missing y) : SaysSame tolerant name x y
  | plans {v w : Json} (hname : name = "discountPlans")
      (hread : DiscountPlan.list.read v = DiscountPlan.list.read w) :
      SaysSame tolerant name (some v) (some w)

namespace Layout

variable {ρ α β : Type} {depth : Nat}

/-- A layout that reads its own members as `f` of the record as long as no name is repeated, and
that sees no more of other members than what they say. The members `exact` need their values as they
are; for the members `tolerant` there may be none. -/
class Sound (l : Layout ρ α) (f : outParam (ρ → α)) (depth : Nat)
    (exact tolerant : outParam (List String)) : Prop where
  faithful : l.names.Nodup → l.Faithful f depth
  determined : ∀ {blanks : List String}, (∀ name ∈ exact, name ∉ "discountPlans" :: blanks) →
    "discountPlans" ∉ tolerant ++ blanks → l.Determined (SaysSame blanks)

instance (priority := low) sound_column (name : String) (c : Column α) (norm : α → α) (get : ρ → α)
    [h : c.Faithful norm depth] :
    (column name c get).Sound (fun r => norm (get r)) depth [name] [] where
  faithful _ := .column h name get
  determined {blanks} hexact _ := by
    have hname : name ∉ "discountPlans" :: blanks :=
      hexact name (List.mem_singleton.2 rfl)
    rw [List.mem_cons, not_or] at hname
    refine .column (fun {x y} h => ?_) get
    cases h with
    | same => rfl
    | missing h => exact absurd h hname.2
    | plans h => exact absurd h hname.1

instance sound_tolerant (name : String) (c : Column α) (norm : α → α) (get : ρ → α)
    [h : c.Faithful norm depth] [c.Tolerant] :
    (column name c get).Sound (fun r => norm (get r)) depth [] [name] where
  faithful _ := .column h name get
  determined _ hplans := by
    refine .column (fun {x y} h => ?_) get
    cases h with
    | same => rfl
    | missing _ hx hy => rw [Column.look_of_missing hx, Column.look_of_missing hy]
    | plans h => exact absurd (h ▸ List.mem_append_left _ List.mem_cons_self) hplans

instance sound_map (l : Layout ρ α) (f : ρ → α) (u : α → β) (exact tolerant : List String)
    [h : l.Sound f depth exact tolerant] :
    (u <$> l).Sound (fun r => u (f r)) depth exact tolerant where
  faithful hnames := (h.faithful hnames).map u
  determined hexact hplans := (h.determined hexact hplans).map u

/-- Sound layouts are sound together. -/
instance sound_seq (l : Layout ρ (α → β)) (x : Layout ρ α) (f : ρ → α → β) (u : ρ → α)
    (exact tolerant exact' tolerant' : List String) [hl : l.Sound f depth exact tolerant]
    [hx : x.Sound u depth exact' tolerant'] :
    (l <*> x).Sound (fun r => f r (u r)) depth (exact ++ exact') (tolerant ++ tolerant') where
  faithful hnames := by
    have happend : (l.names ++ x.names).Nodup := by
      simpa only [names, Seq.seq, List.map_append] using hnames
    obtain ⟨hleft, hright, hdisjoint⟩ := List.nodup_append'.1 happend
    exact (hl.faithful hleft).seq (hx.faithful hright) hdisjoint
  determined hexact hplans := by
    simp only [List.mem_append, not_or] at hplans
    rw [List.forall_mem_append] at hexact
    exact (hl.determined hexact.1 (by simp [hplans])).seq
      (hx.determined hexact.2 (by simp [hplans]))

end Layout

end TollClearing
