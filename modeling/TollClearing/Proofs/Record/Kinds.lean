import TollClearing.Proofs.Record.Reading

/-!
The layouts of all kinds of record are faithful. Reading a record back changes nothing in it but
the signs of amounts that are zero, and what is read is told by what the members say.
-/

set_option autoImplicit false

namespace TollClearing

theorem Layout.Faithful.ofJson_object {ρ α : Type} {l : Layout ρ α} {f : ρ → α} {depth : Nat}
    (h : l.Faithful f depth) {g : Json → Json} (hg : Copy g) (r : ρ) :
    l.ofJson (g (.object (l.write r))) = .ok (f r) := by
  obtain ⟨ms, hobject, hperm⟩ := hg.object (h.nodup_written r)
  rw [hobject]
  exact h.ofMembers_eq hg hperm

theorem Copy.object_ne_null {g : Json → Json} (hg : Copy g) (ms : Json.Members) :
    g (.object ms) ≠ .null := by
  rcases hg with rfl | rfl
  · simp
  · simp [Json.canonical_object]

namespace Scalar

instance told_agencyRole : (code : Scalar AgencyRole).Told :=
  told_code fun role => by cases role <;> decide

instance told_agencyStatus : (code : Scalar AgencyStatus).Told :=
  told_code fun status => by cases status <;> decide

instance told_tagStatus : (code : Scalar TagStatus).Told :=
  told_code fun status => by cases status <;> decide

instance told_chargeStatus : (code : Scalar ChargeStatus).Told :=
  told_code fun status => by cases status <;> decide

instance told_settlementStatus : (code : Scalar SettlementStatus).Told :=
  told_code fun status => by cases status <;> decide

end Scalar

open Layout Column

namespace Plate

theorem faithful_layout (depth : Nat) : layout.Faithful (fun p => p) depth := by
  unfold layout
  exact Sound.faithful (by decide)

instance faithful_scalar {depth : Nat} : scalar.Faithful id (depth + 1) where
  read_written hg p := (faithful_layout depth).ofJson_object hg p
  shallow _ := fun _ hm => (faithful_layout depth).shallow hm

instance faithful_column {depth : Nat} : (nullable scalar).Faithful id (depth + 1) :=
  faithful_nullable fun hg _ => hg.object_ne_null _

end Plate

namespace DiscountPlan

theorem faithful_layout (depth : Nat) : layout.Faithful (fun p => p) depth := by
  unfold layout
  exact Sound.faithful (by decide)

def blankNames : List String := ["startDate", "endDate"]

theorem determined_layout : layout.Determined (SaysSame blankNames) := by
  unfold layout
  exact Sound.determined 0 (by decide) (by decide)

theorem readAll_written {g : Json → Json} (hg : Copy g) (ps : List DiscountPlan) :
    readAll (ps.map fun p => g (.object (layout.write p))) = .ok ps := by
  induction ps with
  | nil => rfl
  | cons p ps ih =>
    rw [List.map_cons, readAll, (faithful_layout 0).ofJson_object hg p, ih]
    rfl

instance faithful_list {depth : Nat} : list.Faithful (fun ps => ps) (depth + 2) where
  read_written {g} hg ps v hwrite := by
    simp only [list] at hwrite ⊢
    split at hwrite
    · simp at hwrite
    · obtain rfl := Option.some.inj hwrite
      rw [hg.array, List.map_map]
      exact readAll_written hg ps
  absent_eq {ps} hwrite := by
    simp only [list] at hwrite ⊢
    split at hwrite
    · rename_i hempty
      exact (List.isEmpty_iff.1 hempty).symm
    · simp at hwrite
  shallow {ps v} hwrite := by
    simp only [list] at hwrite
    split at hwrite
    · simp at hwrite
    · obtain rfl := Option.some.inj hwrite
      intro w hw
      obtain ⟨p, -, rfl⟩ := List.mem_map.1 hw
      exact fun m hm => (faithful_layout depth).shallow hm

theorem look_list {blanks : List String} (hname : "discountPlans" ∉ blanks) {x y : Option Json}
    (h : SaysSame blanks "discountPlans" x y) : list.look x = list.look y := by
  cases h with
  | same => rfl
  | missing h => exact absurd h hname
  | plans _ hread => exact hread

instance sound_list {ρ : Type} {depth : Nat} (get : ρ → List DiscountPlan) :
    (column "discountPlans" list get).Sound get (depth + 2) [] [] where
  faithful _ := .column faithful_list "discountPlans" get
  determined _ hplans := .column (look_list hplans) get

end DiscountPlan

/-- The members for which `null` and blank text stand where there is no value. -/
def DocType.blankNames : DocType → List String
  | .agency => ["role", "status"]
  | .tag => ["tagStatus"]
  | .charge => ["entryDateTime", "exitDateTime", "amount", "status"]
  | .correction => ["amount"]
  | .reconciliation => ["postedAmount", "postedDateTime"]
  | .acknowledgement => ["submissionDateTime"]
  | .settlement => ["periodStart", "periodEnd", "status"]

/-- All members that are read, but for the one that tells the kind. -/
def DocType.names : DocType → List String
  | .agency => Agency.layout.names
  | .tag => Tag.layout.names
  | .charge => Charge.layout.names
  | .correction => Correction.layout.names
  | .reconciliation => Reconciliation.layout.names
  | .acknowledgement => Acknowledgement.layout.names
  | .settlement => Settlement.layout.names

namespace Agency

theorem faithful_layout : layout.Faithful (fun a => a) 2 := by
  unfold layout
  exact Sound.faithful (by decide)

theorem determined_layout : layout.Determined (SaysSame (DocType.blankNames .agency)) := by
  unfold layout
  exact Sound.determined 2 (by decide) (by decide)

end Agency

namespace Tag

theorem faithful_layout : layout.Faithful (fun t => t) 2 := by
  unfold layout
  exact Sound.faithful (by decide)

theorem determined_layout : layout.Determined (SaysSame (DocType.blankNames .tag)) := by
  unfold layout
  exact Sound.determined 2 (by decide) (by decide)

end Tag

namespace Charge

def asRead (c : Charge) : Charge :=
  { c with amount := c.amount.map Decimal.asRead, fee := c.fee.asRead }

theorem faithful_layout : layout.Faithful asRead 2 := by
  unfold layout
  exact Sound.faithful (by decide)

theorem determined_layout : layout.Determined (SaysSame (DocType.blankNames .charge)) := by
  unfold layout
  exact Sound.determined 2 (by decide) (by decide)

end Charge

namespace Correction

def asRead (c : Correction) : Correction :=
  { c with amount := c.amount.map Decimal.asRead, fee := c.fee.asRead }

theorem faithful_layout : layout.Faithful asRead 2 := by
  unfold layout
  exact Sound.faithful (by decide)

theorem determined_layout : layout.Determined (SaysSame (DocType.blankNames .correction)) := by
  unfold layout
  exact Sound.determined 2 (by decide) (by decide)

end Correction

namespace Reconciliation

def asRead (r : Reconciliation) : Reconciliation :=
  { r with postedAmount := r.postedAmount.map Decimal.asRead }

theorem faithful_layout : layout.Faithful asRead 2 := by
  unfold layout
  exact Sound.faithful (by decide)

theorem determined_layout : layout.Determined (SaysSame (DocType.blankNames .reconciliation)) := by
  unfold layout
  exact Sound.determined 2 (by decide) (by decide)

end Reconciliation

namespace Acknowledgement

theorem faithful_layout : layout.Faithful (fun a => a) 2 := by
  unfold layout
  exact Sound.faithful (by decide)

theorem determined_layout : layout.Determined (SaysSame (DocType.blankNames .acknowledgement)) := by
  unfold layout
  exact Sound.determined 2 (by decide) (by decide)

end Acknowledgement

namespace Settlement

def asRead (s : Settlement) : Settlement :=
  { s with
    gross := s.gross.asRead, fee := s.fee.asRead, correction := s.correction.asRead
    net := s.net.asRead }

theorem faithful_layout : layout.Faithful asRead 2 := by
  unfold layout
  exact Sound.faithful (by decide)

theorem determined_layout : layout.Determined (SaysSame (DocType.blankNames .settlement)) := by
  unfold layout
  exact Sound.determined 2 (by decide) (by decide)

end Settlement

end TollClearing
