import TollClearing.Proofs.House.Condition

/-!
References. A record refers to others only when it is created, and nothing that it refers to is
ever removed or renamed. So the charge that a correction or a reconciliation is about is held, with
its two agencies in the same order, and where agencies have to be known all that are named are.
-/

set_option autoImplicit false

namespace TollClearing

/-- A charge by its name, the agency where it arose and the agency that is to pay it. -/
@[ext] structure ChargeName where
  id : String
  away : String
  home : String
  deriving DecidableEq

def Charge.fullName (c : Charge) : ChargeName := ⟨c.id, c.away, c.home⟩

def ChargeName.slot (n : ChargeName) : Slot :=
  ⟨.partition (Key.chargePartition n.away n.home), Key.charge n.id⟩

namespace Record

/-- The charge that a record is about. -/
def about? : Record → Option ChargeName
  | .correction k => some ⟨k.charge, k.away, k.home⟩
  | .reconciliation r => some ⟨r.charge, r.away, r.home⟩
  | .agency _ | .tag _ | .charge _ | .acknowledgement _ | .settlement _ => none

def agencies : Record → List String
  | .tag t => [t.agency, t.home]
  | .charge c => [c.away, c.home]
  | .correction k => [k.away, k.home]
  | .reconciliation r => [r.away, r.home]
  | .settlement s => [s.payor, s.payee]
  | .agency _ | .acknowledgement _ => []

end Record

namespace House

def HoldsAgency (l : Ledger) (id : String) : Prop :=
  ∃ a : Agency, recordAt? l ⟨.shared, Key.agency id⟩ = some (.agency a) ∧ a.id = id

def HoldsCharge (l : Ledger) (n : ChargeName) : Prop :=
  ∃ c : Charge, recordAt? l n.slot = some (.charge c) ∧ c.fullName = n

def IsHeld (l : Ledger) (i : Identity) : Prop :=
  ∃ r, recordAt? l i.slot = some r ∧ r.identity = i

namespace Condition

def knownAgency (p : Policy) (l : Ledger) (id : String) : Condition :=
  ⟨p.verify = true → HoldsAgency l id, .missing (Key.agency id)⟩

/-- A charge is held under the name, whichever of the two agencies is to pay it. -/
def knownCharge (l : Ledger) (n : ChargeName) : Condition :=
  ⟨∃ c : Charge, recordAt? l n.slot = some (.charge c), .missing (Key.charge n.id)⟩

def sameOrder (l : Ledger) (n : ChargeName) : Condition :=
  ⟨HoldsCharge l n, rejection "awayAgencyID" (.otherParties n.id n.home n.away)⟩

end Condition

theorem holdsAgency_iff {l : Ledger} {id : String} : HoldsAgency l id ↔ IsHeld l (.agency id) := by
  constructor
  · rintro ⟨a, ha, rfl⟩
    exact ⟨_, ha, rfl⟩
  · rintro ⟨r, hr, hidentity⟩
    cases r with
    | agency a => exact ⟨a, hr, Identity.agency.inj hidentity⟩
    | _ => cases hidentity

/-- All that a record refers to is held. Its agencies are if they had to be `known`. -/
def Grounded (known : Prop) (l : Ledger) (r : Record) : Prop :=
  (∀ n ∈ r.about?, HoldsCharge l n) ∧ (known → ∀ id ∈ r.agencies, HoldsAgency l id)

section Grounded

variable {known : Prop} {l : Ledger} {r : Record}

@[simp] theorem grounded_asRead : Grounded known l r.asRead ↔ Grounded known l r := by
  cases r <;> exact Iff.rfl

@[simp] theorem grounded_moved {m : Move} : Grounded known l (r.moved m) ↔ Grounded known l r := by
  cases m <;> cases r <;> exact Iff.rfl

@[simp] theorem grounded_withTimes {created updated : Option Instant} :
    Grounded known l (r.withTimes created updated) ↔ Grounded known l r := by
  cases r <;> exact Iff.rfl

end Grounded

section Steps

open Condition

variable {p : Policy} {l : Ledger} (hl : WellKept l)

include hl

/-- A record that is not replaced keeps all but its state and the time of its last write. -/
theorem WellKept.exists_lasting_step {slot : Slot} {r : Record} (h : recordAt? l slot = some r)
    (hkind : r.docType ≠ .reconciliation) (c : Call) :
    ∃ r', recordAt? (c.step p l) slot = some r' ∧ r'.lasting = r.lasting := by
  obtain ⟨r', hr', hhistory⟩ := hl.history_step (p := p) h c
  exact ⟨r', hr', hhistory.lasting_eq hkind⟩

theorem WellKept.holdsAgency_step {id : String} (h : HoldsAgency l id) (c : Call) :
    HoldsAgency (c.step p l) id := by
  obtain ⟨a, ha, hid⟩ := h
  obtain ⟨r, hr, hlasting⟩ := hl.exists_lasting_step (p := p) ha nofun c
  cases r with
  | agency a' =>
    have hsame := congrArg Agency.id (Record.agency.inj hlasting)
    exact ⟨a', hr, hsame.trans hid⟩
  | _ => cases hlasting

theorem WellKept.holdsCharge_step {n : ChargeName} (h : HoldsCharge l n) (c : Call) :
    HoldsCharge (c.step p l) n := by
  obtain ⟨a, ha, hname⟩ := h
  obtain ⟨r, hr, hlasting⟩ := hl.exists_lasting_step (p := p) ha nofun c
  cases r with
  | charge a' =>
    have hsame := congrArg Charge.fullName (Record.charge.inj hlasting)
    exact ⟨a', hr, hsame.trans hname⟩
  | _ => cases hlasting

theorem WellKept.grounded_step {known : Prop} {r : Record} (h : Grounded known l r) (c : Call) :
    Grounded known (c.step p l) r :=
  ⟨fun n hn => hl.holdsCharge_step (h.1 n hn) c,
    fun hknown id hid => hl.holdsAgency_step (h.2 hknown id hid) c⟩

theorem WellKept.isHeld_iff {i : Identity} : IsHeld l i ↔ (l.find? i.slot).isSome := by
  constructor
  · rintro ⟨r, hr, -⟩
    obtain ⟨s, hfind, -⟩ := hl.exists_of_recordAt? hr
    rw [hfind]
    rfl
  · intro h
    obtain ⟨bytes, hfind⟩ := Option.isSome_iff_exists.1 h
    obtain ⟨r, hr⟩ := hl.exists_recordAt? hfind
    exact ⟨r, hr, hl.identity_of_recordAt? hr⟩

theorem WellKept.exists_charge_iff {n : ChargeName} :
    (∃ c : Charge, recordAt? l n.slot = some (.charge c)) ↔
      IsHeld l (.charge s(n.away, n.home) n.id) := by
  constructor
  · rintro ⟨c, hc⟩
    exact ⟨_, hc, hl.identity_of_recordAt? (i := .charge s(n.away, n.home) n.id) hc⟩
  · rintro ⟨r, hr, hidentity⟩
    cases r with
    | charge c => exact ⟨c, hr⟩
    | _ => cases hidentity

theorem WellKept.decided_requireAgency (id : String) :
    Decided [knownAgency p l id] (fun _ => True) (requireAgency p l id) := by
  rw [requireAgency, knownAgency, holdsAgency_iff, hl.isHeld_iff]
  cases p.verify with
  | false => exact .met (by simp) trivial
  | true =>
    simp only [forall_const, if_true]
    exact (decided_valueIn l (.agency id)).then_ok trivial

/-- The check looks a charge up by its name alone, so that what it finds may name the two agencies
the other way round. -/
theorem WellKept.decided_requireCharge (n : ChargeName) :
    Decided [knownCharge l n, sameOrder l n] (fun _ => True)
      (requireCharge l n.id n.away n.home) := by
  have hfetch : Decided [knownCharge l n]
      (fun c : Charge => recordAt? l n.slot = some (.charge c)) (fetch Charge l n.slot) := by
    rw [knownCharge, hl.exists_charge_iff, hl.isHeld_iff, fetch]
    refine (decided_valueIn l (.charge s(n.away, n.home) n.id)).bind fun bytes _ hfind => ?_
    obtain ⟨r, rfl, hidentity, -⟩ := hl.exists_of_find? hfind
    cases r with
    | charge c =>
      rw [readAs_encode rfl]
      exact .free (recordAt?_of_find? hfind)
    | _ => cases hidentity
  refine hfetch.bind fun c _ hc => ?_
  obtain ⟨hparties, hid⟩ := Identity.charge.inj
    (hl.identity_of_recordAt? (i := .charge s(n.away, n.home) n.id) hc)
  split
  · rename_i hsame
    exact .met ⟨c, hc, ChargeName.ext hid hsame.1 hsame.2⟩ trivial
  · rename_i hdiffer
    obtain hsame | ⟨haway, hhome⟩ := Sym2.eq_iff.1 hparties
    · exact absurd hsame hdiffer
    · rw [hid, haway, hhome]
      refine .unmet ?_ []
      rintro ⟨c', hc', hname⟩
      obtain rfl := Record.charge.inj (Option.some.inj (hc.symm.trans hc'))
      exact hdiffer ⟨congrArg ChargeName.away hname, congrArg ChargeName.home hname⟩

theorem WellKept.requireAgency_eq_ok_iff (hverify : p.verify = true) {id : String} :
    requireAgency p l id = .ok () ↔ HoldsAgency l id := by
  rw [(hl.decided_requireAgency id).ok_iff, List.forall_mem_singleton]
  exact imp_iff_right hverify

theorem WellKept.requireAgency_of_holds {id : String} (h : HoldsAgency l id) :
    requireAgency p l id = .ok () :=
  (hl.decided_requireAgency id).ok_iff.2 (List.forall_mem_singleton.2 fun _ => h)

theorem WellKept.requireCharge_eq_ok_iff {n : ChargeName} :
    requireCharge l n.id n.away n.home = .ok () ↔ HoldsCharge l n := by
  rw [(hl.decided_requireCharge n).ok_iff, List.forall_mem_cons, List.forall_mem_singleton]
  exact and_iff_right_of_imp fun h => h.imp fun _ hc => hc.1

end Steps

/-- All that is held refers to what is held. -/
def Closed (known : Prop) (l : Ledger) : Prop :=
  ∀ slot r, recordAt? l slot = some r → Grounded known l r

section Closed

variable {known : Prop} {p : Policy} {l : Ledger} (hl : WellKept l)

include hl

theorem WellKept.holdsAgency_of_pair (hverify : p.verify = true) {a b : String}
    (ha : requireAgency p l a = .ok ()) (hb : requireAgency p l b = .ok ()) :
    ∀ id ∈ [a, b], HoldsAgency l id := by
  simp only [List.forall_mem_cons, List.not_mem_nil, false_implies, implies_true, and_true]
  exact ⟨(hl.requireAgency_eq_ok_iff hverify).1 ha, (hl.requireAgency_eq_ok_iff hverify).1 hb⟩

/-- The agencies of a charge that is held are there since the charge is. -/
theorem WellKept.grounded_of_requireCharge (hclosed : Closed known l) {n : ChargeName}
    (h : requireCharge l n.id n.away n.home = .ok ()) : HoldsCharge l n ∧
      (known → ∀ id ∈ [n.away, n.home], HoldsAgency l id) := by
  have hheld := hl.requireCharge_eq_ok_iff.1 h
  obtain ⟨c, hc, rfl⟩ := hheld
  exact ⟨⟨c, hc, rfl⟩, (hclosed _ _ hc).2⟩

/-- What a new record refers to is there. A correction and a reconciliation name the agencies of
the charge that they are about. -/
theorem WellKept.grounded_of_checkReferences (hverify : known → p.verify = true)
    (hclosed : Closed known l) {r : Record} (h : checkReferences p l r = .ok ()) :
    Grounded known l r := by
  cases r with
  | agency a => exact ⟨by rintro n ⟨⟩, by simp [Record.agencies]⟩
  | acknowledgement a => exact ⟨by rintro n ⟨⟩, by simp [Record.agencies]⟩
  | tag t =>
    simp only [checkReferences, bind_eq_ok] at h
    obtain ⟨_, hissuer, hhome⟩ := h
    refine ⟨by rintro n ⟨⟩, fun hknown => hl.holdsAgency_of_pair (hverify hknown) hissuer ?_⟩
    split at hhome
    · rename_i hsame
      rwa [hsame]
    · exact hhome
  | charge c =>
    simp only [checkReferences, bind_eq_ok] at h
    obtain ⟨_, haway, hhome⟩ := h
    exact ⟨by rintro n ⟨⟩, fun hknown => hl.holdsAgency_of_pair (hverify hknown) haway hhome⟩
  | settlement s =>
    simp only [checkReferences, bind_eq_ok] at h
    obtain ⟨_, hpayor, hpayee⟩ := h
    exact ⟨by rintro n ⟨⟩, fun hknown => hl.holdsAgency_of_pair (hverify hknown) hpayor hpayee⟩
  | correction k =>
    simp only [checkReferences, bind_eq_ok] at h
    obtain ⟨_, hcharge, -⟩ := h
    obtain ⟨hheld, hagencies⟩ := hl.grounded_of_requireCharge (n := ⟨k.charge, k.away, k.home⟩)
      hclosed hcharge
    exact ⟨fun n hn => Option.some.inj hn ▸ hheld, hagencies⟩
  | reconciliation r =>
    obtain ⟨hheld, hagencies⟩ := hl.grounded_of_requireCharge (n := ⟨r.charge, r.away, r.home⟩)
      hclosed h
    exact ⟨fun n hn => Option.some.inj hn ▸ hheld, hagencies⟩

theorem WellKept.closed_step (hverify : known → p.verify = true) (hclosed : Closed known l)
    (c : Call) : Closed known (c.step p l) := by
  intro slot r h
  refine hl.grounded_step ?_ c
  obtain hsame | ⟨s, _, m, hfind, -, -, hmoved⟩ | ⟨new, created, -, hcreate, -, hnew⟩ :=
    hl.find?_step (p := p) c slot
  · exact hclosed slot r (by rwa [recordAt?, hsame] at h)
  · obtain rfl := Option.some.inj (h.symm.trans (recordAt?_of_find? hmoved))
    have hs : Grounded known l s.asRead := hclosed slot _ (recordAt?_of_find? hfind)
    simpa [Record.stampUpdated] using hs
  · obtain rfl := Option.some.inj (h.symm.trans (recordAt?_of_find? hnew))
    obtain ⟨-, -, hreferences, -⟩ := create_eq_ok hcreate
    simpa using hl.grounded_of_checkReferences hverify hclosed hreferences

end Closed

/-- Agencies had to be known if every policy that was allowed asks for it. -/
theorem Reachable.closed {allowed : Policy → Prop} {l : Ledger} (h : Reachable allowed l) :
    Closed (∀ p, allowed p → p.verify = true) l := by
  induction h with
  | empty =>
    intro slot r h
    rw [recordAt?_empty] at h
    cases h
  | step hbefore hp c ih => exact hbefore.wellKept.closed_step (fun hknown => hknown _ hp) ih c

/-- In every ledger that calls lead to, the charge that a correction or a reconciliation is about is
held in the same scope, under its name and between the same agencies in the same order. If agencies
had to be known all the time, all that a tag, a charge, a correction, a reconciliation or a
settlement names are held. -/
theorem references_held {allowed : Policy → Prop} {l : Ledger} (hl : Reachable allowed l) :
    (∀ scope key r, recordAt? l ⟨scope, key⟩ = some r → ∀ n ∈ r.about?,
        ∃ c : Charge, recordAt? l ⟨scope, Key.charge n.id⟩ = some (.charge c) ∧ c.fullName = n) ∧
      ((∀ p, allowed p → p.verify = true) → ∀ slot r, recordAt? l slot = some r →
        ∀ id ∈ r.agencies,
          ∃ a : Agency, recordAt? l ⟨.shared, Key.agency id⟩ = some (.agency a) ∧ a.id = id) := by
  have hclosed := hl.closed
  refine ⟨fun scope key r h n hn => ?_, fun hknown slot r h => (hclosed slot r h).2 hknown⟩
  have hplace : r.scope = scope := congrArg Slot.scope (hl.wellKept.slot_of_recordAt? h)
  have hscope : n.slot.scope = scope := by
    rw [← hplace]
    cases r <;> cases hn <;> rfl
  subst hscope
  exact (hclosed _ r h).1 n hn

def agencyOf (id : String) : Agency where
  id := id
  name := id
  consortium := "E"
  state := ""
  role := some .both
  status := some .active
  createdAt := none
  updatedAt := none

def tollAnswer (resubmissions : UInt32) : Reconciliation where
  charge := "C1"
  away := "B"
  home := "A"
  disposition := "N"
  postedAmount := none
  postedTime := none
  adjustments := 0
  resubmissions := resubmissions
  createdAt := none
  updatedAt := none

def createName : DocType → String
  | .agency => "CreateAgency"
  | .tag => "CreateTag"
  | .charge => "CreateCharge"
  | .correction => "CreateCorrection"
  | .reconciliation => "CreateReconciliation"
  | .acknowledgement => "CreateAcknowledgement"
  | .settlement => "CreateSettlement"

theorem Function.ofName?_createName (docType : DocType) :
    Function.ofName? (createName docType)
      = some (Function.createRecord (createName docType) docType) := by
  cases docType <;> rfl

def createCall (now : Instant) (r : Record) : Call := ⟨now, createName r.docType, [r.text]⟩

theorem outcome_createCall (p : Policy) (now : Instant) (l : Ledger) (r : Record) :
    (createCall now r).outcome p l = create p now l r.asRead := by
  have hpayload : Record.ofPayload r.docType r.text = .ok r.asRead := by
    rw [Record.ofPayload_text, if_pos rfl]
  exact Call.outcome_create (Function.ofName?_createName r.docType) hpayload

section Creating

variable {p : Policy} {before : List Call} {r : Record} (now : Instant) (hself : r.asRead = r)
  (hvalid : r.validate = .ok ()) (hinitial : checkInitial r = .ok ())
  (hreferences : checkReferences p (run p before) r = .ok ())
  (hfree : (run p before).find? r.slot = none)

include hself hvalid hinitial hreferences hfree

theorem outcome_createCall_of_free : (createCall now r).outcome p (run p before)
    = .ok (.stored r.slot (r.stampCreated now)) := by
  rw [outcome_createCall, hself]
  exact create_eq_ok_iff.2 ⟨hvalid, hinitial, hreferences, now, .free hfree, rfl⟩

theorem run_createCall : run p (before ++ [createCall now r])
    = (run p before).write r.slot (r.stampCreated now).encode := by
  rw [run_snoc, Call.step_of_ok
    (outcome_createCall_of_free now hself hvalid hinitial hreferences hfree), Outcome.apply]

end Creating

theorem find?_write_of_identity_ne {l : Ledger} {r s : Record} {bytes : ByteArray}
    (hvalid : r.validate = .ok ()) (h : r.identity ≠ s.identity) :
    (l.write s.slot bytes).find? r.slot = l.find? r.slot :=
  Ledger.find?_write_of_ne fun hslot => h ((Record.slot_eq_iff hvalid).1 hslot)

def agencyA : Record := .agency (agencyOf "A")

def agencyB : Record := .agency (agencyOf "B")

def answer (resubmissions : UInt32) : Record := .reconciliation (tollAnswer resubmissions)

def knownCalls : List Call := [createCall signedTime agencyA] ++ [createCall signedTime agencyB]

def chargedCalls : List Call := knownCalls ++ [createCall signedTime (.charge tollCharge)]

def answeredCalls : List Call := chargedCalls ++ [createCall signedTime (answer 0)]

section Answered

variable (p : Policy)

theorem run_firstAgency : run p [createCall signedTime agencyA]
    = Ledger.empty.write agencyA.slot (agencyA.stampCreated signedTime).encode := by
  have hrun : run p ([] ++ [createCall signedTime agencyA]) = _ :=
    run_createCall signedTime rfl rfl rfl rfl rfl
  exact hrun

theorem run_knownCalls : run p knownCalls
    = (run p [createCall signedTime agencyA]).write agencyB.slot
        (agencyB.stampCreated signedTime).encode := by
  refine run_createCall signedTime rfl rfl rfl rfl ?_
  rw [run_firstAgency, find?_write_of_identity_ne rfl (by decide)]
  rfl

theorem holdsAgency_knownCalls :
    HoldsAgency (run p knownCalls) "A" ∧ HoldsAgency (run p knownCalls) "B" := by
  have hfirst : HoldsAgency (run p [createCall signedTime agencyA]) "A" := by
    rw [run_firstAgency]
    exact ⟨_, recordAt?_write _ _ _, rfl⟩
  constructor
  · rw [knownCalls, run_snoc]
    exact (wellKept_run _ _).holdsAgency_step hfirst _
  · rw [run_knownCalls]
    exact ⟨_, recordAt?_write _ _ _, rfl⟩

theorem run_chargedCalls : run p chargedCalls
    = (run p knownCalls).write (Record.charge tollCharge).slot pendingToll.encode := by
  have hkept := wellKept_run p knownCalls
  have hvalid : (Record.charge tollCharge).validate = .ok () := rfl
  have haway : requireAgency p (run p knownCalls) tollCharge.away = .ok () :=
    hkept.requireAgency_of_holds (holdsAgency_knownCalls p).2
  have hhome : requireAgency p (run p knownCalls) tollCharge.home = .ok () :=
    hkept.requireAgency_of_holds (holdsAgency_knownCalls p).1
  have hreferences : checkReferences p (run p knownCalls) (.charge tollCharge) = .ok () := by
    simp only [checkReferences, haway, hhome, bind, Except.bind]
  refine run_createCall signedTime rfl hvalid rfl hreferences ?_
  rw [run_knownCalls, find?_write_of_identity_ne hvalid (by decide), run_firstAgency,
    find?_write_of_identity_ne hvalid (by decide)]
  rfl

theorem holdsCharge_chargedCalls : HoldsCharge (run p chargedCalls) ⟨"C1", "B", "A"⟩ := by
  have hheld : recordAt? (run p chargedCalls) (Record.charge tollCharge).slot
      = some pendingToll.asRead := by
    rw [run_chargedCalls, recordAt?_write]
  exact ⟨_, hheld, rfl⟩

theorem free_chargedCalls : (run p chargedCalls).find? (answer 0).slot = none := by
  have hvalid : (answer 0).validate = .ok () := rfl
  rw [run_chargedCalls, find?_write_of_identity_ne hvalid (by decide), run_knownCalls,
    find?_write_of_identity_ne hvalid (by decide), run_firstAgency,
    find?_write_of_identity_ne hvalid (by decide)]
  rfl

theorem checkReferences_answer (resubmissions : UInt32) :
    checkReferences p (run p chargedCalls) (answer resubmissions) = .ok () :=
  ((wellKept_run p chargedCalls).requireCharge_eq_ok_iff (n := ⟨"C1", "B", "A"⟩)).2
    (holdsCharge_chargedCalls p)

theorem recordAt?_answeredCalls : recordAt? (run p answeredCalls) (answer 0).slot
    = some ((answer 0).stampCreated signedTime) := by
  rw [answeredCalls, run_createCall signedTime rfl rfl rfl (checkReferences_answer p 0)
    (free_chargedCalls p), recordAt?_write]
  rfl

end Answered

theorem references_held_answeredCalls :
    let l := run Policy.standard answeredCalls
    (∃ c : Charge, recordAt? l ⟨(answer 0).scope, Key.charge "C1"⟩ = some (.charge c) ∧
        c.fullName = ⟨"C1", "B", "A"⟩) ∧
      ∃ a : Agency, recordAt? l ⟨.shared, Key.agency "B"⟩ = some (.agency a) ∧ a.id = "B" := by
  obtain ⟨hcharge, hagencies⟩ := references_held (reachable_run Policy.standard answeredCalls)
  have hanswer := recordAt?_answeredCalls Policy.standard
  exact ⟨hcharge _ _ _ hanswer ⟨"C1", "B", "A"⟩ rfl,
    hagencies (by rintro _ rfl; rfl) _ _ hanswer "B" (by decide)⟩

end House

end TollClearing
