import TollClearing.Proofs.House.Resubmission

/-!
What decides a creation. A record that obeys the rules has to meet conditions in a fixed order: its
first state, a place for it, and then all that it refers to. It is stored exactly if it meets all of
them, and otherwise turned down for the first one that it does not meet.
-/

set_option autoImplicit false

namespace TollClearing.House

/-- There is a place for a record: its slot is free or, if the policy allows it, holds a
reconciliation that has been resubmitted less often than the record. -/
def HasPlace (p : Policy) (l : Ledger) (r : Record) : Prop :=
  l.find? r.slot = none ∨
    p.resubmission = .supersede ∧ ∃ new first : Reconciliation, r = .reconciliation new ∧
      recordAt? l r.slot = some (.reconciliation first) ∧ first.resubmissions < new.resubmissions

namespace Condition

def start {σ : Type} [Code σ] (subject : String) (state : σ) (told : Option σ) : Condition :=
  ⟨told = some state, rejection "status" (told.elim .required fun s =>
    .notInitial subject [Code.wire state] (Code.wire s))⟩

def place (p : Policy) (l : Ledger) (r : Record) : Condition :=
  ⟨HasPlace p l r, .present r.key⟩

/-- A correction that is not the first one follows the one with the number before its own. -/
def follows (l : Ledger) (k : Correction) : Condition :=
  ⟨1 < k.number.toNat →
      IsHeld l (.correction s(k.away, k.home) k.charge (k.number.toNat - 1)),
    rejection "correctionSeqNo" (.predecessorMissing (k.number.toNat - 1) k.charge)⟩

end Condition

open Condition

def startConditions : Record → List Condition
  | .charge c => [start "charge" .pending c.status]
  | .settlement s => [start "settlement" .draft s.status]
  | .agency _ | .tag _ | .correction _ | .reconciliation _ | .acknowledgement _ => []

/-- What a record refers to, in the order in which it is looked for. -/
def references (p : Policy) (l : Ledger) : Record → List Condition
  | .tag t => [knownAgency p l t.agency, knownAgency p l t.home]
  | .charge c => [knownAgency p l c.away, knownAgency p l c.home]
  | .settlement s => [knownAgency p l s.payor, knownAgency p l s.payee]
  | .correction k =>
    [knownCharge l ⟨k.charge, k.away, k.home⟩, sameOrder l ⟨k.charge, k.away, k.home⟩,
      follows l k]
  | .reconciliation r =>
    [knownCharge l ⟨r.charge, r.away, r.home⟩, sameOrder l ⟨r.charge, r.away, r.home⟩]
  | .agency _ | .acknowledgement _ => []

/-- All that a record which obeys the rules has to meet, in the order in which it is checked. -/
def conditions (p : Policy) (l : Ledger) (r : Record) : List Condition :=
  startConditions r ++ place p l r :: references p l r

def creationTime (now : Instant) (l : Ledger) (slot : Slot) : Instant :=
  ((recordAt? l slot).bind Record.createdAt).getD now

def creation (now : Instant) (l : Ledger) (r : Record) : Record :=
  r.withTimes (some (creationTime now l r.slot)) (some now)

theorem creationTime_of_free {now : Instant} {l : Ledger} {slot : Slot}
    (h : l.find? slot = none) : creationTime now l slot = now := by
  rw [creationTime, recordAt?, h]
  rfl

theorem decided_requireInitial {R σ : Type} [Code σ] [DecidableEq σ] [Staged R σ] {state : σ}
    (hmember : Staged.member R = "status") (hinitial : (Staged.transitions R).initial = [state])
    (r : R) : Decided [start (Staged.transitions R).subject state (Staged.status r)]
      (fun _ => True) (requireInitial r) := by
  rw [requireInitial]
  cases Staged.status r with
  | none =>
    rw [hmember]
    exact .unmet (by simp [start]) []
  | some s =>
    simp only [Transitions.isInitial, hinitial, hmember, List.map_cons, List.map_nil]
    split
    · rename_i hs
      exact .met (by simpa [start] using hs) trivial
    · rename_i hs
      exact .unmet (by simpa [start] using hs) []

theorem decided_checkInitial (r : Record) :
    Decided (startConditions r) (fun _ => True) (checkInitial r) := by
  cases r with
  | charge c => exact decided_requireInitial rfl rfl c
  | settlement s => exact decided_requireInitial rfl rfl s
  | _ => exact .free trivial

section WellKept

variable {p : Policy} {now : Instant} {l : Ledger} (hl : WellKept l)

include hl

theorem WellKept.decided_requirePredecessor (k : Correction) :
    Decided [follows l k] (fun _ => True) (requirePredecessor l k) := by
  obtain ⟨before, hbefore⟩ : ∃ i : Identity,
      i = .correction s(k.away, k.home) k.charge (k.number.toNat - 1) := ⟨_, rfl⟩
  have hslot : Function.chargeSlot k.away k.home (Key.correction k.charge (k.number.toNat - 1))
      = before.slot := by
    rw [hbefore]
    rfl
  rw [requirePredecessor, follows, ← hbefore, hl.isHeld_iff, Correction.predecessor?]
  by_cases hfirst : k.number.toNat ≤ 1
  · rw [if_pos hfirst]
    exact .met (fun hlater => absurd hlater (Nat.not_lt_of_le hfirst)) trivial
  · rw [if_neg hfirst]
    simp only [Nat.not_le.1 hfirst, forall_const, hslot, lookUp_eq_find? before.checkSlot_slot]
    cases l.find? before.slot with
    | none => exact .unmet (by simp) []
    | some bytes => exact .met rfl trivial

theorem WellKept.decided_checkReferences (r : Record) :
    Decided (references p l r) (fun _ => True) (checkReferences p l r) := by
  cases r with
  | tag t =>
    refine (hl.decided_requireAgency t.agency).bind fun _ hissuer _ => ?_
    split
    · rename_i hsame
      rw [hsame]
      exact .passed hissuer trivial
    · exact hl.decided_requireAgency t.home
  | charge c =>
    exact (hl.decided_requireAgency c.away).bind fun _ _ _ => hl.decided_requireAgency c.home
  | settlement s =>
    exact (hl.decided_requireAgency s.payor).bind fun _ _ _ => hl.decided_requireAgency s.payee
  | correction k =>
    exact (hl.decided_requireCharge ⟨k.charge, k.away, k.home⟩).bind fun _ _ _ =>
      hl.decided_requirePredecessor k
  | reconciliation r => exact hl.decided_requireCharge ⟨r.charge, r.away, r.home⟩
  | _ => exact .free trivial

/-- Unless a record may take the place of another one, its slot has to be free. -/
theorem WellKept.decided_insert {r : Record} (hfree : HasPlace p l r → l.find? r.slot = none) :
    Decided (place p l r :: references p l r) (· = .stored r.slot (creation now l r))
      (insert p now l r) := by
  rw [insert, lookUp_slot]
  cases hfind : l.find? r.slot with
  | some bytes =>
    refine .unmet (fun hplace => ?_) _
    cases hfind.symm.trans (hfree hplace)
  | none =>
    have hstored : r.stampCreated now = creation now l r := by
      rw [creation, creationTime_of_free hfind, Record.stampCreated]
    rw [← hstored]
    exact .cons (.inl hfind) ((hl.decided_checkReferences r).then_ok rfl)

theorem WellKept.decided_supersede (hpolicy : p.resubmission = .supersede) (r : Reconciliation) :
    Decided (place p l (.reconciliation r) :: references p l (.reconciliation r))
      (· = .stored (Record.reconciliation r).slot (creation now l (.reconciliation r)))
      (supersede p now l r) := by
  rw [supersede, lookUp_slot]
  cases hfind : l.find? (Record.reconciliation r).slot with
  | none => exact hl.decided_insert fun _ => hfind
  | some bytes =>
    obtain ⟨s, rfl, hidentity, -⟩ :=
      hl.exists_of_find? (i := (Record.reconciliation r).identity) hfind
    cases s with
    | reconciliation first =>
      have hheld : recordAt? l (Record.reconciliation r).slot
          = some (.reconciliation first.asRead) := recordAt?_of_find? hfind
      have hstored : (Record.reconciliation r).withTimes
          (some (first.asRead.createdAt.getD now)) (some now)
            = creation now l (.reconciliation r) := by
        rw [creation, creationTime, hheld]
        rfl
      have hread : readAs Reconciliation (Record.reconciliation r).key
          (Record.reconciliation first).encode = .ok first.asRead := readAs_encode rfl _
      simp only [hread, bind, Except.bind]
      split
      · rename_i hless
        refine .unmet ?_ _
        rintro (hfree | ⟨-, new, first', hnew, hfirst, hmore⟩)
        · cases hfind.symm.trans hfree
        · obtain rfl := Record.reconciliation.inj hnew
          obtain rfl := Record.reconciliation.inj (Option.some.inj (hheld.symm.trans hfirst))
          exact UInt32.not_lt.2 hless hmore
      · rename_i hmore
        rw [hstored]
        exact .cons (.inr ⟨hpolicy, r, _, rfl, hheld, UInt32.not_le.1 hmore⟩)
          ((hl.decided_checkReferences (.reconciliation r)).then_ok rfl)
    | _ => cases hidentity

/-- All that decides the creation of a record that obeys the rules. -/
theorem WellKept.decided_create {r : Record} (hvalid : r.validate = .ok ()) :
    Decided (conditions p l r) (· = .stored r.slot (creation now l r)) (create p now l r) := by
  have haccepted : Decided [] (fun _ => True) (accepted r.validate) := by
    rw [hvalid]
    exact .free trivial
  refine haccepted.bind fun _ _ _ => (decided_checkInitial r).bind fun _ _ _ => ?_
  split
  · exact hl.decided_supersede ‹_› _
  · rename_i hother
    refine hl.decided_insert fun hplace => hplace.resolve_right ?_
    rintro ⟨hpolicy, new, -, rfl, -⟩
    exact hother new rfl hpolicy

end WellKept

/-- Why a call with a payload creates no record: the payload is none of this kind, the record breaks
a rule, or there is a first condition that it does not meet. -/
inductive NotCreated (p : Policy) (l : Ledger) (docType : DocType) (payload : String) :
    Fault → Prop where
  | malformed {m : Malformed} (h : Record.ofPayload docType payload = .error m) :
    NotCreated p l docType payload (.malformed m)
  | rules {r : Record} {v : Violation} (hread : Record.ofPayload docType payload = .ok r)
    (h : r.validate = .error v) : NotCreated p l docType payload (.rejected v)
  | unmet {r : Record} {fault : Fault} (hread : Record.ofPayload docType payload = .ok r)
    (hvalid : r.validate = .ok ()) (h : FirstUnmet (conditions p l r) fault) :
    NotCreated p l docType payload fault

/-- What a call with a payload creates: the record that is read from it, if this obeys the rules
and meets all conditions. -/
structure Created (p : Policy) (l : Ledger) (docType : DocType) (payload : String) (r : Record) :
    Prop where
  read : Record.ofPayload docType payload = .ok r
  validate : r.validate = .ok ()
  met : ∀ c ∈ conditions p l r, c.met

theorem created_or_notCreated (p : Policy) (l : Ledger) (docType : DocType) (payload : String) :
    (∃ r, Created p l docType payload r) ∨ ∃ fault, NotCreated p l docType payload fault := by
  cases hread : Record.ofPayload docType payload with
  | error m => exact .inr ⟨_, .malformed hread⟩
  | ok r =>
    cases hvalid : r.validate with
    | error v => exact .inr ⟨_, .rules hread hvalid⟩
    | ok _ =>
      obtain hmet | ⟨fault, h⟩ := forall_met_or_exists_firstUnmet (conditions p l r)
      · exact .inl ⟨r, hread, hvalid, hmet⟩
      · exact .inr ⟨fault, .unmet hread hvalid h⟩

section Calls

variable {p : Policy} {l : Ledger} (hl : WellKept l) {docType : DocType} {payload : String}
  (now : Instant)

include hl

theorem WellKept.outcome_of_created {r : Record} (h : Created p l docType payload r) :
    (Call.mk now (createName docType) [payload]).outcome p l
      = .ok (.stored r.slot (creation now l r)) :=
  (Call.outcome_create (Function.ofName?_createName docType) h.read).trans
    ((hl.decided_create h.validate).eq_ok h.met)

theorem WellKept.outcome_of_notCreated {fault : Fault} (h : NotCreated p l docType payload fault) :
    (Call.mk now (createName docType) [payload]).outcome p l = .error fault := by
  have hname := Function.ofName?_createName docType
  cases h with
  | malformed h =>
    exact Call.outcome_of_no_request hname (by rw [request_createRecord, Function.record, h])
  | rules hread h =>
    rw [Call.outcome_create hname hread]
    simp only [create, h, accepted, bind, Except.bind]
  | unmet hread hvalid h =>
    rw [Call.outcome_create hname hread]
    have hdecided : Decided _ _ (create p now l _) := hl.decided_create hvalid
    exact hdecided.eq_error h

end Calls

/-- In every ledger that calls lead to, and under any policy, a call that is to create a record of
a kind succeeds exactly if its payload is read as one that obeys the rules and meets all conditions.
The record is then stored in its slot with the time of the call, and nothing else changes. Otherwise
the call is turned down for what is wrong first, and changes nothing. -/
theorem creations_decided {allowed : Policy → Prop} {l : Ledger} (hl : Reachable allowed l)
    (p : Policy) (now : Instant) (docType : DocType) (payload : String) :
    let c : Call := ⟨now, createName docType, [payload]⟩
    (∀ o, c.outcome p l = .ok o ↔ ∃ r, Created p l docType payload r ∧
        o = .stored r.slot (creation now l r)) ∧
      (∀ fault, c.outcome p l = .error fault ↔ NotCreated p l docType payload fault) ∧
      (∀ r, Created p l docType payload r →
        c.step p l = l.write r.slot (creation now l r).encode) ∧
      ∀ fault, NotCreated p l docType payload fault → c.step p l = l := by
  intro c
  have hkept := hl.wellKept
  have hcreated : ∀ r, Created p l docType payload r →
      c.outcome p l = .ok (.stored r.slot (creation now l r)) :=
    fun r h => hkept.outcome_of_created now h
  have hnot : ∀ fault, NotCreated p l docType payload fault → c.outcome p l = .error fault :=
    fun fault h => hkept.outcome_of_notCreated now h
  refine ⟨fun o => ⟨fun ho => ?_, ?_⟩, fun fault => ⟨fun hfault => ?_, hnot fault⟩,
    fun r h => Call.step_of_ok (hcreated r h), fun fault h => Call.step_of_error (hnot fault h)⟩
  · obtain ⟨r, hr⟩ | ⟨fault, hfault⟩ := created_or_notCreated p l docType payload
    · exact ⟨r, hr, Except.ok.inj (ho.symm.trans (hcreated r hr))⟩
    · cases ho.symm.trans (hnot fault hfault)
  · rintro ⟨r, hr, rfl⟩
    exact hcreated r hr
  · obtain ⟨r, hr⟩ | ⟨fault', hfault'⟩ := created_or_notCreated p l docType payload
    · cases hfault.symm.trans (hcreated r hr)
    · obtain rfl := Except.error.inj (hfault.symm.trans (hnot fault' hfault'))
      exact hfault'

/-- The answer to the charge is resubmitted, and is a duplicate if it is only given again. -/
theorem creations_decided_answeredCalls :
    let l := run patientPolicy answeredCalls
    (createCall signedTime (answer 1)).outcome patientPolicy l
        = .ok (.stored (answer 1).slot (creation signedTime l (answer 1))) ∧
      (createCall signedTime (answer 0)).outcome patientPolicy l
        = .error (.present (answer 0).key) := by
  intro l
  have hheld : recordAt? l (answer 0).slot = some (.reconciliation firstAnswer) :=
    recordAt?_answeredCalls patientPolicy
  have hcharge : HoldsCharge l ⟨"C1", "B", "A"⟩ := by
    have hstep := (wellKept_run patientPolicy chargedCalls).holdsCharge_step (p := patientPolicy)
      (holdsCharge_chargedCalls patientPolicy) (createCall signedTime (answer 0))
    rwa [← run_snoc] at hstep
  have hknown : ∃ c : Charge, recordAt? l (ChargeName.slot ⟨"C1", "B", "A"⟩) = some (.charge c) :=
    hcharge.imp fun c h => h.1
  have hplace : HasPlace patientPolicy l (answer 1) :=
    .inr ⟨rfl, tollAnswer 1, firstAnswer, rfl, hheld, by decide⟩
  have hnone : ¬ HasPlace patientPolicy l (answer 0) := by
    rintro (hfree | ⟨-, new, first, hnew, hfirst, hmore⟩)
    · rw [recordAt?, hfree] at hheld
      cases hheld
    · obtain rfl := Record.reconciliation.inj hnew
      obtain rfl := Record.reconciliation.inj (Option.some.inj (hheld.symm.trans hfirst))
      exact absurd hmore (by decide)
  have hmet : ∀ c ∈ conditions patientPolicy l (answer 1), c.met := by
    rintro c (_ | ⟨_, _ | ⟨_, _ | ⟨_, ⟨⟩⟩⟩⟩)
    · exact hplace
    · exact hknown
    · exact hcharge
  have hreached := reachable_run patientPolicy answeredCalls
  obtain ⟨hok, -⟩ :=
    creations_decided hreached patientPolicy signedTime .reconciliation (answer 1).text
  obtain ⟨-, herror, -⟩ :=
    creations_decided hreached patientPolicy signedTime .reconciliation (answer 0).text
  exact ⟨(hok _).2 ⟨answer 1, ⟨(answer 1).ofPayload_text .reconciliation, rfl, hmet⟩, rfl⟩,
    (herror _).2 (.unmet ((answer 0).ofPayload_text .reconciliation) rfl (.here hnone))⟩

end TollClearing.House
