import TollClearing.Proofs.House.Lookup

/-!
Updates: the calls that move a record to another state. Such a call succeeds exactly if the state
is known, the record is there and its table lists the step, and tells which of the three fails.
-/

set_option autoImplicit false

namespace TollClearing

open House

def DocType.staged : DocType → Bool
  | .agency | .tag | .charge | .settlement => true
  | .correction | .reconciliation | .acknowledgement => false

namespace House.Move

def docType : Move → DocType
  | .agency _ => .agency
  | .tag _ => .tag
  | .charge _ => .charge
  | .settlement _ => .settlement

@[simp] theorem staged_docType (m : Move) : m.docType.staged = true := by cases m <;> rfl

/-- The table of their kind lists the step from one state to the other. -/
def leadsTo : Move → Move → Bool
  | .agency s, .agency t => (Staged.transitions Agency).allows s t
  | .tag s, .tag t => (Staged.transitions Tag).allows s t
  | .charge s, .charge t => (Staged.transitions Charge).allows s t
  | .settlement s, .settlement t => (Staged.transitions Settlement).allows s t
  | _, _ => false

def isInitial : Move → Bool
  | .agency s => (Staged.transitions Agency).isInitial s
  | .tag s => (Staged.transitions Tag).isInitial s
  | .charge s => (Staged.transitions Charge).isInitial s
  | .settlement s => (Staged.transitions Settlement).isInitial s

def ofCode? : DocType → String → Option Move
  | .agency, code => (Code.ofWire? code).map .agency
  | .tag, code => (Code.ofWire? code).map .tag
  | .charge, code => (Code.ofWire? code).map .charge
  | .settlement, code => (Code.ofWire? code).map .settlement
  | .correction, _ | .reconciliation, _ | .acknowledgement, _ => none

theorem docType_of_ofCode? {d : DocType} {code : String} {m : Move} (h : ofCode? d code = some m) :
    m.docType = d := by
  cases d <;> simp only [ofCode?, Option.map_eq_some_iff, reduceCtorEq] at h <;>
    obtain ⟨s, -, rfl⟩ := h <;> rfl

end House.Move

namespace Record

def state? : Record → Option Move
  | .agency a => a.status.map .agency
  | .tag t => t.status.map .tag
  | .charge c => c.status.map .charge
  | .settlement s => s.status.map .settlement
  | .correction _ | .reconciliation _ | .acknowledgement _ => none

@[simp] theorem state?_asRead (r : Record) : r.asRead.state? = r.state? := by cases r <;> rfl

@[simp] theorem state?_withTimes (r : Record) (created updated : Option Instant) :
    (r.withTimes created updated).state? = r.state? := by
  cases r <;> rfl

theorem state?_moved {r : Record} {m : Move} (h : m.docType = r.docType) :
    (r.moved m).state? = some m := by
  cases m <;> cases r <;> cases h <;> rfl

theorem exists_state {r : Record} (h : r.validate = .ok ()) (hstaged : r.docType.staged = true) :
    ∃ s, r.state? = some s := by
  have hset := statusSet_of_validate h
  have hsome : r.state?.isSome := by
    cases r <;> simp_all [StatusSet, state?, docType, DocType.staged]
  exact Option.isSome_iff_exists.1 hsome

end Record

namespace House

/-- The record that an update names, and the code of the state to which it is to move. -/
def Call.update? (c : Call) : Option (Identity × String) :=
  match c.name, c.arguments with
  | "UpdateAgencyStatus", [id, code] => some (.agency id, code)
  | "UpdateTagStatus", [issuer, serial, code] => some (.tag issuer serial, code)
  | "UpdateChargeStatus", [away, home, id, code] => some (.charge s(away, home) id, code)
  | "UpdateSettlementStatus", [payor, payee, id, code] =>
    some (.settlement s(payor, payee) id, code)
  | _, _ => none

theorem state_bind (R : Type) {σ : Type} [Code σ] [Staged R σ] (code : String) (slot : Slot)
    (move : σ → Move) :
    (Function.state R code >>= fun s => Except.ok (Request.advance slot (move s))).toOption
        = ((Code.ofWire? code).map move).map (.advance slot) ∧
      ∀ fault, (Function.state R code >>= fun s => Except.ok (Request.advance slot (move s)))
        = .error fault → fault.kind = "InvalidEnumError" := by
  unfold Function.state
  cases (Code.ofWire? code : Option σ) with
  | none => exact ⟨rfl, fun fault h => Except.error.inj h ▸ rfl⟩
  | some s => exact ⟨rfl, fun fault h => nomatch h⟩

theorem request_update {c : Call} {i : Identity} {code : String} (h : c.update? = some (i, code)) :
    ∃ f, Function.ofName? c.name = some f ∧
      (f.request c.arguments).toOption = (Move.ofCode? i.docType code).map (.advance i.slot) ∧
      ∀ fault, f.request c.arguments = .error fault → fault.kind = "InvalidEnumError" := by
  obtain ⟨now, name, arguments⟩ := c
  unfold Call.update? at h
  split at h <;> simp only [Option.some.injEq, Prod.mk.injEq, reduceCtorEq] at h <;>
    obtain ⟨rfl, rfl⟩ := h <;> subst_vars
  · exact ⟨_, rfl, state_bind Agency _ _ Move.agency⟩
  · exact ⟨_, rfl, state_bind Tag _ _ Move.tag⟩
  · exact ⟨_, rfl, state_bind Charge _ _ Move.charge⟩
  · exact ⟨_, rfl, state_bind Settlement _ _ Move.settlement⟩

theorem Function.name_of_advance {f : Function} (h : f ∈ Function.all) {arguments : List String}
    {slot : Slot} {m : Move} (hr : f.request arguments = .ok (.advance slot m)) :
    arguments.length = f.parameters.length ∧
      (f.name, f.parameters.length) ∈ [("UpdateAgencyStatus", 2), ("UpdateTagStatus", 3),
        ("UpdateChargeStatus", 4), ("UpdateSettlementStatus", 4)] := by
  have read : ∀ f ∈ Function.all, ∀ a, f.read a = .ok (.advance slot m) →
      (f.name, f.parameters.length) ∈ [("UpdateAgencyStatus", 2), ("UpdateTagStatus", 3),
        ("UpdateChargeStatus", 4), ("UpdateSettlementStatus", 4)] := by
    simp only [all, agencies, tags, charges, corrections, reconciliations, acknowledgements,
      settlements, createRecord, record, List.forall_mem_append, List.forall_mem_cons,
      List.not_mem_nil, false_implies, implies_true, and_true, bind, Except.bind]
    and_intros <;> intro a e <;> first | decide | grind
  rw [request] at hr
  split at hr
  · rename_i hlength
    exact ⟨hlength, read f h _ hr⟩
  · cases hr

theorem exists_update_of_advance {c : Call} {f : Function} {slot : Slot} {m : Move}
    (hname : Function.ofName? c.name = some f)
    (hrequest : f.request c.arguments = .ok (.advance slot m)) :
    ∃ i code, c.update? = some (i, code) := by
  obtain ⟨now, name, arguments⟩ := c
  obtain ⟨hlength, hmem⟩ := Function.name_of_advance (mem_all_of_ofName? hname) hrequest
  rw [name_of_ofName? hname, ← hlength] at hmem
  simp only [List.mem_cons, Prod.mk.injEq, List.not_mem_nil, or_false] at hmem
  rcases hmem with ⟨rfl, h⟩ | ⟨rfl, h⟩ | ⟨rfl, h⟩ | ⟨rfl, h⟩
  · obtain ⟨a, b, rfl⟩ := List.length_eq_two.1 h
    exact ⟨_, _, rfl⟩
  · obtain ⟨a, b, c, rfl⟩ := List.length_eq_three.1 h
    exact ⟨_, _, rfl⟩
  · obtain ⟨a, b, c, d, rfl⟩ := List.length_eq_four.1 h
    exact ⟨_, _, rfl⟩
  · obtain ⟨a, b, c, d, rfl⟩ := List.length_eq_four.1 h
    exact ⟨_, _, rfl⟩

section Moves

variable (p : Policy) (now : Instant) {l : Ledger}

theorem advance_of_status {R σ : Type} [Code σ] [DecidableEq σ] [Staged R σ] {r : Record} {a : R}
    {source target : σ} (hfind : l.find? r.slot = some r.encode)
    (ha : Recorded.ofRecord? r.asRead = some a) (hstatus : Staged.status a = some source) :
    ((Staged.transitions R).allows source target = true →
        advance R now l r.slot target = .ok (.stored r.slot
          ((Recorded.toRecord (Staged.withStatus target a)).stampUpdated now))) ∧
      ((Staged.transitions R).allows source target = false →
        ∃ refusal, advance R now l r.slot target = .error (.refused refusal)) := by
  refine ⟨fun hallowed => ?_, fun hrefused => ?_⟩
  · exact advance_slot hfind ha hstatus ((Transitions.check_eq_ok_iff _).2 hallowed)
  · cases hcheck : (Staged.transitions R).check source target with
    | ok _ => simp [(Transitions.check_eq_ok_iff _).1 hcheck] at hrefused
    | error refusal =>
      refine ⟨refusal, ?_⟩
      simp only [advance, fetch_slot hfind ha, bind, Except.bind, hstatus, hcheck]

/-- A move along the table puts the record back in its new state; any other is refused. -/
theorem process_advance_of_state {r : Record} {s m : Move} (hfind : l.find? r.slot = some r.encode)
    (hstate : r.asRead.state? = some s) (hkind : m.docType = r.docType) :
    (s.leadsTo m = true → process p now l (.advance r.slot m)
        = .ok (.stored r.slot ((r.asRead.moved m).stampUpdated now))) ∧
      (s.leadsTo m = false →
        ∃ refusal, process p now l (.advance r.slot m) = .error (.refused refusal)) := by
  cases m <;> cases r <;> cases hkind <;>
    obtain ⟨source, hstatus, rfl⟩ := Option.map_eq_some_iff.1 hstate
  · exact advance_of_status now hfind rfl hstatus
  · exact advance_of_status now hfind rfl hstatus
  · exact advance_of_status now hfind rfl hstatus
  · exact advance_of_status now hfind rfl hstatus

theorem process_advance_of_missing {slot : Slot} {m : Move} (hslot : Ledger.checkSlot slot = .ok ())
    (hfind : l.find? slot = none) :
    process p now l (.advance slot m) = .error (.missing slot.key) := by
  have hvalue : valueIn l slot = .error (.missing slot.key) := by
    simp [valueIn, lookUp_eq_find? hslot, hfind, bind, Except.bind]
  cases m <;> simp [process, advance, fetch, hvalue, bind, Except.bind]

theorem advance_source {now : Instant} {R σ : Type} [Code σ] [DecidableEq σ] [Staged R σ]
    {r : Record} {slot : Slot}
    {target : σ} {o : Outcome} (move : σ → Move)
    (hstate : ∀ a : R, (Recorded.toRecord a).state? = (Staged.status a).map move)
    (hleads : ∀ s t, (move s).leadsTo (move t) = (Staged.transitions R).allows s t)
    (hfind : l.find? slot = some r.encode) (h : advance R now l slot target = .ok o) :
    ∃ s, r.asRead.state? = some s ∧ s.leadsTo (move target) = true := by
  obtain ⟨a, source, hfetch, hstatus, hallowed, -⟩ := advance_eq_ok h
  obtain ⟨bytes, hbytes, hdecode⟩ := fetch_eq_ok hfetch
  obtain rfl : r.encode = bytes := Option.some.inj (hfind.symm.trans hbytes)
  refine ⟨move source, ?_, (hleads _ _).trans hallowed⟩
  rw [r.held_encode.eq_toRecord hdecode, hstate, hstatus]
  rfl

theorem process_advance_source {p : Policy} {now : Instant} {r : Record} {slot : Slot} {m : Move}
    {o : Outcome}
    (hfind : l.find? slot = some r.encode) (h : process p now l (.advance slot m) = .ok o) :
    ∃ s, r.asRead.state? = some s ∧ s.leadsTo m = true := by
  cases m with
  | agency s => exact advance_source .agency (fun _ => rfl) (fun _ _ => rfl) hfind h
  | tag s => exact advance_source .tag (fun _ => rfl) (fun _ _ => rfl) hfind h
  | charge s => exact advance_source .charge (fun _ => rfl) (fun _ _ => rfl) hfind h
  | settlement s => exact advance_source .settlement (fun _ => rfl) (fun _ _ => rfl) hfind h

end Moves

theorem WellKept.outcome_update {p : Policy} {l : Ledger} (hl : WellKept l) {c : Call}
    {i : Identity} {code : String} (h : c.update? = some (i, code)) :
    (Move.ofCode? i.docType code = none →
        ∃ fault, c.outcome p l = .error fault ∧ fault.kind = "InvalidEnumError") ∧
      ∀ m, Move.ofCode? i.docType code = some m →
        ((∀ r, Holds l r → r.identity ≠ i) →
            ∃ fault, c.outcome p l = .error fault ∧ fault.kind = "NotFoundError") ∧
          ∀ r, Holds l r → r.identity = i → ∃ s, r.state? = some s ∧
            (s.leadsTo m = false →
              ∃ fault, c.outcome p l = .error fault ∧ fault.kind = "InvalidTransitionError") ∧
            (s.leadsTo m = true →
              c.outcome p l = .ok (.stored i.slot ((r.moved m).stampUpdated c.now))) := by
  obtain ⟨f, hname, hrequest, hfault⟩ := request_update h
  refine ⟨fun hcode => ?_, fun m hcode => ?_⟩
  · cases hmade : f.request c.arguments with
    | ok request => simp [hmade, hcode, Except.toOption] at hrequest
    | error fault =>
      refine ⟨fault, ?_, hfault fault hmade⟩
      exact Call.outcome_of_no_request hname hmade
  · have hmade : f.request c.arguments = .ok (.advance i.slot m) := by
      cases hmade : f.request c.arguments with
      | ok request => simpa [hmade, hcode, Except.toOption] using hrequest
      | error fault => simp [hmade, hcode, Except.toOption] at hrequest
    rw [Call.outcome_of_request hname hmade]
    refine ⟨fun hmissing => ?_, fun r hr hidentity => ?_⟩
    · have hfind : l.find? i.slot = none := by
        by_contra hsome
        obtain ⟨bytes, hbytes⟩ := Option.ne_none_iff_exists'.1 hsome
        obtain ⟨s, rfl, hs, -⟩ := hl.exists_of_find? hbytes
        exact hmissing s.asRead ⟨_, _, hbytes, s.held_encode.decode_eq⟩ (s.identity_asRead.trans hs)
      exact ⟨_, process_advance_of_missing p c.now i.checkSlot_slot hfind, rfl⟩
    · obtain ⟨r', hfind, rfl, horder⟩ := hl.exists_of_holds hr
      rw [Record.slot_asRead] at hfind
      rw [Record.identity_asRead] at hidentity
      subst hidentity
      have hkind : m.docType = r'.docType := by
        simpa using Move.docType_of_ofCode? hcode
      have hstaged : r'.docType.staged = true := hkind ▸ m.staged_docType
      obtain ⟨s, hs⟩ := Record.exists_state horder.validate hstaged
      obtain ⟨hok, hrefused⟩ := process_advance_of_state p c.now hfind
        ((r'.state?_asRead).trans hs) hkind
      rw [Record.slot_identity]
      refine ⟨s, (r'.state?_asRead).trans hs, fun hleads => ?_, hok⟩
      obtain ⟨refusal, he⟩ := hrefused hleads
      exact ⟨_, he, rfl⟩

/-- All that an update needs: it names a state, the record is there and its table lists the step. -/
def Granted (l : Ledger) (i : Identity) (code : String) : Prop :=
  ∃ m r s, Move.ofCode? i.docType code = some m ∧ Holds l r ∧ r.identity = i ∧
    r.state? = some s ∧ s.leadsTo m = true

/-- What an update lacks, the first thing first, by the kind of fault that tells it. -/
inductive Lacking (l : Ledger) (i : Identity) (code : String) : String → Prop where
  | state (h : Move.ofCode? i.docType code = none) : Lacking l i code "InvalidEnumError"
  | record {m : Move} (hcode : Move.ofCode? i.docType code = some m)
    (h : ∀ r, Holds l r → r.identity ≠ i) : Lacking l i code "NotFoundError"
  | step {m s : Move} {r : Record} (hcode : Move.ofCode? i.docType code = some m) (hr : Holds l r)
    (hidentity : r.identity = i) (hs : r.state? = some s) (h : s.leadsTo m = false) :
    Lacking l i code "InvalidTransitionError"

/-- An update succeeds exactly if it lacks nothing, and otherwise tells what it lacks first. -/
theorem WellKept.outcome_update_iff {p : Policy} {l : Ledger} (hl : WellKept l) {c : Call}
    {i : Identity} {code : String} (h : c.update? = some (i, code)) :
    ((∃ o, c.outcome p l = .ok o) ↔ Granted l i code) ∧
      ∀ fault, c.outcome p l = .error fault → Lacking l i code fault.kind := by
  obtain ⟨hunknown, hknown⟩ := hl.outcome_update (p := p) h
  have hgranted : Granted l i code → ∃ o, c.outcome p l = .ok o := by
    rintro ⟨m, r, s, hcode, hr, hidentity, hs, hleads⟩
    obtain ⟨s', hs', -, hmoved⟩ := (hknown m hcode).2 r hr hidentity
    obtain rfl : s = s' := Option.some.inj (hs.symm.trans hs')
    exact ⟨_, hmoved hleads⟩
  -- the three things are looked at in the order in which they are reported
  have hcases : Granted l i code ∨
      ∃ fault, c.outcome p l = .error fault ∧ Lacking l i code fault.kind := by
    cases hcode : Move.ofCode? i.docType code with
    | none =>
      obtain ⟨fault, hfault, hkind⟩ := hunknown hcode
      exact .inr ⟨fault, hfault, hkind ▸ .state hcode⟩
    | some m =>
      obtain ⟨hmissing, hheld⟩ := hknown m hcode
      by_cases hsome : ∃ r, Holds l r ∧ r.identity = i
      · obtain ⟨r, hr, hidentity⟩ := hsome
        obtain ⟨s, hs, hrefused, -⟩ := hheld r hr hidentity
        cases hleads : s.leadsTo m with
        | true => exact .inl ⟨m, r, s, hcode, hr, hidentity, hs, hleads⟩
        | false =>
          obtain ⟨fault, hfault, hkind⟩ := hrefused hleads
          exact .inr ⟨fault, hfault, hkind ▸ .step hcode hr hidentity hs hleads⟩
      · have hnone : ∀ r, Holds l r → r.identity ≠ i := fun r hr e => hsome ⟨r, hr, e⟩
        obtain ⟨fault, hfault, hkind⟩ := hmissing hnone
        exact .inr ⟨fault, hfault, hkind ▸ .record hcode hnone⟩
  refine ⟨⟨fun ⟨o, ho⟩ => ?_, hgranted⟩, fun fault hfault => ?_⟩
  · rcases hcases with h | ⟨fault, hfault, -⟩
    · exact h
    · cases ho.symm.trans hfault
  · rcases hcases with h | ⟨other, hother, hlacking⟩
    · obtain ⟨o, ho⟩ := hgranted h
      cases ho.symm.trans hfault
    · obtain rfl : other = fault := Except.error.inj (hother.symm.trans hfault)
      exact hlacking

end House

end TollClearing
