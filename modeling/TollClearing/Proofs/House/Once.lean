import TollClearing.Proofs.House.Resubmission

/-!
Calls that are made again. What a call has created or moved is there from then on, so that the same
call, however much later, finds its work done and changes nothing.
-/

set_option autoImplicit false

namespace TollClearing.House

def Call.Creates (c : Call) (r : Record) : Prop :=
  c.name = createName r.docType ∧
    ∃ payload, c.arguments = [payload] ∧ Record.ofPayload r.docType payload = .ok r

theorem Call.Creates.outcome_eq {c : Call} {r : Record} (h : c.Creates r) (p : Policy)
    (l : Ledger) : c.outcome p l = create p c.now l r := by
  obtain ⟨now, name, arguments⟩ := c
  obtain ⟨rfl, payload, rfl, hpayload⟩ := h
  exact Call.outcome_create (Function.ofName?_createName r.docType) hpayload

theorem run_cons (p : Policy) (before between : List Call) (c : Call) :
    run p (before ++ c :: between) = between.foldl (Call.step p) (c.step p (run p before)) := by
  rw [run_append, List.foldl_cons]

/-- Why a record is turned down whose identity is taken: for what is wrong with itself, if anything
is, and otherwise for being there already. -/
inductive TurnedDown (r : Record) : Fault → Prop where
  | rules {v : Violation} (h : r.validate = .error v) : TurnedDown r (.rejected v)
  | initial {fault : Fault} (hvalid : r.validate = .ok ()) (h : checkInitial r = .error fault) :
    TurnedDown r fault
  | present (hvalid : r.validate = .ok ()) (hinitial : checkInitial r = .ok ()) :
    TurnedDown r (.present r.key)

section Creating

variable (p : Policy) (now : Instant) {l : Ledger} {r : Record} {bytes : ByteArray}

theorem exists_turnedDown (hfind : l.find? r.slot = some bytes)
    (hkind : r.docType ≠ .reconciliation) :
    ∃ fault, create p now l r = .error fault ∧ TurnedDown r fault := by
  cases hvalid : r.validate with
  | error v =>
    refine ⟨.rejected v, ?_, .rules hvalid⟩
    simp only [create, hvalid, accepted, bind, Except.bind]
  | ok _ =>
    cases hinitial : checkInitial r with
    | error fault =>
      refine ⟨fault, ?_, .initial hvalid hinitial⟩
      simp only [create, hvalid, accepted, hinitial, bind, Except.bind]
    | ok _ =>
      exact ⟨_, create_of_taken hvalid hinitial hfind fun h => absurd h hkind,
        .present hvalid hinitial⟩

theorem WellKept.create_of_resubmitted (hl : WellKept l) {r first : Reconciliation}
    (hvalid : (Record.reconciliation r).validate = .ok ())
    (h : recordAt? l (Record.reconciliation r).slot = some (.reconciliation first))
    (hless : r.resubmissions ≤ first.resubmissions) :
    create p now l (.reconciliation r) = .error (.present (Record.reconciliation r).key) := by
  obtain ⟨bytes, hfind, hfirst, -⟩ := hl.exists_reconciliation h
  have hinitial : checkInitial (.reconciliation r) = .ok () := rfl
  cases hpolicy : p.resubmission with
  | strict => exact create_of_taken hvalid hinitial hfind fun _ => hpolicy
  | supersede =>
    simp only [create, hvalid, accepted, hinitial, hpolicy, supersede, lookUp_slot, hfind, readAs,
      hfirst, hless, bind, Except.bind, if_true]

end Creating

section Runs

variable {p : Policy} {l : Ledger} {c : Call} {r : Record} {o : Outcome}

theorem Call.Creates.recordAt?_step (h : c.Creates r) (ho : c.outcome p l = .ok o) :
    r.validate = .ok () ∧ ∃ created,
      recordAt? (c.step p l) r.slot = some (r.withTimes (some created) (some c.now)).asRead := by
  rw [h.outcome_eq] at ho
  obtain ⟨hvalid, -, -, created, -, rfl⟩ := create_eq_ok ho
  refine ⟨hvalid, created, ?_⟩
  rw [Call.step_of_ok ((h.outcome_eq p l).trans ho), Outcome.apply, recordAt?_write]

theorem WellKept.exists_find?_later (hl : WellKept l) (h : c.Creates r)
    (ho : c.outcome p l = .ok o) (between : List Call) :
    ∃ bytes, (between.foldl (Call.step p) (c.step p l)).find? r.slot = some bytes := by
  obtain ⟨-, created, hnew⟩ := h.recordAt?_step ho
  obtain ⟨later, hlater, -⟩ := (hl.step c).history_foldl (p := p) hnew between
  obtain ⟨bytes, hbytes, -⟩ := Option.bind_eq_some_iff.1 hlater
  exact ⟨bytes, hbytes⟩

/-- A reconciliation that has been created is held from then on, or one that has been resubmitted
more often. -/
theorem WellKept.exists_reconciliation_later (hl : WellKept l) {r : Reconciliation}
    (h : c.Creates (.reconciliation r)) (ho : c.outcome p l = .ok o) (between : List Call) :
    ∃ later, recordAt? (between.foldl (Call.step p) (c.step p l)) (Record.reconciliation r).slot
        = some (.reconciliation later) ∧ r.resubmissions ≤ later.resubmissions := by
  obtain ⟨-, created, hnew⟩ := h.recordAt?_step ho
  obtain ⟨later, hlater, hrenewal⟩ := (hl.step c).renewal_foldl (p := p) hnew between
  refine ⟨later, hlater, ?_⟩
  obtain ⟨-, rfl⟩ | ⟨-, hmore⟩ := hrenewal.kept_or_more
  · exact UInt32.le_refl _
  · exact UInt32.le_of_lt hmore

end Runs

theorem Move.not_leadsTo_self (m : Move) : m.leadsTo m = false := by
  cases m with
  | agency s => cases s <;> rfl
  | tag s => cases s <;> rfl
  | charge s => cases s <;> rfl
  | settlement s => cases s <;> rfl

/-- An update that has been granted leaves its state behind, as long as no other is. -/
theorem WellKept.exists_moved_later {p : Policy} {l : Ledger} (hl : WellKept l) {c : Call}
    {i : Identity} {code : String} {o : Outcome} (h : c.update? = some (i, code))
    (ho : c.outcome p l = .ok o) {between : List Call}
    (hnone : movesIn p i.slot (c.step p l) between = []) :
    ∃ m r, Move.ofCode? i.docType code = some m ∧
      recordAt? (between.foldl (Call.step p) (c.step p l)) i.slot = some r ∧
      r.state? = some m := by
  obtain ⟨m, r, s, hcode, hr, rfl, hs, hleads⟩ := (hl.outcome_update_iff h).1.1 ⟨o, ho⟩
  obtain ⟨old, hfind, rfl, -⟩ := hl.exists_of_holds hr
  have hheld : recordAt? l old.asRead.identity.slot = some old.asRead := by
    rw [Record.slot_identity]
    exact recordAt?_of_find? hfind
  have hkind : m.docType = old.asRead.docType :=
    (Move.docType_of_leadsTo hleads).trans (Record.docType_of_state? hs)
  have hmoved := hl.recordAt?_update (p := p) h hcode hheld hs hleads
  have hstate : ((old.asRead.moved m).stampUpdated c.now).state? = some m := by
    rw [Record.state?_stampUpdated, Record.state?_moved hkind]
  obtain ⟨later, hlater, hhistory⟩ := (hl.step c).history_foldl (p := p) hmoved between
  rw [hnone] at hhistory
  have hstaged : ((old.asRead.moved m).stampUpdated c.now).docType.staged = true := by
    rw [← Record.docType_of_state? hstate, m.staged_docType]
  obtain ⟨s', s'', hs', hs'', hpath⟩ := hhistory.path hstaged
  -- no step has been made since
  cases hpath
  obtain rfl : m = s' := Option.some.inj (hstate.symm.trans hs')
  exact ⟨m, later, hcode, hlater, hs''⟩

/-- In every run a record is created once: a later call that is to create one of the same identity
is turned down as a duplicate, or for what an earlier check finds wrong with it. The same
reconciliation is not stored twice either, though another one may be in its place. And an update
that has been granted is refused when it is made again before another update of the record. None of
them changes anything. -/
theorem calls_once (p : Policy) :
    (∀ (before between : List Call) (c c' : Call) (r r' : Record) (o : Outcome),
        c.Creates r → c'.Creates r' → r'.identity = r.identity → r.docType ≠ .reconciliation →
        c.outcome p (run p before) = .ok o →
          (∃ fault, c'.outcome p (run p (before ++ c :: between)) = .error fault ∧
            TurnedDown r' fault) ∧
          c'.step p (run p (before ++ c :: between)) = run p (before ++ c :: between)) ∧
      (∀ (before between : List Call) (c c' : Call) (r : Reconciliation) (o : Outcome),
        c.Creates (.reconciliation r) → c'.Creates (.reconciliation r) →
        c.outcome p (run p before) = .ok o →
          c'.outcome p (run p (before ++ c :: between))
            = .error (.present (Record.reconciliation r).key) ∧
          c'.step p (run p (before ++ c :: between)) = run p (before ++ c :: between)) ∧
      ∀ (before between : List Call) (c c' : Call) (i : Identity) (code : String) (o : Outcome),
        c.update? = some (i, code) → c'.update? = some (i, code) →
        c.outcome p (run p before) = .ok o →
        movesIn p i.slot (run p (before ++ [c])) between = [] →
          (∃ fault, c'.outcome p (run p (before ++ c :: between)) = .error fault ∧
            fault.kind = "InvalidTransitionError") ∧
          c'.step p (run p (before ++ c :: between)) = run p (before ++ c :: between) := by
  refine ⟨fun before between c c' r r' o hc hc' hsame hkind ho => ?_,
    fun before between c c' r o hc hc' ho => ?_,
    fun before between c c' i code o hc hc' ho hnone => ?_⟩
  · obtain ⟨bytes, hfind⟩ := (wellKept_run p before).exists_find?_later hc ho between
    rw [← run_cons, ← r.slot_identity, ← hsame, r'.slot_identity] at hfind
    have hkind' : r'.docType ≠ .reconciliation := by
      rwa [← r'.docType_identity, hsame, r.docType_identity]
    obtain ⟨fault, hfault, hwhy⟩ := exists_turnedDown p c'.now hfind hkind'
    rw [← hc'.outcome_eq] at hfault
    exact ⟨⟨fault, hfault, hwhy⟩, Call.step_of_error hfault⟩
  · obtain ⟨later, hlater, hless⟩ :=
      (wellKept_run p before).exists_reconciliation_later hc ho between
    obtain ⟨hvalid, -⟩ := hc.recordAt?_step ho
    rw [← run_cons] at hlater
    have hfault := (wellKept_run p (before ++ c :: between)).create_of_resubmitted p
      c'.now hvalid hlater hless
    rw [← hc'.outcome_eq] at hfault
    exact ⟨hfault, Call.step_of_error hfault⟩
  · rw [run_snoc] at hnone
    obtain ⟨m, r, hcode, hr, hs⟩ := (wellKept_run p before).exists_moved_later hc ho hnone
    rw [← run_cons] at hr
    have hkept := wellKept_run p (before ++ c :: between)
    obtain ⟨s, hs', hrefused, -⟩ := ((hkept.outcome_update (p := p) hc').2 m hcode).2 r
      (holds_of_recordAt? hr) (hkept.identity_of_recordAt? hr)
    obtain rfl : m = s := Option.some.inj (hs.symm.trans hs')
    obtain ⟨fault, hfault, hwhy⟩ := hrefused m.not_leadsTo_self
    exact ⟨⟨fault, hfault, hwhy⟩, Call.step_of_error hfault⟩

theorem creates_createCall (now : Instant) {r : Record} (hself : r.asRead = r) :
    (createCall now r).Creates r := by
  refine ⟨rfl, r.text, rfl, ?_⟩
  rw [Record.ofPayload_text, if_pos rfl, hself]

theorem creates_signedCall : signedCall.Creates (.settlement signedBill) :=
  ⟨rfl, _, rfl, ofPayload_signedMembers⟩

/-- The signed bill is created again, the answer to the charge is given again, and the signed bill
is submitted again. -/
theorem calls_once_again :
    (∃ fault, signedCall.outcome openPolicy
        (run openPolicy ([] ++ signedCall :: [moveBill "submitted"])) = .error fault ∧
      TurnedDown (.settlement signedBill) fault) ∧
      (createCall signedTime (answer 0)).outcome patientPolicy
          (run patientPolicy (chargedCalls ++ createCall signedTime (answer 0) :: []))
        = .error (.present (answer 0).key) ∧
      ∃ fault, (moveBill "submitted").outcome openPolicy
          (run openPolicy ([signedCall] ++ moveBill "submitted" :: [signedCall])) = .error fault ∧
        fault.kind = "InvalidTransitionError" := by
  have hanswer : (createCall signedTime (answer 0)).Creates (.reconciliation (tollAnswer 0)) :=
    creates_createCall signedTime rfl
  have hanswered := outcome_createCall_of_free (p := patientPolicy) signedTime (r := answer 0) rfl
    rfl rfl (checkReferences_answer patientPolicy 0) (free_chargedCalls patientPolicy)
  obtain ⟨hcreated, -⟩ := calls_once openPolicy
  obtain ⟨-, hresubmitted, -⟩ := calls_once patientPolicy
  obtain ⟨-, -, hupdated⟩ := calls_once openPolicy
  have hdraft : Holds (run openPolicy [signedCall]) (billIn .draft) :=
    holds_of_recordAt? recordAt?_signedCall
  obtain ⟨o, ho⟩ := ((wellKept_run openPolicy [signedCall]).outcome_update_iff
    (update?_moveBill "submitted")).1.2 ⟨_, _, _, rfl, hdraft, rfl, rfl, rfl⟩
  exact ⟨(hcreated [] [moveBill "submitted"] _ _ _ _ _ creates_signedCall creates_signedCall rfl
      (by decide) outcome_signedCall).1,
    (hresubmitted chargedCalls [] _ _ _ _ hanswer hanswer hanswered).1,
    (hupdated [signedCall] [signedCall] _ _ _ _ o (update?_moveBill "submitted")
      (update?_moveBill "submitted") ho rfl).1⟩

end TollClearing.House
