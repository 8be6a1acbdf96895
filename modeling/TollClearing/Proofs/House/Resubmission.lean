import TollClearing.Proofs.House.Reference

/-!
Resubmission. A charge is answered by one reconciliation at a time. It stays as it is, or, where the
policy allows it, makes way for one that has been resubmitted more often and that takes over the
time of the first one's creation.
-/

set_option autoImplicit false

namespace TollClearing.House

section Places

variable {p : Policy} {now : Instant} {l : Ledger} (hl : WellKept l)

include hl

theorem WellKept.exists_reconciliation {slot : Slot} {r : Reconciliation}
    (h : recordAt? l slot = some (.reconciliation r)) :
    ∃ bytes, l.find? slot = some bytes ∧ Record.decodeTo Reconciliation bytes = .ok r ∧
      r.createdAt.isSome := by
  obtain ⟨s, hfind, hs, -, horder⟩ := hl.exists_of_recordAt? h
  have hread : readAs Reconciliation slot.key s.encode = .ok r :=
    readAs_encode (Recorded.ofRecord?_eq_some_iff.2 hs) slot.key
  have hcreated := horder.createdAt
  rw [← Record.createdAt_asRead, hs] at hcreated
  exact ⟨_, hfind, readAs_eq_ok hread, hcreated⟩

/-- A record is placed where a reconciliation lies exactly if it is one that has been resubmitted
more often, and the policy allows it. -/
theorem WellKept.placed_iff {new : Record} {first : Reconciliation} {created : Instant}
    (h : recordAt? l new.slot = some (.reconciliation first)) :
    Placed p now l new created ↔ p.resubmission = .supersede ∧ first.createdAt = some created ∧
      ∃ r, new = .reconciliation r ∧ first.resubmissions < r.resubmissions := by
  obtain ⟨bytes, hfind, hfirst, hcreated⟩ := hl.exists_reconciliation h
  obtain ⟨t, ht⟩ := Option.isSome_iff_exists.1 hcreated
  constructor
  · intro hplaced
    cases hplaced with
    | free hfree => cases hfind.symm.trans hfree
    | superseding hpolicy hbytes hdecode hmore =>
      obtain rfl := Option.some.inj (hfind.symm.trans hbytes)
      obtain rfl := Except.ok.inj (hfirst.symm.trans hdecode)
      exact ⟨hpolicy, by rw [ht, Option.getD_some], _, rfl, hmore⟩
  · rintro ⟨hpolicy, hcreated, r, rfl, hmore⟩
    have hplaced : Placed p now l (.reconciliation r) (first.createdAt.getD now) :=
      .superseding hpolicy hfind hfirst hmore
    rwa [hcreated] at hplaced

end Places

/-- What becomes of the reconciliation of a slot, `r` in one ledger and `r'` in a later one. -/
structure Renewal (p : Policy) (slot : Slot) (l l' : Ledger) (r r' : Reconciliation) : Prop where
  createdAt_eq : r'.createdAt = r.createdAt
  kept_or_more : l'.find? slot = l.find? slot ∧ r' = r ∨
    p.resubmission = .supersede ∧ r.resubmissions < r'.resubmissions

theorem Renewal.trans {p : Policy} {slot : Slot} {l l' l'' : Ledger} {r r' r'' : Reconciliation}
    (h : Renewal p slot l l' r r') (h' : Renewal p slot l' l'' r' r'') :
    Renewal p slot l l'' r r'' where
  createdAt_eq := h'.createdAt_eq.trans h.createdAt_eq
  kept_or_more := by
    obtain ⟨hfind, rfl⟩ | ⟨hpolicy, hmore⟩ := h.kept_or_more
    · rw [← hfind]
      exact h'.kept_or_more
    · obtain ⟨-, rfl⟩ | ⟨-, hagain⟩ := h'.kept_or_more
      · exact .inr ⟨hpolicy, hmore⟩
      · exact .inr ⟨hpolicy, UInt32.lt_trans hmore hagain⟩

section Steps

variable {p : Policy} {l : Ledger} (hl : WellKept l)

include hl

/-- A call leaves a reconciliation alone or replaces it: no state of it can be moved. -/
theorem WellKept.renewal_step {slot : Slot} {r : Reconciliation}
    (h : recordAt? l slot = some (.reconciliation r)) (c : Call) :
    ∃ r', recordAt? (c.step p l) slot = some (.reconciliation r') ∧
      Renewal p slot l (c.step p l) r r' := by
  obtain hsame | ⟨s, state, _, hfind, hstate, -⟩ | ⟨new, created, rfl, -, hplaced, hnew⟩ :=
    hl.find?_step (p := p) c slot
  · exact ⟨r, by rwa [recordAt?, hsame], rfl, .inl ⟨hsame, rfl⟩⟩
  · -- a record that moves has a state
    have hs : s.asRead = .reconciliation r :=
      Option.some.inj ((recordAt?_of_find? hfind).symm.trans h)
    rw [← Record.state?_asRead, hs] at hstate
    cases hstate
  · obtain ⟨hpolicy, hcreated, r', rfl, hmore⟩ := (hl.placed_iff h).1 hplaced
    exact ⟨_, recordAt?_of_find? hnew, hcreated.symm, .inr ⟨hpolicy, hmore⟩⟩

omit hl in
theorem WellKept.renewal_foldl (hl : WellKept l) {slot : Slot} {r : Reconciliation}
    (h : recordAt? l slot = some (.reconciliation r)) (calls : List Call) :
    ∃ r', recordAt? (calls.foldl (Call.step p) l) slot = some (.reconciliation r') ∧
      Renewal p slot l (calls.foldl (Call.step p) l) r r' := by
  induction calls generalizing l r with
  | nil => exact ⟨r, h, rfl, .inl ⟨rfl, rfl⟩⟩
  | cons c calls ih =>
    obtain ⟨r', hr', hfirst⟩ := hl.renewal_step (p := p) h c
    obtain ⟨r'', hr'', hrest⟩ := ih (hl.step c) hr'
    exact ⟨r'', hr'', hfirst.trans hrest⟩

theorem WellKept.times_of_new {slot : Slot} {c : Call} {r : Reconciliation}
    (hnone : l.find? slot = none) (h : recordAt? (c.step p l) slot = some (.reconciliation r)) :
    r.createdAt = some c.now ∧ r.updatedAt = some c.now := by
  obtain ⟨new, o, -, hr⟩ := hl.exists_create_of_new hnone h
  have hcreated := congrArg Record.createdAt hr
  have hupdated := congrArg Record.updatedAt hr
  rw [Record.createdAt_asRead, Record.createdAt_withTimes] at hcreated
  rw [Record.updatedAt_asRead, Record.updatedAt_withTimes] at hupdated
  exact ⟨hcreated, hupdated⟩

end Steps

/-- A reconciliation for a charge that has one is stored exactly if it obeys the rules, names the
agencies as the charge does, and has been resubmitted more often. -/
theorem WellKept.create_again_iff {known : Prop} {p : Policy} {l : Ledger} (hl : WellKept l)
    (hclosed : Closed known l) (hpolicy : p.resubmission = .supersede) {r first : Reconciliation}
    (h : recordAt? l (Record.reconciliation r).slot = some (.reconciliation first)) :
    ∃ c : Charge, recordAt? l ⟨(Record.reconciliation r).scope, Key.charge r.charge⟩
        = some (.charge c) ∧ c.id = r.charge ∧
      ∀ now o, create p now l (.reconciliation r) = .ok o ↔
        ((Record.reconciliation r).validate = .ok () ∧ (c.away = r.away ∧ c.home = r.home) ∧
          first.resubmissions < r.resubmissions) ∧
        o = .stored (Record.reconciliation r).slot
          ((Record.reconciliation r).withTimes first.createdAt (some now)) := by
  have hidentity : (Record.reconciliation first).identity = (Record.reconciliation r).identity :=
    hl.identity_of_recordAt? h
  obtain ⟨hparties, hcharge⟩ := Identity.reconciliation.inj hidentity
  -- the charge of the first one is the charge of the new one, whichever agency that names first
  obtain ⟨c, hc, hname⟩ := (hclosed _ _ h).1 ⟨first.charge, first.away, first.home⟩ rfl
  have hslot : (Identity.charge s(first.away, first.home) first.charge).slot
      = (Identity.charge s(r.away, r.home) r.charge).slot := by rw [hparties, hcharge]
  have hheld : recordAt? l (Identity.charge s(r.away, r.home) r.charge).slot = some (.charge c) :=
    hslot ▸ hc
  have hid : c.id = r.charge := (congrArg ChargeName.id hname).trans hcharge
  have hreferences : checkReferences p l (.reconciliation r) = .ok () ↔
      c.away = r.away ∧ c.home = r.home := by
    refine (hl.requireCharge_eq_ok_iff (n := ⟨r.charge, r.away, r.home⟩)).trans ⟨?_, ?_⟩
    · rintro ⟨c', hc', hname'⟩
      obtain rfl := Record.charge.inj (Option.some.inj (hheld.symm.trans hc'))
      obtain ⟨-, haway, hhome⟩ := ChargeName.mk.inj hname'
      exact ⟨haway, hhome⟩
    · rintro ⟨haway, hhome⟩
      exact ⟨c, hheld, ChargeName.ext hid haway hhome⟩
  refine ⟨c, hheld, hid, fun now o => ?_⟩
  rw [create_eq_ok_iff, hreferences]
  constructor
  · rintro ⟨hvalid, -, hsame, created, hplaced, rfl⟩
    obtain ⟨-, hcreated, r', hr', hmore⟩ := (hl.placed_iff h).1 hplaced
    obtain rfl := Record.reconciliation.inj hr'
    exact ⟨⟨hvalid, hsame, hmore⟩, by rw [hcreated]⟩
  · rintro ⟨⟨hvalid, hsame, hmore⟩, rfl⟩
    obtain ⟨_, -, -, hcreated⟩ := hl.exists_reconciliation h
    obtain ⟨created, hcreated⟩ := Option.isSome_iff_exists.1 hcreated
    exact ⟨hvalid, rfl, hsame, created, (hl.placed_iff h).2 ⟨hpolicy, hcreated, r, rfl, hmore⟩,
      by rw [hcreated]⟩

/-- What a call with a further reconciliation `r` of a charge does, where `first` is held: all that
decides whether it succeeds, and what lies in the slot afterwards. -/
structure Resubmitted (p : Policy) (l : Ledger) (c : Call) (r first : Reconciliation)
    (charge : Charge) : Prop where
  ok_iff : (∃ o, c.outcome p l = .ok o) ↔ (Record.reconciliation r).validate = .ok () ∧
    (charge.away = r.away ∧ charge.home = r.home) ∧ first.resubmissions < r.resubmissions
  find?_eq : (∃ o, c.outcome p l = .ok o) → (c.step p l).find? (Record.reconciliation r).slot
    = some ((Record.reconciliation r).withTimes first.createdAt (some c.now)).encode
  step_eq : (¬ ∃ o, c.outcome p l = .ok o) → c.step p l = l

theorem WellKept.resubmitted {known : Prop} {p : Policy} {l : Ledger} (hl : WellKept l)
    (hclosed : Closed known l) (hpolicy : p.resubmission = .supersede) {payload : String}
    {r first : Reconciliation}
    (hpayload : Record.ofPayload .reconciliation payload = .ok (.reconciliation r))
    (h : recordAt? l (Record.reconciliation r).slot = some (.reconciliation first)) :
    ∃ charge : Charge, recordAt? l ⟨(Record.reconciliation r).scope, Key.charge r.charge⟩
        = some (.charge charge) ∧ charge.id = r.charge ∧
      ∀ now, Resubmitted p l ⟨now, "CreateReconciliation", [payload]⟩ r first charge := by
  obtain ⟨charge, hcharge, hid, hcreate⟩ := hl.create_again_iff hclosed hpolicy h
  refine ⟨charge, hcharge, hid, fun now => ?_⟩
  have houtcome : (Call.mk now "CreateReconciliation" [payload]).outcome p l
      = create p now l (.reconciliation r) := Call.outcome_create rfl hpayload
  constructor
  · simp only [houtcome, hcreate, exists_and_left, exists_eq, and_true]
  · rintro ⟨o, ho⟩
    obtain ⟨-, rfl⟩ := (hcreate now o).1 (houtcome.symm.trans ho)
    rw [Call.step_of_ok ho, Outcome.apply, Ledger.find?_write]
  · intro hfailed
    cases hresult : (Call.mk now "CreateReconciliation" [payload]).outcome p l with
    | ok o => exact absurd ⟨o, hresult⟩ hfailed
    | error fault => exact Call.step_of_error hresult

/-- After every run there is at most one reconciliation of a charge. The first one is created and
written at the time of its call. From then on it keeps the time of its creation, and either stays as
it is, which is all that the strict policy allows, or has been replaced by one that has been
resubmitted more often. Under the other policy a further one is stored exactly if it obeys the
rules, names the agencies as the charge does, and has been resubmitted more often than the one that
is held; it then replaces all of it but the time of its creation, and otherwise nothing changes. -/
theorem reconciliations_renewed (p : Policy) :
    (∀ (calls : List Call) (parties : Sym2 String) (id : String) (slot slot' : Slot)
        (r r' : Record), recordAt? (run p calls) slot = some r →
        recordAt? (run p calls) slot' = some r' → r.identity = .reconciliation parties id →
        r'.identity = .reconciliation parties id → slot = slot' ∧ r = r') ∧
      (∀ (before : List Call) (c : Call) (slot : Slot) (r : Reconciliation),
        (run p before).find? slot = none →
        recordAt? (run p (before ++ [c])) slot = some (.reconciliation r) →
          r.createdAt = some c.now ∧ r.updatedAt = some c.now) ∧
      (∀ (before between : List Call) (slot : Slot) (r : Reconciliation),
        recordAt? (run p before) slot = some (.reconciliation r) → ∃ r',
          recordAt? (run p (before ++ between)) slot = some (.reconciliation r') ∧
          Renewal p slot (run p before) (run p (before ++ between)) r r' ∧
          (p.resubmission = .strict →
            (run p (before ++ between)).find? slot = (run p before).find? slot)) ∧
      ∀ (before : List Call) (payload : String) (r first : Reconciliation),
        p.resubmission = .supersede →
        Record.ofPayload .reconciliation payload = .ok (.reconciliation r) →
        recordAt? (run p before) (Record.reconciliation r).slot = some (.reconciliation first) →
          ∃ charge : Charge,
            recordAt? (run p before) ⟨(Record.reconciliation r).scope, Key.charge r.charge⟩
              = some (.charge charge) ∧ charge.id = r.charge ∧
            ∀ now, Resubmitted p (run p before) ⟨now, "CreateReconciliation", [payload]⟩ r first
              charge := by
  refine ⟨fun calls parties id slot slot' r r' h h' hr hr' => ?_,
    fun before c slot r hnone h => ?_, fun before between slot r h => ?_,
    fun before payload r first hpolicy hpayload h => ?_⟩
  · have hkept := wellKept_run p calls
    obtain rfl : slot = slot' := by
      rw [← hkept.slot_of_recordAt? h, ← hkept.slot_of_recordAt? h', ← r.slot_identity,
        ← r'.slot_identity, hr, hr']
    exact ⟨rfl, Option.some.inj (h.symm.trans h')⟩
  · rw [run_snoc] at h
    exact (wellKept_run p before).times_of_new hnone h
  · obtain ⟨r', hr', hrenewal⟩ := (wellKept_run p before).renewal_foldl (p := p) h between
    rw [← run_append] at hr' hrenewal
    refine ⟨r', hr', hrenewal, fun hstrict => ?_⟩
    obtain ⟨hfind, -⟩ | ⟨hsupersede, -⟩ := hrenewal.kept_or_more
    · exact hfind
    · cases hstrict.symm.trans hsupersede
  · exact (wellKept_run p before).resubmitted (reachable_run p before).closed hpolicy hpayload h

def patientPolicy : Policy := { Policy.standard with resubmission := .supersede }

def firstAnswer : Reconciliation :=
  { tollAnswer 0 with createdAt := some signedTime, updatedAt := some signedTime }

theorem reconciliations_renewed_answeredCalls :
    let again := createCall signedTime (answer 1)
    (∀ slot r, recordAt? (run Policy.standard answeredCalls) slot = some r →
        r.identity = (answer 0).identity → slot = (answer 0).slot) ∧
      firstAnswer.createdAt = some signedTime ∧
      (run Policy.standard (answeredCalls ++ [again])).find? (answer 0).slot
        = (run Policy.standard answeredCalls).find? (answer 0).slot ∧
      (again.step patientPolicy (run patientPolicy answeredCalls)).find? (answer 1).slot
        = some ((answer 1).withTimes (some signedTime) (some signedTime)).encode := by
  intro again
  have hheld : ∀ p, recordAt? (run p answeredCalls) (answer 0).slot
      = some (.reconciliation firstAnswer) := recordAt?_answeredCalls
  obtain ⟨hone, hfirst, hlater, -⟩ := reconciliations_renewed Policy.standard
  obtain ⟨-, -, -, hagain⟩ := reconciliations_renewed patientPolicy
  obtain ⟨r', -, -, hstrict⟩ := hlater answeredCalls [again] (answer 0).slot firstAnswer (hheld _)
  have hpayload : Record.ofPayload .reconciliation (answer 1).text = .ok (answer 1) :=
    (answer 1).ofPayload_text .reconciliation
  obtain ⟨charge, hcharge, -, hresubmitted⟩ :=
    hagain answeredCalls (answer 1).text (tollAnswer 1) firstAnswer rfl hpayload (hheld _)
  have hparties : charge.away = "B" ∧ charge.home = "A" := by
    obtain ⟨c, hc, hname⟩ := (wellKept_run patientPolicy chargedCalls).holdsCharge_step
      (p := patientPolicy) (holdsCharge_chargedCalls patientPolicy)
      (createCall signedTime (answer 0))
    rw [← run_snoc] at hc
    obtain rfl := Record.charge.inj (Option.some.inj (hcharge.symm.trans hc))
    obtain ⟨-, haway, hhome⟩ := ChargeName.mk.inj hname
    exact ⟨haway, hhome⟩
  refine ⟨fun slot r h hr => ?_, ?_, hstrict rfl, ?_⟩
  · exact (hone answeredCalls _ _ slot _ r _ h (hheld _) hr rfl).1
  · exact (hfirst chargedCalls _ (answer 0).slot firstAnswer (free_chargedCalls _) (hheld _)).1
  · have hstored := hresubmitted signedTime
    exact hstored.find?_eq (hstored.ok_iff.2 ⟨rfl, hparties, by decide⟩)

end TollClearing.House
