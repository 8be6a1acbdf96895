import TollClearing.Proofs.House.Reference

/-!
What the policy decides. A policy is asked when a record is created and when records are listed, and
nowhere else. A stricter one only turns more creations down: what it lets pass comes to the same
under any other. The limit cuts the end off a list and changes nothing of what is left.
-/

set_option autoImplicit false

namespace TollClearing.House

/-- The policy has no say in what comes of the request. -/
def Request.Settled : Request → Prop
  | .get .. | .advance .. | .total _ => True
  | .create _ | .list .. => False

section Requests

variable {p q : Policy} {now : Instant} {l : Ledger}

theorem process_eq_of_settled {request : Request} (h : request.Settled) (p q : Policy)
    (now : Instant) (l : Ledger) : process p now l request = process q now l request := by
  cases request with
  | create r => cases h
  | get docType slot => rfl
  | advance slot move => cases move <;> rfl
  | list docType scope fields => cases h
  | total period => rfl

theorem requireAgency_relaxed (hverify : p.verify = true) {id : String}
    (h : requireAgency p l id = .ok ()) (q : Policy) : requireAgency q l id = .ok () := by
  rw [requireAgency, if_pos hverify] at h
  rw [requireAgency]
  split
  · exact h
  · rfl

theorem checkReferences_relaxed (hverify : p.verify = true) {r : Record}
    (h : checkReferences p l r = .ok ()) (q : Policy) : checkReferences q l r = .ok () := by
  cases r with
  | tag t =>
    simp only [checkReferences, bind_unit_eq_ok] at h ⊢
    obtain ⟨hissuer, hhome⟩ := h
    refine ⟨requireAgency_relaxed hverify hissuer q, ?_⟩
    split
    · rfl
    · rename_i hother
      rw [if_neg hother] at hhome
      exact requireAgency_relaxed hverify hhome q
  | charge c =>
    simp only [checkReferences, bind_unit_eq_ok] at h ⊢
    exact h.imp (requireAgency_relaxed hverify · q) (requireAgency_relaxed hverify · q)
  | settlement s =>
    simp only [checkReferences, bind_unit_eq_ok] at h ⊢
    exact h.imp (requireAgency_relaxed hverify · q) (requireAgency_relaxed hverify · q)
  | _ => exact h

/-- A record that is put into a free slot is put there under any policy: where a resubmission may
take the place of what is there, nothing is. -/
theorem create_relaxed (hstrict : p.resubmission = .strict) (hverify : p.verify = true)
    {r : Record} {o : Outcome} (h : create p now l r = .ok o) (q : Policy) :
    create q now l r = .ok o := by
  obtain ⟨hvalid, hinitial, hreferences, created, hplaced, rfl⟩ := create_eq_ok h
  refine create_eq_ok_iff.2
    ⟨hvalid, hinitial, checkReferences_relaxed hverify hreferences q, created, ?_, rfl⟩
  cases hplaced with
  | free hfind => exact .free hfind
  | superseding hpolicy => cases hstrict.symm.trans hpolicy

theorem list_take (hlimit : p.limit ≤ q.limit) {docType : DocType} {scope : Scope}
    {fields : List (String × String)} {rs : List Record}
    (h : list q l docType scope fields = .ok (.listed rs)) :
    list p l docType scope fields = .ok (.listed (rs.take p.limit)) := by
  simp only [list, bind_eq_ok] at h ⊢
  obtain ⟨hits, hsearch, found, hfound, h⟩ := h
  obtain rfl := Outcome.listed.inj (Except.ok.inj h)
  refine ⟨hits.take p.limit, ?_, _, mapM_take hfound p.limit, rfl⟩
  simp only [search, Ledger.query] at hsearch ⊢
  cases hscope : Ledger.checkScope scope with
  | error e =>
    rw [hscope] at hsearch
    cases hsearch
  | ok _ =>
    rw [hscope] at hsearch
    obtain rfl := Except.ok.inj hsearch
    simp only [Ledger.select, Selector.atMost, List.take_take, Nat.min_eq_left hlimit]
    rfl

theorem process_relaxed (hstrict : p.resubmission = .strict) (hverify : p.verify = true)
    (hlimit : q.limit = p.limit) {request : Request} {o : Outcome}
    (h : process p now l request = .ok o) : process q now l request = .ok o := by
  by_cases hsettled : request.Settled
  · exact (process_eq_of_settled hsettled q p now l).trans h
  cases request with
  | create r => exact create_relaxed hstrict hverify h q
  | list docType scope fields =>
    have hsame : list q l docType scope fields = list p l docType scope fields := by
      rw [list, hlimit, ← list]
    exact hsame.trans h
  | _ => exact absurd trivial hsettled

end Requests

def settledNames : List String :=
  ["GetAgency", "GetTag", "GetCharge", "GetCorrection", "GetReconciliation", "GetAcknowledgement",
    "GetSettlement", "UpdateAgencyStatus", "UpdateTagStatus", "UpdateChargeStatus",
    "UpdateSettlementStatus", "CalculateSettlementTotals"]

def queryNames : List String :=
  ["QueryAgenciesByStatus", "QueryTagsByAgency", "QueryTagsByStatus", "QueryChargesByStatus",
    "QueryChargesByTag", "QueryCorrectionsByCharge", "QueryReconciliationsByDisposition",
    "QueryAcknowledgementsBySender", "QuerySettlementsByStatus"]

/-- All other functions create records. -/
example : (Function.all.map (·.name)).Perm
    ((Code.all : List DocType).map createName ++ settledNames ++ queryNames) := by decide +kernel

def Request.Lists : Request → Prop
  | .list .. => True
  | .create _ | .get .. | .advance .. | .total _ => False

theorem Function.request_of_name {f : Function} (h : f ∈ all) {arguments : List String}
    {request : Request} (hr : f.request arguments = .ok request) :
    (f.name ∈ settledNames → request.Settled) ∧ (f.name ∈ queryNames → request.Lists) := by
  have read : ∀ f ∈ all, ∀ a request, f.read a = .ok request →
      (f.name ∈ settledNames → request.Settled) ∧ (f.name ∈ queryNames → request.Lists) := by
    simp only [all, agencies, tags, charges, corrections, reconciliations, acknowledgements,
      settlements, createRecord, record, List.forall_mem_append, List.forall_mem_cons,
      List.not_mem_nil, false_implies, implies_true, and_true, bind, Except.bind]
    simp only [settledNames, queryNames, List.mem_cons, List.not_mem_nil, String.reduceEq, or_false,
      or_true, or_self, false_implies, true_implies, true_and, and_true, implies_true]
    and_intros <;> intro a request e <;> grind [Request.Settled, Request.Lists]
  rw [Function.request] at hr
  split at hr
  · exact read f h _ _ hr
  · cases hr

theorem Call.step_congr {p q : Policy} {l : Ledger} {c : Call} (h : c.outcome p l = c.outcome q l) :
    c.step p l = c.step q l := by
  rw [Call.step_eq, h, Call.step_eq]

section Calls

variable {p q : Policy} {l : Ledger} {c : Call}

theorem Call.outcome_relaxed (hstrict : p.resubmission = .strict) (hverify : p.verify = true)
    (hlimit : q.limit = p.limit) {o : Outcome} (h : c.outcome p l = .ok o) :
    c.outcome q l = .ok o := by
  obtain ⟨f, request, hname, hrequest, hprocess⟩ := Call.outcome_eq_ok h
  exact (Call.outcome_of_request hname hrequest).trans
    (process_relaxed hstrict hverify hlimit hprocess)

theorem Call.outcome_settled (h : c.name ∈ settledNames) (p q : Policy) :
    c.outcome p l = c.outcome q l := by
  rw [Call.outcome_eq, Call.outcome_eq]
  unfold invoke
  split
  · rfl
  · rename_i f hname
    cases hrequest : f.request c.arguments with
    | error fault => rfl
    | ok request =>
      have hsettled := (Function.request_of_name (mem_all_of_ofName? hname) hrequest).1
        (name_of_ofName? hname ▸ h)
      exact process_eq_of_settled hsettled p q c.now l

theorem WellKept.outcome_limited (hl : WellKept l) (hname : c.name ∈ queryNames)
    (hlimit : p.limit ≤ q.limit) :
    (∃ fault, c.outcome p l = .error fault ∧ c.outcome q l = .error fault) ∨
      ∃ rs : List Record, c.outcome q l = .ok (.listed rs) ∧
        c.outcome p l = .ok (.listed (rs.take p.limit)) := by
  cases hof : Function.ofName? c.name with
  | none => exact .inl ⟨_, Call.outcome_of_unknown hof, Call.outcome_of_unknown hof⟩
  | some f =>
    have hmem := mem_all_of_ofName? hof
    cases hrequest : f.request c.arguments with
    | error fault =>
      exact .inl ⟨fault, Call.outcome_of_no_request hof hrequest,
        Call.outcome_of_no_request hof hrequest⟩
    | ok request =>
      have hlists := (Function.request_of_name hmem hrequest).2
        (name_of_ofName? hof ▸ hname)
      have haddressed : Sound Request.Addressed (.ok request) :=
        hrequest ▸ f.sound_request hmem c.arguments
      cases haddressed with
      | ok haddressed =>
        cases haddressed with
        | query Q =>
          obtain ⟨rs, hlisted, -⟩ := hl.process_query q c.now Q
          exact .inr ⟨_, (Call.outcome_of_request hof hrequest).trans hlisted,
            (Call.outcome_of_request hof hrequest).trans (list_take hlimit hlisted)⟩
        | _ => cases hlists

end Calls

/-- In every ledger that calls lead to, what the strictest policy lets a call do it does under every
policy with the same limit. A call that asks for a record, moves one or bills a period comes to the
same under all policies. A list under a lower limit is the front of the list under a higher one. -/
theorem policies_relaxed {allowed : Policy → Prop} {l : Ledger} (hl : Reachable allowed l)
    (c : Call) :
    (∀ (p q : Policy) (o : Outcome), p.resubmission = .strict → p.verify = true →
      q.limit = p.limit → c.outcome p l = .ok o →
        c.outcome q l = .ok o ∧ c.step q l = c.step p l) ∧
    (c.name ∈ settledNames → ∀ p q : Policy,
      c.outcome p l = c.outcome q l ∧ c.step p l = c.step q l) ∧
    (c.name ∈ queryNames → ∀ p q : Policy, p.limit ≤ q.limit →
      (∃ fault, c.outcome p l = .error fault ∧ c.outcome q l = .error fault) ∨
        ∃ rs : List Record, c.outcome q l = .ok (.listed rs) ∧
          c.outcome p l = .ok (.listed (rs.take p.limit)) ∧
          (rs.take p.limit).length = min p.limit rs.length) := by
  refine ⟨?_, ?_, ?_⟩
  · intro p q o hstrict hverify hlimit h
    have hq := Call.outcome_relaxed hstrict hverify hlimit h
    exact ⟨hq, Call.step_congr (hq.trans h.symm)⟩
  · intro hname p q
    have hsame := Call.outcome_settled hname p q (l := l)
    exact ⟨hsame, Call.step_congr hsame⟩
  · intro hname p q hlimit
    refine (hl.wellKept.outcome_limited hname hlimit).imp id ?_
    rintro ⟨rs, hq, hp⟩
    exact ⟨rs, hq, hp, List.length_take ..⟩

def activeQuery : Call := ⟨signedTime, "QueryAgenciesByStatus", ["active"]⟩

theorem outcome_activeQuery (p : Policy) :
    activeQuery.outcome p (run Policy.standard chargedCalls)
      = .ok (.listed ([agencyA.stampCreated signedTime, agencyB.stampCreated signedTime].take
          p.limit)) := by
  have hrows : ((run Policy.standard chargedCalls).table .shared).rows
      = [agencyA.stampCreated signedTime, agencyB.stampCreated signedTime].map
          fun r => (r.key, r.encode) := by
    rw [run_chargedCalls, Ledger.table_write, run_knownCalls, Ledger.table_write, run_firstAgency,
      Ledger.table_write]
    rfl
  have hkept : ((stored Agency (run Policy.standard chargedCalls) .shared).filter
      (Query.agenciesIn .active).keeps).map Recorded.toRecord
        = [agencyA.stampCreated signedTime, agencyB.stampCreated signedTime] := by
    rw [stored_of_rows _ hrows]
    rfl
  have hasked : activeQuery.query? = some (.ok (.agenciesIn .active)) := rfl
  obtain ⟨f, hname, hrequest⟩ := request_query hasked
  rw [Call.outcome_of_request hname hrequest, ← hkept, ← List.map_take]
  exact (wellKept_run Policy.standard chargedCalls).list_query p (.agenciesIn .active)

/-- The charge that is answered is in the ledger, and policies that let more pass or list less are
put in the place of the standard one. -/
theorem policies_relaxed_answer :
    let l := run Policy.standard chargedCalls
    let lenient : Policy := ⟨.supersede, false, 1000⟩
    let brief : Policy := ⟨.supersede, false, 1⟩
    let create := createCall signedTime (answer 0)
    let get : Call := ⟨signedTime, "GetCharge", ["B", "A", "C1"]⟩
    (create.outcome lenient l
        = .ok (.stored (answer 0).slot ((answer 0).stampCreated signedTime)) ∧
      create.step lenient l = create.step Policy.standard l) ∧
    (get.outcome brief l = get.outcome Policy.standard l ∧
      get.step brief l = get.step Policy.standard l) ∧
    activeQuery.outcome Policy.standard l = .ok (.listed
      [agencyA.stampCreated signedTime, agencyB.stampCreated signedTime]) ∧
    activeQuery.outcome brief l = .ok (.listed [agencyA.stampCreated signedTime]) := by
  intro l lenient brief create get
  have hl := reachable_run Policy.standard chargedCalls
  have hcreated := outcome_createCall_of_free signedTime rfl rfl rfl
    (checkReferences_answer Policy.standard 0) (free_chargedCalls Policy.standard)
  have hlisted := outcome_activeQuery Policy.standard
  refine ⟨(policies_relaxed hl _).1 Policy.standard _ _ rfl rfl rfl hcreated,
    (policies_relaxed hl _).2.1 (by decide) _ _, hlisted, ?_⟩
  rcases (policies_relaxed hl activeQuery).2.2 (by decide) brief Policy.standard (by decide) with
    ⟨fault, -, hfault⟩ | ⟨rs, hrs, hbrief, -⟩
  · rw [hlisted] at hfault
    cases hfault
  · rw [hlisted] at hrs
    obtain rfl := Outcome.listed.inj (Except.ok.inj hrs)
    exact hbrief

end TollClearing.House
