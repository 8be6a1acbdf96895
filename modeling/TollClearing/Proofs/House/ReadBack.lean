import TollClearing.Proofs.House.Run

/-!
A call changes one slot at most, and none if it fails or only reads. What a call has written is
what it answers, and what the next call that asks for the record finds.
-/

set_option autoImplicit false

namespace TollClearing

theorem Key.partition_ne_empty (domain a b : String) : Key.partition domain a b ≠ "" := by
  intro h
  obtain ⟨names, e⟩ := Key.exists_toList_partition domain a b
  simp [h] at e

namespace Record

theorem key_ne_empty (r : Record) : r.key ≠ "" := by
  intro h
  have htoList := congrArg String.toList h
  cases r <;> simp [key, Key.agency, Key.tag, Key.charge, Key.correction, Key.reconciliation,
    Key.acknowledgement, Key.settlement, Key.compose, Key.separator,
    String.intercalate_cons_cons] at htoList

theorem checkSlot_slot (r : Record) : Ledger.checkSlot r.slot = .ok () := by
  have hkey := r.key_ne_empty
  cases r <;> simp [Ledger.checkSlot, slot, scope, partition?, Ledger.checkScope, hkey,
    Key.chargePartition, Key.settlementPartition, Key.partition_ne_empty]

/-- The calls that ask for a record by what identifies it. Of two agencies either may be named
first. -/
def getCalls : Record → List (String × List String)
  | .agency a => [("GetAgency", [a.id])]
  | .tag t => [("GetTag", [t.agency, t.serial])]
  | .charge c =>
    [("GetCharge", [c.away, c.home, c.id]), ("GetCharge", [c.home, c.away, c.id])]
  | .correction c =>
    let number := String.ofList (Text.digits c.number.toNat)
    [("GetCorrection", [c.away, c.home, c.charge, number]),
      ("GetCorrection", [c.home, c.away, c.charge, number])]
  | .reconciliation r =>
    [("GetReconciliation", [r.away, r.home, r.charge]),
      ("GetReconciliation", [r.home, r.away, r.charge])]
  | .acknowledgement a => [("GetAcknowledgement", [a.id])]
  | .settlement s =>
    [("GetSettlement", [s.payor, s.payee, s.id]), ("GetSettlement", [s.payee, s.payor, s.id])]

end Record

namespace House

theorem Function.number_digits (parameter : String) (n : UInt32) :
    Function.number parameter (String.ofList (Text.digits n.toNat)) = .ok n.toNat := by
  have hlt : n.toNat < 4294967296 := n.toNat_lt
  simp [Function.number, Text.unsigned?_digits hlt]

theorem Function.chargeSlot_comm (a b key : String) :
    Function.chargeSlot a b key = Function.chargeSlot b a key := by
  simp [Function.chargeSlot, Key.chargePartition, Key.partition_comm _ a b]

theorem Function.settlementSlot_comm (a b key : String) :
    Function.settlementSlot a b key = Function.settlementSlot b a key := by
  simp [Function.settlementSlot, Key.settlementPartition, Key.partition_comm _ a b]

section Lookups

variable {l : Ledger} {p : Policy} {now : Instant}

theorem lookUp_eq_find? {slot : Slot} (h : Ledger.checkSlot slot = .ok ()) :
    lookUp l slot = .ok (l.find? slot) := by
  simp [lookUp, Ledger.get, h, bind, Except.bind]

theorem lookUp_slot (l : Ledger) (r : Record) : lookUp l r.slot = .ok (l.find? r.slot) :=
  lookUp_eq_find? r.checkSlot_slot

theorem valueIn_slot {r : Record} {bytes : ByteArray} (h : l.find? r.slot = some bytes) :
    valueIn l r.slot = .ok bytes := by
  simp [valueIn, lookUp_slot, h, bind, Except.bind]

theorem readAs_of_toOption {R : Type} [Recorded R] {bytes : ByteArray} {a : R}
    (h : (Record.decodeTo R bytes).toOption = some a) (key : String) :
    readAs R key bytes = .ok a := by
  unfold readAs
  cases hdecode : Record.decodeTo R bytes with
  | error m => simp [hdecode, Except.toOption] at h
  | ok b =>
    rw [hdecode] at h
    exact congrArg Except.ok (Option.some.inj h)

theorem readAs_encode {R : Type} [Recorded R] {r : Record} {a : R}
    (ha : Recorded.ofRecord? r.asRead = some a) (key : String) : readAs R key r.encode = .ok a :=
  readAs_of_toOption ((r.held_encode.toOption_decodeTo R).trans ha) key

theorem fetch_slot {R : Type} [Recorded R] {r : Record} {a : R}
    (hfind : l.find? r.slot = some r.encode) (ha : Recorded.ofRecord? r.asRead = some a) :
    fetch R l r.slot = .ok a := by
  simp only [fetch, valueIn_slot hfind, bind, Except.bind, readAs_encode ha]

theorem insert_of_free {r : Record} (hfind : l.find? r.slot = none)
    (hreferences : checkReferences p l r = .ok ()) :
    insert p now l r = .ok (.stored r.slot (r.stampCreated now)) := by
  simp only [insert, lookUp_slot, hfind, hreferences, bind, Except.bind]

theorem insert_of_taken {r : Record} {bytes : ByteArray} (hfind : l.find? r.slot = some bytes) :
    insert p now l r = .error (.present r.key) := by
  simp only [insert, lookUp_slot, hfind, bind, Except.bind]

theorem create_of_taken {r : Record} {bytes : ByteArray} (hvalid : r.validate = .ok ())
    (hinitial : checkInitial r = .ok ()) (hfind : l.find? r.slot = some bytes)
    (hkind : r.docType = .reconciliation → p.resubmission = .strict) :
    create p now l r = .error (.present r.key) := by
  simp only [create, hvalid, accepted, hinitial, bind, Except.bind]
  split
  · rename_i hsupersede
    cases (hkind rfl).symm.trans hsupersede
  · exact insert_of_taken hfind

/-- A new record is stored exactly if it obeys the rules, what it refers to is there, and there is a
place for it. -/
theorem create_eq_ok_iff {r : Record} {o : Outcome} : create p now l r = .ok o ↔
    r.validate = .ok () ∧ checkInitial r = .ok () ∧ checkReferences p l r = .ok () ∧
      ∃ created, Placed p now l r created ∧
        o = .stored r.slot (r.withTimes (some created) (some now)) := by
  refine ⟨create_eq_ok, ?_⟩
  rintro ⟨hvalid, hinitial, hreferences, created, hplaced, rfl⟩
  simp only [create, hvalid, accepted, hinitial, bind, Except.bind]
  cases hplaced with
  | free hfind =>
    have hinserted : insert p now l r = .ok (.stored r.slot (r.stampCreated now)) :=
      insert_of_free hfind hreferences
    split
    · simp only [supersede, lookUp_slot, hfind, bind, Except.bind]
      exact hinserted
    · exact hinserted
  | superseding hpolicy hfind hfirst hmore =>
    simp only [hpolicy, supersede, lookUp_slot, hfind, readAs, hfirst, UInt32.not_le.2 hmore,
      hreferences, bind, Except.bind, if_false]

theorem advance_slot {R σ : Type} [Code σ] [DecidableEq σ] [Staged R σ] {r : Record} {a : R}
    {source target : σ} (hfind : l.find? r.slot = some r.encode)
    (ha : Recorded.ofRecord? r.asRead = some a) (hstatus : Staged.status a = some source)
    (hcheck : (Staged.transitions R).check source target = .ok ()) :
    advance R now l r.slot target = .ok (.stored r.slot
      ((Recorded.toRecord (Staged.withStatus target a)).stampUpdated now)) := by
  simp only [advance, fetch_slot hfind ha, bind, Except.bind, hstatus, hcheck]

theorem readRecord_encode (r : Record) (key : String) :
    readRecord r.docType key r.encode = .ok r.asRead := by
  rw [readRecord, r.held_encode.decodeAs_eq, if_pos rfl]

theorem process_get {r : Record} {bytes : ByteArray} (hfind : l.find? r.slot = some bytes)
    (h : r.Held bytes) : process p now l (.get r.docType r.slot) = .ok (.found r.asRead) := by
  have hread : readRecord r.docType r.slot.key bytes = .ok r.asRead := by
    rw [readRecord, h.decodeAs_eq, if_pos rfl]
  simp only [process, valueIn_slot hfind, hread, bind, Except.bind]

end Lookups

theorem exists_request_of_mem_getCalls {r : Record} {call : String × List String}
    (h : call ∈ r.getCalls) : ∃ f, Function.ofName? call.1 = some f ∧
      f.request call.2 = .ok (.get r.docType r.slot) := by
  cases r with
  | agency a =>
    obtain rfl := List.mem_singleton.1 h
    exact ⟨_, rfl, rfl⟩
  | tag t =>
    obtain rfl := List.mem_singleton.1 h
    exact ⟨_, rfl, rfl⟩
  | charge c =>
    rcases List.mem_pair.1 h with rfl | rfl
    · exact ⟨_, rfl, rfl⟩
    · refine ⟨_, rfl, ?_⟩
      change Except.ok (Request.get .charge
        (Function.chargeSlot c.home c.away (Key.charge c.id))) = _
      rw [Function.chargeSlot_comm]
      rfl
  | correction c =>
    have hnumber : ∀ a b, (Function.number "correctionSeqNo"
        (String.ofList (Text.digits c.number.toNat)) >>= fun n => Except.ok
          (Request.get .correction (Function.chargeSlot a b (Key.correction c.charge n))))
        = .ok (.get .correction
          (Function.chargeSlot a b (Key.correction c.charge c.number.toNat))) := by
      intro a b
      rw [Function.number_digits]
      rfl
    rcases List.mem_pair.1 h with rfl | rfl
    · exact ⟨_, rfl, hnumber c.away c.home⟩
    · refine ⟨_, rfl, (hnumber c.home c.away).trans ?_⟩
      rw [Function.chargeSlot_comm]
      rfl
  | reconciliation c =>
    rcases List.mem_pair.1 h with rfl | rfl
    · exact ⟨_, rfl, rfl⟩
    · refine ⟨_, rfl, ?_⟩
      change Except.ok (Request.get .reconciliation
        (Function.chargeSlot c.home c.away (Key.reconciliation c.charge))) = _
      rw [Function.chargeSlot_comm]
      rfl
  | acknowledgement a =>
    obtain rfl := List.mem_singleton.1 h
    exact ⟨_, rfl, rfl⟩
  | settlement s =>
    rcases List.mem_pair.1 h with rfl | rfl
    · exact ⟨_, rfl, rfl⟩
    · refine ⟨_, rfl, ?_⟩
      change Except.ok (Request.get .settlement
        (Function.settlementSlot s.payee s.payor (Key.settlement s.id))) = _
      rw [Function.settlementSlot_comm]
      rfl

theorem apply_of_not_stored {l : Ledger} {o : Outcome} (h : ∀ slot r, o ≠ .stored slot r) :
    o.apply l = l := by
  cases o with
  | stored slot r => exact absurd rfl (h slot r)
  | _ => rfl

theorem mem_all_of_ofName? {name : String} {f : Function} (h : Function.ofName? name = some f) :
    f ∈ Function.all := List.mem_of_find?_eq_some h

theorem name_of_ofName? {name : String} {f : Function} (h : Function.ofName? name = some f) :
    f.name = name := by simpa using List.find?_some h

theorem Call.step_of_reads {p : Policy} {l : Ledger} {c : Call}
    (h : ∀ f, Function.ofName? c.name = some f → f.writes = false) : c.step p l = l := by
  cases houtcome : c.outcome p l with
  | error f => exact Call.step_of_error houtcome
  | ok o =>
    obtain ⟨f, request, hname, hrequest, hprocess⟩ := Call.outcome_eq_ok houtcome
    have hreads : request.writes = false :=
      (Function.writes_request (mem_all_of_ofName? hname) hrequest).trans (h f hname)
    rw [Call.step_of_ok houtcome]
    exact apply_of_not_stored (process_reads hreads hprocess)

/-- A successful call of a function that writes puts one record in order into its slot. -/
theorem Call.outcome_of_writes {p : Policy} {l : Ledger} {c : Call} {f : Function} {o : Outcome}
    (hl : WellKept l) (hname : Function.ofName? c.name = some f) (hwrites : f.writes = true)
    (h : c.outcome p l = .ok o) : ∃ r, o = .stored r.slot r ∧ InOrder r := by
  obtain ⟨f', request, hname', hrequest, hprocess⟩ := Call.outcome_eq_ok h
  obtain rfl : f = f' := Option.some.inj (hname.symm.trans hname')
  have hrequestWrites : request.writes = true :=
    (Function.writes_request (mem_all_of_ofName? hname) hrequest).trans hwrites
  obtain ⟨slot, r, rfl⟩ := process_writes hrequestWrites hprocess
  obtain ⟨rfl, hr⟩ := process_stored hl hprocess
  exact ⟨r, rfl, hr⟩

/-- A call for a record that has just been written finds it, but for the signs of zero amounts. -/
theorem outcome_get_write {p : Policy} {now : Instant} {l : Ledger} {r : Record}
    (get : String × List String) (h : get ∈ r.getCalls) :
    (Call.mk now get.1 get.2).outcome p (l.write r.slot r.encode) = .ok (.found r.asRead) := by
  obtain ⟨f, hname, hrequest⟩ := exists_request_of_mem_getCalls h
  exact (Call.outcome_of_request hname hrequest).trans
    (process_get (l.find?_write r.slot r.encode) r.held_encode)

/-- A call that fails or only reads leaves every ledger as it was. A call that writes, after any
run, changes the slot of the record that it answers alone; there its answer is found byte for byte,
and the next call that asks for the record answers the same, but for the signs of zero amounts. -/
theorem step_writes_answer (p : Policy) :
    (∀ (l : Ledger) (c : Call), ((∃ fault, c.outcome p l = .error fault) ∨
        ∀ f, Function.ofName? c.name = some f → f.writes = false) → c.step p l = l) ∧
      ∀ (calls : List Call) (c : Call) (f : Function) (o : Outcome),
        Function.ofName? c.name = some f → f.writes = true → c.outcome p (run p calls) = .ok o →
        ∃ r, o = .stored r.slot r ∧
          (∀ slot, slot ≠ r.slot → (c.step p (run p calls)).find? slot = (run p calls).find? slot) ∧
          (c.step p (run p calls)).find? r.slot = some o.text.toUTF8 ∧
          (∀ get ∈ r.getCalls, ∀ now,
            (Call.mk now get.1 get.2).outcome p (c.step p (run p calls))
              = .ok (.found r.asRead)) ∧
          (r.NoSignedZero → (Outcome.found r.asRead).text = o.text) := by
  refine ⟨?_, ?_⟩
  · rintro l c (⟨fault, hfault⟩ | hreads)
    · exact Call.step_of_error hfault
    · exact Call.step_of_reads hreads
  · intro calls c f o hname hwrites houtcome
    obtain ⟨r, rfl, -⟩ := Call.outcome_of_writes (wellKept_run p calls) hname hwrites houtcome
    have hstep : c.step p (run p calls) = (run p calls).write r.slot r.encode :=
      Call.step_of_ok houtcome
    rw [hstep]
    exact ⟨r, rfl, fun slot hslot => Ledger.find?_write_of_ne hslot,
      Ledger.find?_write _ _ _, fun get hget now => outcome_get_write get hget,
      fun hzero => congrArg Record.text (Record.asRead_eq_self hzero)⟩

theorem outcome_signedCall_again :
    signedCall.outcome openPolicy (run openPolicy [signedCall])
      = .error (.present signedRecord.key) := by
  have hfind : (run openPolicy [signedCall]).find? (Record.settlement signedBill).slot
      = some signedRecord.encode := by
    rw [run_signedCall]
    exact Ledger.find?_write _ _ _
  exact (Call.outcome_create rfl ofPayload_signedMembers).trans
    (create_of_taken rfl rfl hfind nofun)

theorem signedCall_writes_answer :
    signedCall.step openPolicy (run openPolicy [signedCall]) = run openPolicy [signedCall] ∧
      ∃ r, Outcome.stored signedRecord.slot signedRecord = .stored r.slot r ∧
        (∀ slot, slot ≠ r.slot →
          (signedCall.step openPolicy (run openPolicy [])).find? slot
            = (run openPolicy []).find? slot) ∧
        (signedCall.step openPolicy (run openPolicy [])).find? r.slot
          = some (Outcome.stored signedRecord.slot signedRecord).text.toUTF8 ∧
        (∀ get ∈ r.getCalls, ∀ now,
          (Call.mk now get.1 get.2).outcome openPolicy
            (signedCall.step openPolicy (run openPolicy [])) = .ok (.found r.asRead)) ∧
        (r.NoSignedZero → (Outcome.found r.asRead).text
          = (Outcome.stored signedRecord.slot signedRecord).text) :=
  ⟨(step_writes_answer openPolicy).1 _ signedCall (.inl ⟨_, outcome_signedCall_again⟩),
    (step_writes_answer openPolicy).2 [] signedCall _ _ rfl rfl outcome_signedCall⟩

/-- A call that asks for the record that has just been written, and answers another text. -/
theorem exists_get_not_answer :
    ∃ (p : Policy) (calls : List Call) (c get : Call) (o found : Outcome) (f : Function),
      Function.ofName? c.name = some f ∧ f.writes = true ∧ c.outcome p (run p calls) = .ok o ∧
        (∃ r, o = .stored r.slot r ∧ (get.name, get.arguments) ∈ r.getCalls) ∧
        get.outcome p (c.step p (run p calls)) = .ok found ∧ found.text ≠ o.text := by
  have hget : ("GetSettlement", ["A", "B", "S1"]) ∈ signedRecord.getCalls := List.mem_cons_self
  refine ⟨openPolicy, [], signedCall, ⟨signedTime, "GetSettlement", ["A", "B", "S1"]⟩, _,
    .found signedRecord.asRead, _, rfl, rfl, outcome_signedCall, ⟨signedRecord, rfl, hget⟩, ?_,
    text_signedRecord.symm⟩
  rw [run, List.foldl_nil, Call.step_of_ok outcome_signedCall, Outcome.apply]
  exact outcome_get_write ("GetSettlement", ["A", "B", "S1"]) hget

end House

end TollClearing
