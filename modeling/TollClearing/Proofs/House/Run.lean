import TollClearing.Proofs.House.Step

/-!
Runs of the clearing house: calls of functions one after another, from the empty ledger. After
every run each entry is the text of a record in order, and lies where the record belongs.
-/

set_option autoImplicit false

namespace TollClearing

def Scope.kinds : Scope → List DocType
  | .shared => [.agency, .tag, .acknowledgement]
  | .partition name =>
    if "charges_".toList.isPrefixOf name.toList then [.charge, .correction, .reconciliation]
    else if "settlements_".toList.isPrefixOf name.toList then [.settlement]
    else []

theorem Key.exists_toList_partition (domain a b : String) :
    ∃ names, (Key.partition domain a b).toList = domain.toList ++ '_' :: names := by
  unfold Key.partition
  split
  · exact ⟨(Key.compose [a, b]).toList, by
      simp [Key.compose, Key.separator, String.intercalate_cons_cons]⟩
  · exact ⟨(Key.compose [b, a]).toList, by
      simp [Key.compose, Key.separator, String.intercalate_cons_cons]⟩

theorem Scope.kinds_chargePartition (a b : String) :
    (Scope.partition (Key.chargePartition a b)).kinds
      = [.charge, .correction, .reconciliation] := by
  obtain ⟨names, e⟩ := Key.exists_toList_partition "charges" a b
  simp [Scope.kinds, Key.chargePartition, e]

theorem Scope.kinds_settlementPartition (a b : String) :
    (Scope.partition (Key.settlementPartition a b)).kinds = [.settlement] := by
  obtain ⟨names, e⟩ := Key.exists_toList_partition "settlements" a b
  simp [Scope.kinds, Key.settlementPartition, e]

theorem Record.docType_mem_kinds (r : Record) : r.docType ∈ r.scope.kinds := by
  cases r <;> simp [Record.scope, Record.partition?, Record.docType, Scope.kinds_chargePartition,
    Scope.kinds_settlementPartition] <;> simp [Scope.kinds]

namespace House

structure Call where
  now : Instant
  name : String
  arguments : List String

namespace Call

def exec (p : Policy) (l : Ledger) (c : Call) : Except Fault Outcome × Ledger :=
  (Transaction.invoke p c.now c.name c.arguments).exec l

def outcome (p : Policy) (l : Ledger) (c : Call) : Except Fault Outcome := (c.exec p l).1

/-- The ledger that a call leaves, also if it fails. -/
def step (p : Policy) (l : Ledger) (c : Call) : Ledger := (c.exec p l).2

variable {p : Policy} {l : Ledger} {c : Call}

theorem outcome_eq : c.outcome p l = invoke p c.now l c.name c.arguments :=
  congrArg Prod.fst (Transaction.comesTo_invoke p c.now l c.name c.arguments)

theorem step_eq : c.step p l = leaves l (c.outcome p l) := by
  rw [outcome_eq]
  exact congrArg Prod.snd (Transaction.comesTo_invoke p c.now l c.name c.arguments)

theorem step_of_ok {o : Outcome} (h : c.outcome p l = .ok o) : c.step p l = o.apply l := by
  rw [step_eq, h, leaves]

theorem step_of_error {f : Fault} (h : c.outcome p l = .error f) : c.step p l = l := by
  rw [step_eq, h, leaves]

theorem outcome_of_unknown (hname : Function.ofName? c.name = none) :
    c.outcome p l = .error (.unknownFunction c.name) := by
  rw [outcome_eq, invoke, hname]

theorem outcome_of_request {f : Function} {request : Request}
    (hname : Function.ofName? c.name = some f) (hrequest : f.request c.arguments = .ok request) :
    c.outcome p l = process p c.now l request := by
  rw [outcome_eq, invoke, hname]
  simp only [hrequest]
  rfl

theorem outcome_of_no_request {f : Function} {fault : Fault}
    (hname : Function.ofName? c.name = some f) (hrequest : f.request c.arguments = .error fault) :
    c.outcome p l = .error fault := by
  rw [outcome_eq, invoke, hname]
  simp only [hrequest]
  rfl

theorem outcome_eq_ok {o : Outcome} (h : c.outcome p l = .ok o) :
    ∃ f request, Function.ofName? c.name = some f ∧ f.request c.arguments = .ok request ∧
      process p c.now l request = .ok o := by
  rw [outcome_eq, invoke] at h
  split at h
  · simp at h
  · rename_i f hname
    obtain ⟨request, hrequest, hprocess⟩ := bind_eq_ok.1 h
    exact ⟨f, request, hname, hrequest, hprocess⟩

end Call

def run (p : Policy) (calls : List Call) : Ledger := calls.foldl (Call.step p) .empty

theorem wellKept_empty : WellKept .empty := by
  intro slot bytes h
  obtain ⟨scope, key⟩ := slot
  cases scope <;> simp [Ledger.find?, Ledger.table, Ledger.empty] at h

theorem WellKept.write {l : Ledger} (hl : WellKept l) {r : Record} (hr : InOrder r) :
    WellKept (l.write r.slot r.encode) := by
  intro slot bytes h
  by_cases hslot : slot = r.slot
  · subst hslot
    rw [Ledger.find?_write] at h
    exact ⟨r, (Option.some.inj h).symm, rfl, hr⟩
  · rw [Ledger.find?_write_of_ne hslot] at h
    exact hl slot bytes h

theorem request_createRecord (name : String) (docType : DocType) (payload : String) :
    (Function.createRecord name docType).request [payload] = Function.record docType payload := rfl

theorem Call.outcome_create {p : Policy} {now : Instant} {l : Ledger} {name payload : String}
    {docType : DocType} {r : Record}
    (hname : Function.ofName? name = some (Function.createRecord name docType))
    (hpayload : Record.ofPayload docType payload = .ok r) :
    (Call.mk now name [payload]).outcome p l = create p now l r := by
  have hrequest : (Function.createRecord name docType).request [payload] = .ok (.create r) := by
    rw [request_createRecord, Function.record, hpayload]
  exact Call.outcome_of_request (c := ⟨now, name, [payload]⟩) hname hrequest

theorem WellKept.apply {p : Policy} {now : Instant} {l : Ledger} {request : Request} {o : Outcome}
    (hl : WellKept l) (h : process p now l request = .ok o) : WellKept (o.apply l) := by
  cases o with
  | stored slot r =>
    obtain ⟨rfl, hr⟩ := process_stored hl h
    exact hl.write hr
  | _ => exact hl

theorem WellKept.step {p : Policy} {l : Ledger} (hl : WellKept l) (c : Call) :
    WellKept (c.step p l) := by
  cases h : c.outcome p l with
  | error f => rwa [Call.step_of_error h]
  | ok o =>
    obtain ⟨_, _, -, -, hprocess⟩ := Call.outcome_eq_ok h
    rw [Call.step_of_ok h]
    exact hl.apply hprocess

theorem WellKept.foldl {p : Policy} {l : Ledger} (hl : WellKept l) (calls : List Call) :
    WellKept (calls.foldl (Call.step p) l) := by
  induction calls generalizing l with
  | nil => exact hl
  | cons c calls ih => exact ih (hl.step c)

theorem wellKept_run (p : Policy) (calls : List Call) : WellKept (run p calls) :=
  wellKept_empty.foldl calls

/-- The ledgers that calls lead to from the empty one, each of them under any of some policies. -/
inductive Reachable (allowed : Policy → Prop) : Ledger → Prop
  | empty : Reachable allowed .empty
  | step {p : Policy} {l : Ledger} (h : Reachable allowed l) (hp : allowed p) (c : Call) :
      Reachable allowed (c.step p l)

theorem Reachable.wellKept {allowed : Policy → Prop} {l : Ledger} (h : Reachable allowed l) :
    WellKept l := by
  induction h with
  | empty => exact wellKept_empty
  | step _ _ c ih => exact ih.step c

theorem Reachable.foldl {allowed : Policy → Prop} {l : Ledger} (h : Reachable allowed l)
    {p : Policy} (hp : allowed p) (calls : List Call) :
    Reachable allowed (calls.foldl (Call.step p) l) := by
  induction calls generalizing l with
  | nil => exact h
  | cons c calls ih => exact ih (h.step hp c)

theorem reachable_run (p : Policy) (calls : List Call) : Reachable (· = p) (run p calls) := by
  have hempty : Reachable (· = p) .empty := .empty
  exact hempty.foldl rfl calls

/-- What is true of the bytes in a slot after every run, for the record that they hold. -/
structure Entry (slot : Slot) (bytes : ByteArray) (r : Record) : Prop where
  bytes_eq : bytes = r.encode
  decode_eq : Record.decode bytes = .ok r.asRead
  decode_eq_self : r.NoSignedZero → Record.decode bytes = .ok r
  validate : ∀ moves : List Move, (moves.foldl (fun r m => r.moved m) r).validate = .ok ()
  slot_eq : r.slot = slot
  createdAt : r.createdAt.isSome
  updatedAt : r.updatedAt.isSome
  statusSet : r.StatusSet
  docType_mem : r.docType ∈ slot.scope.kinds

/-- Every entry of the ledger after a run is the text of a record that obeys the rules, whatever
states it moves to, and lies in the slot and among the kinds where it belongs. It is read back as it
was, but for the signs of zero amounts. -/
theorem entry_run (p : Policy) (calls : List Call) {slot : Slot} {bytes : ByteArray}
    (h : (run p calls).find? slot = some bytes) : ∃ r, Entry slot bytes r := by
  obtain ⟨r, rfl, rfl, hr⟩ := wellKept_run p calls slot bytes h
  have hdecode : Record.decode r.encode = .ok r.asRead := r.held_encode.decode_eq
  exact ⟨r, {
    bytes_eq := rfl
    decode_eq := hdecode
    decode_eq_self := fun hzero => hdecode.trans (congrArg Except.ok (Record.asRead_eq_self hzero))
    validate := fun moves => Record.validate_foldl_moved moves hr.validate
    slot_eq := rfl
    createdAt := hr.createdAt
    updatedAt := hr.updatedAt
    statusSet := Record.statusSet_of_validate hr.validate
    docType_mem := r.docType_mem_kinds }⟩

def signedStart : Date := ⟨2024, 1, 1, by decide⟩

def signedTime : Instant := ⟨⟨2024, 2, 1, by decide⟩, 0, 0, by decide, by decide, by decide⟩

/-- A bill whose fee is a zero with a sign, which rounding has left of a negative amount. -/
def signedBill : Settlement where
  id := "S1"
  payor := "A"
  payee := "B"
  start := some signedStart
  stop := some signedTime.date
  charges := 0
  corrections := 0
  gross := .zero
  fee := (Decimal.ofParts? true 0 28).getD .zero
  correction := .zero
  net := .zero
  currency := "USD"
  status := some .draft
  createdAt := none
  updatedAt := none

def signedMembers : Json.Members :=
  [("settlementID", .string "S1"), ("payorAgencyID", .string "A"), ("payeeAgencyID", .string "B"),
    ("periodStart", .string "2024-01-01"), ("periodEnd", .string "2024-02-01"),
    ("feeAmount", .string "-0.4e-28"), ("status", .string "draft")]

def signedCall : Call := ⟨signedTime, "CreateSettlement", [(Json.object signedMembers).compact]⟩

def signedRecord : Record := (Record.settlement signedBill).stampCreated signedTime

def openPolicy : Policy := { Policy.standard with verify := false }

theorem ofPayload_signedMembers :
    Record.ofPayload .settlement (Json.object signedMembers).compact
      = .ok (.settlement signedBill) := by
  have hshallow : (Json.object signedMembers).Shallow Json.maxDepth := by
    intro m hm
    simp only [signedMembers, List.mem_cons, List.not_mem_nil, or_false] at hm
    rcases hm with rfl | rfl | rfl | rfl | rfl | rfl | rfl <;> exact Json.shallow_string _ _
  rw [Record.ofPayload, Json.parse?_compact hshallow]
  rfl

theorem outcome_signedCall :
    signedCall.outcome openPolicy .empty = .ok (.stored signedRecord.slot signedRecord) :=
  Call.outcome_create rfl ofPayload_signedMembers

theorem run_signedCall :
    run openPolicy [signedCall] = Ledger.empty.write signedRecord.slot signedRecord.encode := by
  rw [run, List.foldl_cons, List.foldl_nil, Call.step_of_ok outcome_signedCall, Outcome.apply]

theorem text_signedRecord : signedRecord.text ≠ signedRecord.asRead.text := by
  intro h
  have hsigned : signedRecord.toJson.member? "feeAmount"
      = some (.string "-0.0000000000000000000000000000") := rfl
  have hread : signedRecord.asRead.toJson.member? "feeAmount"
      = some (.string "0.0000000000000000000000000000") := rfl
  rw [Record.toJson_eq_of_text_eq h, hread] at hsigned
  simp at hsigned

theorem entry_signedRecord : ∃ bytes,
    (run openPolicy [signedCall]).find? signedRecord.slot = some bytes ∧
      ∃ r, Entry signedRecord.slot bytes r := by
  have hfind : (run openPolicy [signedCall]).find? signedRecord.slot
      = some signedRecord.encode := by
    rw [run_signedCall, Ledger.find?_write]
  exact ⟨_, hfind, entry_run openPolicy [signedCall] hfind⟩

/-- An entry that no record has as its text and is read back from. -/
theorem exists_entry_not_read_back :
    ∃ (p : Policy) (calls : List Call) (slot : Slot) (bytes : ByteArray),
      (run p calls).find? slot = some bytes ∧
        ¬ ∃ r : Record, bytes = r.encode ∧ Record.decode bytes = .ok r := by
  refine ⟨openPolicy, [signedCall], signedRecord.slot, signedRecord.encode, ?_, ?_⟩
  · rw [run_signedCall, Ledger.find?_write]
  · rintro ⟨r, hencode, hdecode⟩
    rw [signedRecord.held_encode.decode_eq, Except.ok.injEq] at hdecode
    have hbytes := congrArg String.fromUTF8? (hdecode ▸ hencode)
    simp only [Record.encode, Json.fromUTF8?_toUTF8, Option.some.injEq] at hbytes
    exact text_signedRecord hbytes

end House

end TollClearing
