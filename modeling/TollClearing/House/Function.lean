import TollClearing.House.Request

/-!
Functions: the named forms of a request. Each takes a fixed number of arguments, all of them
text, and says whether it may change the ledger; `writes_request` states that it says so rightly.
-/

set_option autoImplicit false

namespace TollClearing.House

structure Function where
  name : String
  parameters : List String
  writes : Bool
  read : Vector String parameters.length → Except Fault Request

namespace Function

def record (docType : DocType) (argument : String) : Except Fault Request :=
  match Record.ofPayload docType argument with
  | .ok r => .ok (.create r)
  | .error m => .error (.malformed m)

def state (R : Type) {σ : Type} [Code σ] [Staged R σ] (argument : String) : Except Fault σ :=
  match Code.ofWire? argument with
  | some s => .ok s
  | none => .error (.rejected (.unknownCode (Staged.member R) argument))

def disposition (argument : String) : Except Fault Disposition :=
  match Code.ofWire? argument with
  | some d => .ok d
  | none => .error (.rejected (.unknownCode "postingDisposition" argument))

def number (parameter argument : String) : Except Fault Nat :=
  match Text.unsigned? 4294967296 argument.toList with
  | some n => .ok n
  | none => .error (.notNumber parameter argument)

def date (parameter argument : String) : Except Fault Date :=
  match Date.ofArgument? argument with
  | some d => .ok d
  | none => .error (.notDate parameter argument)

def chargeSlot (away home key : String) : Slot :=
  ⟨.partition (Key.chargePartition away home), key⟩

def settlementSlot (payor payee key : String) : Slot :=
  ⟨.partition (Key.settlementPartition payor payee), key⟩

def createRecord (name : String) (docType : DocType) : Function where
  name
  parameters := ["payload"]
  writes := true
  read a := record docType a[0]

def agencies : List Function :=
  [createRecord "CreateAgency" .agency,
    ⟨"GetAgency", ["agencyID"], false, fun a =>
      .ok (.get .agency ⟨.shared, Key.agency a[0]⟩)⟩,
    ⟨"UpdateAgencyStatus", ["agencyID", "status"], true, fun a => do
      let s ← state Agency a[1]
      .ok (.advance ⟨.shared, Key.agency a[0]⟩ (.agency s))⟩,
    ⟨"QueryAgenciesByStatus", ["status"], false, fun a => do
      let s ← state Agency a[0]
      .ok (.list .agency .shared [("status", Code.wire s)])⟩]

def tags : List Function :=
  [createRecord "CreateTag" .tag,
    ⟨"GetTag", ["tagAgencyID", "tagSerialNumber"], false, fun a =>
      .ok (.get .tag ⟨.shared, Key.tag a[0] a[1]⟩)⟩,
    ⟨"UpdateTagStatus", ["tagAgencyID", "tagSerialNumber", "status"], true, fun a => do
      let s ← state Tag a[2]
      .ok (.advance ⟨.shared, Key.tag a[0] a[1]⟩ (.tag s))⟩,
    ⟨"QueryTagsByAgency", ["tagAgencyID"], false, fun a =>
      .ok (.list .tag .shared [("tagAgencyID", a[0])])⟩,
    ⟨"QueryTagsByStatus", ["tagAgencyID", "status"], false, fun a => do
      let s ← state Tag a[1]
      .ok (.list .tag .shared [("tagAgencyID", a[0]), ("tagStatus", Code.wire s)])⟩]

def charges : List Function :=
  [createRecord "CreateCharge" .charge,
    ⟨"GetCharge", ["awayAgencyID", "homeAgencyID", "chargeID"], false, fun a =>
      .ok (.get .charge (chargeSlot a[0] a[1] (Key.charge a[2])))⟩,
    ⟨"UpdateChargeStatus", ["awayAgencyID", "homeAgencyID", "chargeID", "status"], true,
      fun a => do
        let s ← state Charge a[3]
        .ok (.advance (chargeSlot a[0] a[1] (Key.charge a[2])) (.charge s))⟩,
    ⟨"QueryChargesByStatus", ["awayAgencyID", "homeAgencyID", "status"], false, fun a => do
      let s ← state Charge a[2]
      .ok (.list .charge (.partition (Key.chargePartition a[0] a[1])) [("status", Code.wire s)])⟩,
    ⟨"QueryChargesByTag", ["awayAgencyID", "homeAgencyID", "tagAgencyID", "tagSerialNumber"],
      false, fun a =>
        .ok (.list .charge (.partition (Key.chargePartition a[0] a[1]))
          [("tagAgencyID", a[2]), ("tagSerialNumber", a[3])])⟩]

def corrections : List Function :=
  [createRecord "CreateCorrection" .correction,
    ⟨"GetCorrection", ["awayAgencyID", "homeAgencyID", "originalChargeID", "correctionSeqNo"],
      false, fun a => do
        let n ← number "correctionSeqNo" a[3]
        .ok (.get .correction (chargeSlot a[0] a[1] (Key.correction a[2] n)))⟩,
    ⟨"QueryCorrectionsByCharge", ["awayAgencyID", "homeAgencyID", "originalChargeID"], false,
      fun a =>
        .ok (.list .correction (.partition (Key.chargePartition a[0] a[1]))
          [("originalChargeID", a[2])])⟩]

def reconciliations : List Function :=
  [createRecord "CreateReconciliation" .reconciliation,
    ⟨"GetReconciliation", ["awayAgencyID", "homeAgencyID", "chargeID"], false, fun a =>
      .ok (.get .reconciliation (chargeSlot a[0] a[1] (Key.reconciliation a[2])))⟩,
    ⟨"QueryReconciliationsByDisposition",
      ["awayAgencyID", "homeAgencyID", "postingDisposition"], false, fun a => do
        let d ← disposition a[2]
        .ok (.list .reconciliation (.partition (Key.chargePartition a[0] a[1]))
          [("postingDisposition", d.wire)])⟩]

def acknowledgements : List Function :=
  [createRecord "CreateAcknowledgement" .acknowledgement,
    ⟨"GetAcknowledgement", ["acknowledgementID"], false, fun a =>
      .ok (.get .acknowledgement ⟨.shared, Key.acknowledgement a[0]⟩)⟩,
    ⟨"QueryAcknowledgementsBySender", ["fromAgencyID"], false, fun a =>
      .ok (.list .acknowledgement .shared [("fromAgencyID", a[0])])⟩]

def settlements : List Function :=
  [createRecord "CreateSettlement" .settlement,
    ⟨"GetSettlement", ["payorAgencyID", "payeeAgencyID", "settlementID"], false, fun a =>
      .ok (.get .settlement (settlementSlot a[0] a[1] (Key.settlement a[2])))⟩,
    ⟨"UpdateSettlementStatus", ["payorAgencyID", "payeeAgencyID", "settlementID", "status"], true,
      fun a => do
        let s ← state Settlement a[3]
        .ok (.advance (settlementSlot a[0] a[1] (Key.settlement a[2])) (.settlement s))⟩,
    ⟨"QuerySettlementsByStatus", ["payorAgencyID", "payeeAgencyID", "status"], false,
      fun a => do
        let s ← state Settlement a[2]
        .ok (.list .settlement (.partition (Key.settlementPartition a[0] a[1]))
          [("status", Code.wire s)])⟩,
    ⟨"CalculateSettlementTotals", ["payorAgencyID", "payeeAgencyID", "periodStart", "periodEnd"],
      false, fun a => do
        let start ← date "periodStart" a[2]
        let stop ← date "periodEnd" a[3]
        .ok (.total ⟨a[0], a[1], start, stop⟩)⟩]

def all : List Function :=
  agencies ++ tags ++ charges ++ corrections ++ reconciliations ++ acknowledgements ++ settlements

def ofName? (name : String) : Option Function := all.find? (·.name = name)

def request (f : Function) (arguments : List String) : Except Fault Request :=
  if h : arguments.length = f.parameters.length then f.read ⟨arguments.toArray, by simpa using h⟩
  else .error (.wrongCount f.name f.parameters.length arguments.length)

/-- A function that may change the ledger makes only requests that may, and no other does. -/
theorem writes_request {f : Function} (h : f ∈ all) {arguments : List String} {r : Request}
    (hr : f.request arguments = .ok r) : r.writes = f.writes := by
  have read : ∀ f ∈ all, ∀ a r, f.read a = .ok r → r.writes = f.writes := by
    simp only [all, agencies, tags, charges, corrections, reconciliations, acknowledgements,
      settlements, createRecord, record, List.forall_mem_append, List.forall_mem_cons,
      List.not_mem_nil, false_implies, implies_true, and_true, bind, Except.bind]
    and_intros <;> intro a r e <;> grind [Request.writes]
  rw [request] at hr
  split at hr
  · exact read f h _ r hr
  · cases hr

end Function

end TollClearing.House
