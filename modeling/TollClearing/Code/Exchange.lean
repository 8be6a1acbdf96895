import TollClearing.Code.Basic

/-!
The codes that the partners of the exchange agreed on.
-/

set_option autoImplicit false

namespace TollClearing

inductive Disposition where
  | posted
  | duplicate
  | invalid
  | notOnFile
  | suspended
  | tooOld
  | closed
  | other
  deriving DecidableEq, Repr, Inhabited

namespace Disposition

def wire : Disposition → String
  | .posted => "P"
  | .duplicate => "D"
  | .invalid => "I"
  | .notOnFile => "N"
  | .suspended => "S"
  | .tooOld => "T"
  | .closed => "C"
  | .other => "O"

instance : Code Disposition where
  label := "disposition code"
  all := [.posted, .duplicate, .invalid, .notOnFile, .suspended, .tooOld, .closed, .other]
  wire := wire
  mem_all a := by cases a <;> decide
  wire_injective {a b} h := by revert h; cases a <;> cases b <;> decide

def isPosted (d : Disposition) : Bool := d = .posted

end Disposition

inductive CorrectionReason where
  | classAdjustment
  | incorrectAmount
  | lateDetail
  | identity
  | other
  deriving DecidableEq, Repr, Inhabited

namespace CorrectionReason

def wire : CorrectionReason → String
  | .classAdjustment => "C"
  | .incorrectAmount => "I"
  | .lateDetail => "L"
  | .identity => "T"
  | .other => "O"

instance : Code CorrectionReason where
  label := "correction reason"
  all := [.classAdjustment, .incorrectAmount, .lateDetail, .identity, .other]
  wire := wire
  mem_all a := by cases a <;> decide
  wire_injective {a b} h := by revert h; cases a <;> cases b <;> decide

def requiresDetail (r : CorrectionReason) : Bool := r = .other

end CorrectionReason

inductive SubmissionType where
  | tagList
  | charges
  | corrections
  | reconciliations
  | settlements
  deriving DecidableEq, Repr, Inhabited

namespace SubmissionType

def wire : SubmissionType → String
  | .tagList => "STVL"
  | .charges => "STRAN"
  | .corrections => "SCORR"
  | .reconciliations => "SRECON"
  | .settlements => "SSETL"

instance : Code SubmissionType where
  label := "submission type"
  all := [.tagList, .charges, .corrections, .reconciliations, .settlements]
  wire := wire
  mem_all a := by cases a <;> decide
  wire_injective {a b} h := by revert h; cases a <;> cases b <;> decide

end SubmissionType

inductive ReturnCode where
  | success
  | fromAgency
  | toAgency
  | submissionType
  | submissionDate
  | duplicate
  | recordCount
  | recordDetail
  | version
  | header
  | trailer
  | size
  | timeout
  | system
  deriving DecidableEq, Repr, Inhabited

namespace ReturnCode

def wire : ReturnCode → String
  | .success => "00"
  | .fromAgency => "01"
  | .toAgency => "02"
  | .submissionType => "03"
  | .submissionDate => "04"
  | .duplicate => "05"
  | .recordCount => "06"
  | .recordDetail => "07"
  | .version => "08"
  | .header => "09"
  | .trailer => "10"
  | .size => "11"
  | .timeout => "12"
  | .system => "13"

instance : Code ReturnCode where
  label := "return code"
  all := [.success, .fromAgency, .toAgency, .submissionType, .submissionDate, .duplicate,
    .recordCount, .recordDetail, .version, .header, .trailer, .size, .timeout, .system]
  wire := wire
  mem_all a := by cases a <;> decide
  wire_injective {a b} h := by revert h; cases a <;> cases b <;> decide

def isSuccess (c : ReturnCode) : Bool := c = .success

end ReturnCode

/-- How a toll was recorded: by a tag or by a picture of the plate, at a single point or in a closed
system, there with or without the entry. -/
inductive ChargeKind where
  | tagPoint
  | tagEntry
  | tagExit
  | videoPoint
  | videoEntry
  | videoExit
  deriving DecidableEq, Repr, Inhabited

namespace ChargeKind

def wire : ChargeKind → String
  | .tagPoint => "TB01"
  | .tagEntry => "TC01"
  | .tagExit => "TC02"
  | .videoPoint => "VB01"
  | .videoEntry => "VC01"
  | .videoExit => "VC02"

instance : Code ChargeKind where
  label := "record type"
  all := [.tagPoint, .tagEntry, .tagExit, .videoPoint, .videoEntry, .videoExit]
  wire := wire
  mem_all a := by cases a <;> decide
  wire_injective {a b} h := by revert h; cases a <;> cases b <;> decide

def isTagBased (k : ChargeKind) : Bool := k = .tagPoint || k = .tagEntry || k = .tagExit

def isVideo (k : ChargeKind) : Bool := !k.isTagBased

def requiresEntry (k : ChargeKind) : Bool := k = .tagEntry || k = .videoEntry

end ChargeKind

inductive AgencyRole where
  | home
  | away
  | both
  deriving DecidableEq, Repr, Inhabited

namespace AgencyRole

def wire : AgencyRole → String
  | .home => "home"
  | .away => "away"
  | .both => "both"

instance : Code AgencyRole where
  label := "agency role"
  all := [.home, .away, .both]
  wire := wire
  mem_all a := by cases a <;> decide
  wire_injective {a b} h := by revert h; cases a <;> cases b <;> decide

end AgencyRole

inductive DocType where
  | agency
  | tag
  | charge
  | correction
  | reconciliation
  | acknowledgement
  | settlement
  deriving DecidableEq, Repr, Inhabited

namespace DocType

def wire : DocType → String
  | .agency => "agency"
  | .tag => "tag"
  | .charge => "charge"
  | .correction => "correction"
  | .reconciliation => "reconciliation"
  | .acknowledgement => "acknowledgement"
  | .settlement => "settlement"

instance : Code DocType where
  label := "doc type"
  all := [.agency, .tag, .charge, .correction, .reconciliation, .acknowledgement, .settlement]
  wire := wire
  mem_all a := by cases a <;> decide
  wire_injective {a b} h := by revert h; cases a <;> cases b <;> decide

end DocType

structure RecordCode where
  kind : ChargeKind
  adjustment : Bool
  deriving DecidableEq, Repr

namespace RecordCode

def wire (c : RecordCode) : String := c.kind.wire ++ if c.adjustment then "A" else ""

def ofWire? (s : String) : Option RecordCode :=
  match (Code.ofWire? s : Option ChargeKind) with
  | some kind => some ⟨kind, false⟩
  | none =>
    if s.toList.getLast? = some 'A' then
      (Code.ofWire? (String.ofList s.toList.dropLast)).map fun kind => ⟨kind, true⟩
    else none

end RecordCode

end TollClearing
