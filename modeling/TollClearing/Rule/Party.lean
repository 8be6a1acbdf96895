import TollClearing.Record.Acknowledgement
import TollClearing.Record.Agency
import TollClearing.Record.Tag
import TollClearing.Rule.Member
import TollClearing.Rule.Stage

/-!
Rules for the records that all agencies share: agencies, their tags and acknowledgements.
-/

set_option autoImplicit false

namespace TollClearing

open Rule

namespace Agency

def check (a : Agency) : Stage → Check
  | .required => do
    require "agencyID" a.id
    require "name" a.name
    require "consortiumID" a.consortium
    requireSome "role" a.role
    requireSome "status" a.status
  | .ranges => do
    identifier "agencyID" a.id
    identifier "consortiumID" a.consortium
    if a.state = "" then .ok () else capitals "state" a.state 2
  | _ => .ok ()

end Agency

namespace Tag

def maxSerialLength : Nat := 20

def planMember (i : Nat) (name : String) : String := s!"discountPlans[{i}]." ++ name

def requirePlans (i : Nat) : List DiscountPlan → Check
  | [] => .ok ()
  | p :: ps => do
    require (planMember i "planID") p.id
    requireSome (planMember i "startDate") p.start
    requirePlans (i + 1) ps

/-- Every plan ends on or after its start, and no plan is named twice. -/
def checkPlans (i : Nat) (seen : List String) : List DiscountPlan → Check
  | [] => .ok ()
  | p :: ps => do
    match p.start, p.stop with
    | some start, some stop =>
      ensure (start ≤ stop) (planMember i "endDate") .planReversed
    | _, _ => .ok ()
    ensure (!seen.contains p.id) (planMember i "planID") (.planRepeated p.id)
    checkPlans (i + 1) (p.id :: seen) ps

def requirePlate : Option Plate → Check
  | some p => do
    require "plateInfo.country" p.country
    require "plateInfo.state" p.state
    require "plateInfo.number" p.number
  | none => .ok ()

def checkPlate : Option Plate → Check
  | some p => do
    capitals "plateInfo.country" p.country 2
    capitals "plateInfo.state" p.state 2
  | none => .ok ()

def check (t : Tag) : Stage → Check
  | .required => do
    require "tagSerialNumber" t.serial
    require "tagAgencyID" t.agency
    require "homeAgencyID" t.home
    requireSome "tagStatus" t.status
    requirePlate t.plate
    requirePlans 0 t.plans
  | .ranges => do
    ensure (t.serial.utf8ByteSize ≤ maxSerialLength && t.serial.toList.all Char.isAlphanum)
      "tagSerialNumber" (.notSerial maxSerialLength)
    identifier "tagAgencyID" t.agency
    identifier "homeAgencyID" t.home
    inRange "tagClass" t.tagClass.toNat 1 15
    checkPlate t.plate
  | .crossMember => checkPlans 0 [] t.plans
  | _ => .ok ()

end Tag

namespace Acknowledgement

def check (a : Acknowledgement) : Stage → Check
  | .required => do
    require "acknowledgementID" a.id
    require "submissionType" a.submissionType
    require "submissionID" a.submission
    require "fromAgencyID" a.sender
    require "toAgencyID" a.receiver
    require "returnCode" a.returnCode
    requireSome "submissionDateTime" a.submittedAt
  | .codes => do
    let _ : SubmissionType ← knownCode Code.ofWire? "submissionType" a.submissionType
    let _ : ReturnCode ← knownCode Code.ofWire? "returnCode" a.returnCode
    .ok ()
  | .ranges => do
    identifier "acknowledgementID" a.id
    identifier "fromAgencyID" a.sender
    identifier "toAgencyID" a.receiver
  | .crossMember => distinct "fromAgencyID" a.sender "toAgencyID" a.receiver
  | .conditional =>
    match (Code.ofWire? a.returnCode : Option ReturnCode) with
    | some c => if c.isSuccess then .ok () else require "returnMessage" a.message
    | none => .ok ()

end Acknowledgement

end TollClearing
