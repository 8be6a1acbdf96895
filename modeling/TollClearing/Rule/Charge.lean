import TollClearing.Record.Charge
import TollClearing.Record.Correction
import TollClearing.Record.Reconciliation
import TollClearing.Rule.Member
import TollClearing.Rule.Stage

/-!
Rules for the records that lie between an away agency and a home agency: charges, their
corrections and reconciliations.
-/

set_option autoImplicit false

namespace TollClearing

open Rule

namespace Charge

def checkTag (c : Charge) (kind : ChargeKind) : Check :=
  if kind.isTagBased then do
    require "tagSerialNumber" c.tagSerial
    require "tagAgencyID" c.tagAgency
  else .ok ()

def checkPlate (c : Charge) (kind : ChargeKind) : Check :=
  if kind.isVideo then
    match c.plate with
    | none => .error (.rejected "plateInfo" (.plateNeeded kind))
    | some plate => require "plateInfo.number" plate.number
  else .ok ()

def checkEntry (c : Charge) (kind : ChargeKind) : Check :=
  if kind.requiresEntry then do
    require "entryPlaza" c.entryPlaza
    requireSome "entryDateTime" c.entryTime
  else .ok ()

def check (c : Charge) : Stage → Check
  | .required => do
    require "chargeID" c.id
    require "recordType" c.code
    require "awayAgencyID" c.away
    require "homeAgencyID" c.home
    require "facilityID" c.facility
    require "exitPlaza" c.exitPlaza
    requireSome "exitDateTime" c.exitTime
    requireSome "amount" c.amount
    requireSome "status" c.status
  | .codes => do
    let code ← knownCode RecordCode.ofWire? "recordType" c.code
    ensure (!code.adjustment) "recordType" (.adjustmentOnCharge code)
  | .ranges => do
    identifier "chargeID" c.id
    identifier "awayAgencyID" c.away
    identifier "homeAgencyID" c.home
    inRange "vehicleClass" c.vehicleClass.toNat 1 99
    moneyIfSome "amount" c.amount
    money "fee" c.fee
  | .crossMember => do
    distinct "awayAgencyID" c.away "homeAgencyID" c.home
    notAbove "fee" c.fee "amount" c.amount
    match c.entryTime, c.exitTime with
    | some entry, some exit => ensure (entry ≤ exit) "entryDateTime" .entryAfterExit
    | _, _ => .ok ()
  | .conditional =>
    match RecordCode.ofWire? c.code with
    | none => .ok ()
    | some code => do
      c.checkTag code.kind
      c.checkPlate code.kind
      c.checkEntry code.kind

end Charge

namespace Correction

def maxNumber : Nat := 999

def check (c : Correction) : Stage → Check
  | .required => do
    require "originalChargeID" c.charge
    require "awayAgencyID" c.away
    require "homeAgencyID" c.home
    require "recordType" c.code
    require "correctionReason" c.reason
    requireSome "amount" c.amount
  | .codes => do
    let recordCode ← knownCode RecordCode.ofWire? "recordType" c.code
    ensure recordCode.adjustment "recordType" (.noAdjustment recordCode)
    let _ : CorrectionReason ← knownCode Code.ofWire? "correctionReason" c.reason
    .ok ()
  | .ranges => do
    identifier "originalChargeID" c.charge
    identifier "awayAgencyID" c.away
    identifier "homeAgencyID" c.home
    inRange "correctionSeqNo" c.number.toNat 1 maxNumber
    inRange "vehicleClass" c.vehicleClass.toNat 0 99
    moneyIfSome "amount" c.amount
    money "fee" c.fee
  | .crossMember => do
    distinct "awayAgencyID" c.away "homeAgencyID" c.home
    notAbove "fee" c.fee "amount" c.amount
  | .conditional =>
    match (Code.ofWire? c.reason : Option CorrectionReason) with
    | none => .ok ()
    | some reason => if reason.requiresDetail then require "reasonDetail" c.detail else .ok ()

end Correction

namespace Reconciliation

def check (r : Reconciliation) : Stage → Check
  | .required => do
    require "chargeID" r.charge
    require "awayAgencyID" r.away
    require "homeAgencyID" r.home
    require "postingDisposition" r.disposition
  | .codes => do
    let _ : Disposition ← knownCode Code.ofWire? "postingDisposition" r.disposition
    .ok ()
  | .ranges => do
    identifier "chargeID" r.charge
    identifier "awayAgencyID" r.away
    identifier "homeAgencyID" r.home
    moneyIfSome "postedAmount" r.postedAmount
  | .crossMember => distinct "awayAgencyID" r.away "homeAgencyID" r.home
  | .conditional =>
    match (Code.ofWire? r.disposition : Option Disposition) with
    | none => .ok ()
    | some disposition =>
      if disposition.isPosted then do
        requireSome "postedDateTime" r.postedTime
        requireSome "postedAmount" r.postedAmount
      else .ok ()

end Reconciliation

end TollClearing
