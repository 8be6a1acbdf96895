import TollClearing.Code.Status
import TollClearing.Record.Tag

/-!
Charges: tolls that an away agency recorded and the home agency is asked to pay.
-/

set_option autoImplicit false

namespace TollClearing

structure Charge where
  id : String
  code : String
  away : String
  home : String
  tagSerial : String
  tagAgency : String
  plate : Option Plate
  facility : String
  entryPlaza : String
  entryTime : Option Instant
  exitPlaza : String
  exitLane : String
  exitTime : Option Instant
  vehicleClass : UInt8
  amount : Option Decimal
  fee : Decimal
  discountPlan : String
  status : Option ChargeStatus
  createdAt : Option Instant
  updatedAt : Option Instant
  deriving DecidableEq, Repr

namespace Charge

open Column Layout

def layout : Layout Charge Charge :=
  mk <$> column "chargeID" text id
    <*> column "recordType" text code
    <*> column "awayAgencyID" text away
    <*> column "homeAgencyID" text home
    <*> column "tagSerialNumber" optionalText tagSerial
    <*> column "tagAgencyID" optionalText tagAgency
    <*> column "plateInfo" (nullable Plate.scalar) plate
    <*> column "facilityID" text facility
    <*> column "entryPlaza" optionalText entryPlaza
    <*> column "entryDateTime" (optionalBlank Scalar.instant) entryTime
    <*> column "exitPlaza" text exitPlaza
    <*> column "exitLane" optionalText exitLane
    <*> column "exitDateTime" (blank Scalar.instant) exitTime
    <*> column "vehicleClass" (plain Scalar.byte 0) vehicleClass
    <*> column "amount" (blank Scalar.decimal) amount
    <*> column "fee" (plain Scalar.decimal Decimal.zero) fee
    <*> column "discountPlanID" optionalText discountPlan
    <*> column "status" (blank Scalar.code) status
    <*> column "createdAt" stamp createdAt
    <*> column "updatedAt" stamp updatedAt

/-- What the away agency is owed: the amount less the fee, if there is one and it fits. -/
def net? (c : Charge) : Option Decimal := do (← c.amount).sub? c.fee

end Charge

end TollClearing
