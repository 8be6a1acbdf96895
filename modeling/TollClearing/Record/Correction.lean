import TollClearing.Record.Column

/-!
Corrections: numbered versions that replace the amount and fee of a charge.
-/

set_option autoImplicit false

namespace TollClearing

structure Correction where
  charge : String
  number : UInt32
  away : String
  home : String
  code : String
  reason : String
  detail : String
  vehicleClass : UInt8
  amount : Option Decimal
  fee : Decimal
  createdAt : Option Instant
  updatedAt : Option Instant
  deriving DecidableEq, Repr

namespace Correction

open Column Layout

def layout : Layout Correction Correction :=
  mk <$> column "originalChargeID" text charge
    <*> column "correctionSeqNo" (plain Scalar.count 0) number
    <*> column "awayAgencyID" text away
    <*> column "homeAgencyID" text home
    <*> column "recordType" text code
    <*> column "correctionReason" text reason
    <*> column "reasonDetail" optionalText detail
    <*> column "vehicleClass" (plain Scalar.byte 0) vehicleClass
    <*> column "amount" (blank Scalar.decimal) amount
    <*> column "fee" (plain Scalar.decimal Decimal.zero) fee
    <*> column "createdAt" stamp createdAt
    <*> column "updatedAt" stamp updatedAt

def predecessor? (c : Correction) : Option Nat :=
  if c.number.toNat ≤ 1 then none else some (c.number.toNat - 1)

end Correction

end TollClearing
