import TollClearing.Record.Column

/-!
Reconciliations: what the home agency did with a charge.
-/

set_option autoImplicit false

namespace TollClearing

structure Reconciliation where
  charge : String
  away : String
  home : String
  disposition : String
  postedAmount : Option Decimal
  postedTime : Option Instant
  adjustments : UInt32
  resubmissions : UInt32
  createdAt : Option Instant
  updatedAt : Option Instant
  deriving DecidableEq, Repr

namespace Reconciliation

open Column Layout

def layout : Layout Reconciliation Reconciliation :=
  mk <$> column "chargeID" text charge
    <*> column "awayAgencyID" text away
    <*> column "homeAgencyID" text home
    <*> column "postingDisposition" text disposition
    <*> column "postedAmount" (optionalBlank Scalar.decimal) postedAmount
    <*> column "postedDateTime" (optionalBlank Scalar.instant) postedTime
    <*> column "adjustmentCount" (plain Scalar.count 0) adjustments
    <*> column "resubmitCount" (plain Scalar.count 0) resubmissions
    <*> column "createdAt" stamp createdAt
    <*> column "updatedAt" stamp updatedAt

end Reconciliation

end TollClearing
