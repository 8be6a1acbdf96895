import TollClearing.Code.Status
import TollClearing.Record.Column

/-!
Settlements: bills for a period that one agency owes another.
-/

set_option autoImplicit false

namespace TollClearing

structure Settlement where
  id : String
  payor : String
  payee : String
  start : Option Date
  stop : Option Date
  charges : UInt32
  corrections : UInt32
  gross : Decimal
  fee : Decimal
  correction : Decimal
  net : Decimal
  currency : String
  status : Option SettlementStatus
  createdAt : Option Instant
  updatedAt : Option Instant
  deriving DecidableEq, Repr

namespace Settlement

open Column Layout

def layout : Layout Settlement Settlement :=
  mk <$> column "settlementID" text id
    <*> column "payorAgencyID" text payor
    <*> column "payeeAgencyID" text payee
    <*> column "periodStart" (blank Scalar.date) start
    <*> column "periodEnd" (blank Scalar.date) stop
    <*> column "chargeCount" (plain Scalar.count 0) charges
    <*> column "correctionCount" (plain Scalar.count 0) corrections
    <*> column "grossAmount" (plain Scalar.decimal Decimal.zero) gross
    <*> column "feeAmount" (plain Scalar.decimal Decimal.zero) fee
    <*> column "correctionAmount" (plain Scalar.decimal Decimal.zero) correction
    <*> column "netAmount" (plain Scalar.decimal Decimal.zero) net
    <*> column "currency" (plain Scalar.text "USD") currency
    <*> column "status" (blank Scalar.code) status
    <*> column "createdAt" stamp createdAt
    <*> column "updatedAt" stamp updatedAt

def expectedNet? (s : Settlement) : Option Decimal := do (← s.gross.sub? s.fee).add? s.correction

end Settlement

end TollClearing
