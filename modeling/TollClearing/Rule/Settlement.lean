import TollClearing.Record.Settlement
import TollClearing.Rule.Member
import TollClearing.Rule.Stage

/-!
Rules for settlements: the parties and the period are told, and the net amount is what gross
amount, fees and corrections come to.
-/

set_option autoImplicit false

namespace TollClearing.Settlement

open Rule

def checkPeriod (start stop : Option Date) : Check :=
  match start, stop with
  | some start, some stop => ensure (start < stop) "periodEnd" .periodReversed
  | _, _ => .ok ()

def checkNet (s : Settlement) : Check :=
  match s.expectedNet? with
  | none => .error (.rejected "netAmount" .netOverflow)
  | some expected => ensure (s.net.sameValue expected) "netAmount" (.netDiffers expected)

def zeroWithout (count : UInt32) (countMember member : String) (value : Decimal) : Check :=
  ensure (count ≠ 0 || value.isZero) member (.notZeroWithout countMember)

def check (s : Settlement) : Stage → Check
  | .required => do
    require "settlementID" s.id
    require "payorAgencyID" s.payor
    require "payeeAgencyID" s.payee
    requireSome "periodStart" s.start
    requireSome "periodEnd" s.stop
    require "currency" s.currency
    requireSome "status" s.status
  | .codes => .ok ()
  | .ranges => do
    identifier "settlementID" s.id
    identifier "payorAgencyID" s.payor
    identifier "payeeAgencyID" s.payee
    capitals "currency" s.currency 3
    money "grossAmount" s.gross
    money "feeAmount" s.fee
    cents "correctionAmount" s.correction
    cents "netAmount" s.net
  | .crossMember => do
    distinct "payorAgencyID" s.payor "payeeAgencyID" s.payee
    checkPeriod s.start s.stop
    notAbove "feeAmount" s.fee "grossAmount" (some s.gross)
    s.checkNet
  | .conditional => do
    zeroWithout s.charges "chargeCount" "grossAmount" s.gross
    zeroWithout s.corrections "correctionCount" "correctionAmount" s.correction

end TollClearing.Settlement
