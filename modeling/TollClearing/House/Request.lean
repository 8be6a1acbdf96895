import TollClearing.House.Fault
import TollClearing.Ledger.Basic
import TollClearing.Totals

/-!
Requests to the clearing house, and what it answers to them.
-/

set_option autoImplicit false

namespace TollClearing.House

/-- A state that a record of one of the four kinds with a lifecycle is to move to. -/
inductive Move where
  | agency (target : AgencyStatus)
  | tag (target : TagStatus)
  | charge (target : ChargeStatus)
  | settlement (target : SettlementStatus)
  deriving DecidableEq, Repr

inductive Request where
  | create (r : Record)
  | get (docType : DocType) (slot : Slot)
  | advance (slot : Slot) (move : Move)
  | list (docType : DocType) (scope : Scope) (fields : List (String × String))
  | total (p : Period)
  deriving DecidableEq, Repr

def Request.writes : Request → Bool
  | .create _ | .advance .. => true
  | .get .. | .list .. | .total _ => false

inductive Outcome where
  | stored (slot : Slot) (r : Record)
  | found (r : Record)
  | listed (rs : List Record)
  | totalled (t : Totals)
  deriving DecidableEq, Repr

namespace Outcome

def toJson : Outcome → Json
  | .stored _ r => r.toJson
  | .found r => r.toJson
  | .listed rs => .array (rs.map Record.toJson)
  | .totalled t => t.toJson

def text (o : Outcome) : String := o.toJson.compact

end Outcome

end TollClearing.House
