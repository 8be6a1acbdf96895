import TollClearing.Code.Basic

/-!
The states of the records that have one.
-/

set_option autoImplicit false

namespace TollClearing

inductive AgencyStatus where
  | active
  | suspended
  | inactive
  deriving DecidableEq, Repr, Inhabited

namespace AgencyStatus

def wire : AgencyStatus → String
  | .active => "active"
  | .suspended => "suspended"
  | .inactive => "inactive"

instance : Code AgencyStatus where
  label := "agency status"
  all := [.active, .suspended, .inactive]
  wire := wire
  mem_all a := by cases a <;> decide
  wire_injective {a b} h := by revert h; cases a <;> cases b <;> decide

end AgencyStatus

inductive TagStatus where
  | valid
  | invalid
  | inactive
  | lost
  | stolen
  deriving DecidableEq, Repr, Inhabited

namespace TagStatus

def wire : TagStatus → String
  | .valid => "valid"
  | .invalid => "invalid"
  | .inactive => "inactive"
  | .lost => "lost"
  | .stolen => "stolen"

instance : Code TagStatus where
  label := "tag status"
  all := [.valid, .invalid, .inactive, .lost, .stolen]
  wire := wire
  mem_all a := by cases a <;> decide
  wire_injective {a b} h := by revert h; cases a <;> cases b <;> decide

end TagStatus

inductive ChargeStatus where
  | pending
  | posted
  | rejected
  | settled
  | disputed
  deriving DecidableEq, Repr, Inhabited

namespace ChargeStatus

def wire : ChargeStatus → String
  | .pending => "pending"
  | .posted => "posted"
  | .rejected => "rejected"
  | .settled => "settled"
  | .disputed => "disputed"

instance : Code ChargeStatus where
  label := "charge status"
  all := [.pending, .posted, .rejected, .settled, .disputed]
  wire := wire
  mem_all a := by cases a <;> decide
  wire_injective {a b} h := by revert h; cases a <;> cases b <;> decide

def isBillable (s : ChargeStatus) : Bool := s = .posted || s = .settled

end ChargeStatus

inductive SettlementStatus where
  | draft
  | submitted
  | accepted
  | disputed
  | cancelled
  | paid
  deriving DecidableEq, Repr, Inhabited

namespace SettlementStatus

def wire : SettlementStatus → String
  | .draft => "draft"
  | .submitted => "submitted"
  | .accepted => "accepted"
  | .disputed => "disputed"
  | .cancelled => "cancelled"
  | .paid => "paid"

instance : Code SettlementStatus where
  label := "settlement status"
  all := [.draft, .submitted, .accepted, .disputed, .cancelled, .paid]
  wire := wire
  mem_all a := by cases a <;> decide
  wire_injective {a b} h := by revert h; cases a <;> cases b <;> decide

end SettlementStatus

end TollClearing
