import TollClearing.Record.Basic

/-!
Lifecycles: which states a record may be created in, and which state may follow which. A state
that a table does not list is unknown to it, and a final state is listed with none to follow.
-/

set_option autoImplicit false

namespace TollClearing

/-- The states that a record may be created in, and the states that may follow each state. Of two
rows for one state the first counts. -/
structure Transitions (σ : Type) where
  subject : String
  initial : List σ
  rows : List (σ × List σ)

inductive Refusal where
  | unknownState (subject state : String)
  | notListed (subject source target : String)
  deriving DecidableEq, Repr

def Refusal.text : Refusal → String
  | .unknownState subject state => "unknown current " ++ subject ++ " status '" ++ state ++ "'"
  | .notListed subject source target =>
    "cannot transition " ++ subject ++ " from " ++ source ++ " to " ++ target

namespace Transitions

variable {σ : Type} [Code σ] [DecidableEq σ] (t : Transitions σ)

def isInitial (s : σ) : Bool := t.initial.contains s

def next? (s : σ) : Option (List σ) := t.rows.lookup s

def allows (source target : σ) : Bool :=
  match t.next? source with
  | some targets => targets.contains target
  | none => false

def check (source target : σ) : Except Refusal Unit :=
  match t.next? source with
  | none => .error (.unknownState t.subject (Code.wire source))
  | some targets =>
    if targets.contains target then .ok ()
    else .error (.notListed t.subject (Code.wire source) (Code.wire target))

theorem check_eq_ok_iff {source target : σ} :
    t.check source target = .ok () ↔ t.allows source target = true := by
  unfold check allows
  cases t.next? source with
  | none => simp
  | some targets => by_cases h : targets.contains target <;> simp_all

end Transitions

class Staged (R : Type) (σ : outParam Type) [Code σ] extends Recorded R where
  member : String
  transitions : Transitions σ
  status : R → Option σ
  withStatus : σ → R → R
  status_withStatus : ∀ s r, status (withStatus s r) = some s

instance : Staged Agency AgencyStatus where
  member := "status"
  transitions :=
    { subject := "agency"
      initial := [.active, .suspended, .inactive]
      rows :=
        [(.active, [.suspended, .inactive]), (.suspended, [.active, .inactive]),
          (.inactive, [.active])] }
  status := Agency.status
  withStatus s a := { a with status := some s }
  status_withStatus _ _ := rfl

instance : Staged Tag TagStatus where
  member := "tagStatus"
  transitions :=
    { subject := "tag"
      initial := [.valid, .invalid, .inactive, .lost, .stolen]
      rows :=
        [(.valid, [.invalid, .inactive, .lost, .stolen]), (.invalid, [.valid]),
          (.inactive, [.valid, .invalid]), (.lost, [.valid, .invalid]),
          (.stolen, [.valid, .invalid])] }
  status := Tag.status
  withStatus s t := { t with status := some s }
  status_withStatus _ _ := rfl

instance : Staged Charge ChargeStatus where
  member := "status"
  transitions :=
    { subject := "charge"
      initial := [.pending]
      rows :=
        [(.pending, [.posted, .rejected]), (.posted, [.settled, .disputed]),
          (.disputed, [.posted]), (.rejected, []), (.settled, [])] }
  status := Charge.status
  withStatus s c := { c with status := some s }
  status_withStatus _ _ := rfl

instance : Staged Settlement SettlementStatus where
  member := "status"
  transitions :=
    { subject := "settlement"
      initial := [.draft]
      rows :=
        [(.draft, [.submitted]), (.submitted, [.accepted, .disputed]),
          (.disputed, [.accepted, .cancelled]), (.accepted, [.paid]), (.cancelled, []),
          (.paid, [])] }
  status := Settlement.status
  withStatus s b := { b with status := some s }
  status_withStatus _ _ := rfl

end TollClearing
