import TollClearing.House.Policy
import TollClearing.Toml.Reader

/-!
Policies as settings. Each setting may be left out, which leaves it as the standard policy has it,
and settings of other names are passed over.
-/

set_option autoImplicit false

namespace TollClearing.House

inductive SettingsFault where
  | malformed
  | noLimit
  deriving DecidableEq, Repr

def SettingsFault.text : SettingsFault → String
  | .malformed => "configuration error: not a policy"
  | .noLimit => "configuration error: query_limit must be at least 1"

def isNothing : Toml → Bool
  | .array [] => true
  | .table _ [] => true
  | _ => false

/-- A rule by its name, which may also be the only key of a table. -/
def Resubmission.ofSetting? : Toml → Option Resubmission
  | .string s => ofName? s
  | .table _ [(name, v)] => if isNothing v then ofName? name else none
  | _ => none

def truth? : Toml → Option Bool
  | .boolean b => some b
  | _ => none

def natural? : Toml → Option Nat
  | .integer n => if 0 ≤ n then some n.toNat else none
  | _ => none

/-- The setting `name`, or `standard` where it is left out. -/
def setting {α : Type} (rows : Toml.Rows) (name : String) (standard : α) (read? : Toml → Option α) :
    Option α :=
  match rows.lookup name with
  | none => some standard
  | some v => read? v

namespace Policy

def ofRows (rows : Toml.Rows) : Except SettingsFault Policy :=
  let resubmission? :=
    setting rows "reconciliation_policy" standard.resubmission Resubmission.ofSetting?
  let verify? := setting rows "verify_references" standard.verify truth?
  let limit? := setting rows "query_limit" standard.limit natural?
  match resubmission?, verify?, limit? with
  | some resubmission, some verify, some limit =>
    if 0 < limit then .ok ⟨resubmission, verify, limit⟩ else .error .noLimit
  | _, _, _ => .error .malformed

def ofText (s : String) : Except SettingsFault Policy :=
  match Toml.ofText? s with
  | none => .error .malformed
  | some rows => ofRows rows

end Policy

end TollClearing.House
