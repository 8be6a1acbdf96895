import TollClearing.Json.Value

/-!
Policies: what the clearing house leaves open to those who run it.
-/

set_option autoImplicit false

namespace TollClearing.House

inductive Resubmission where
  /-- It is a duplicate. -/
  | strict
  /-- It replaces the first one if it has been resubmitted more often. -/
  | supersede
  deriving DecidableEq, Repr

structure Policy where
  resubmission : Resubmission
  /-- Whether the agencies that a tag, a charge or a settlement names have to be known. -/
  verify : Bool
  limit : Nat
  deriving DecidableEq, Repr

namespace Policy

def standard : Policy := ⟨.strict, true, 1000⟩

instance : Inhabited Policy := ⟨standard⟩

end Policy

namespace Resubmission

def name : Resubmission → String
  | .strict => "strict"
  | .supersede => "supersede"

def ofName? (s : String) : Option Resubmission :=
  if s = "strict" then some .strict else if s = "supersede" then some .supersede else none

theorem ofName?_name (r : Resubmission) : ofName? r.name = some r := by cases r <;> decide

end Resubmission

namespace Policy

def toJson (p : Policy) : Json :=
  .object
    [("reconciliation_policy", .string p.resubmission.name),
      ("verify_references", .bool p.verify), ("query_limit", .number (.whole p.limit))]

def settings (p : Policy) : String :=
  "reconciliation_policy = \"" ++ p.resubmission.name ++ "\"\n"
    ++ "verify_references = " ++ (if p.verify then "true" else "false") ++ "\n"
    ++ "query_limit = " ++ String.ofList (Text.digits p.limit) ++ "\n"

end Policy

end TollClearing.House
