import TollClearing.Json.Number
import TollClearing.Table

/-!
JSON values. An object keeps its members as written, in order and with repetitions; its canonical
form has them in ascending order of their names, the last of repeated members counting.
-/

set_option autoImplicit false

namespace TollClearing

inductive Json where
  | null
  | bool (b : Bool)
  | number (n : Json.Number)
  | string (s : String)
  | array (items : List Json)
  | object (members : List (String × Json))
  deriving Repr, Inhabited

namespace Json

abbrev Members := List (String × Json)

/-- The value of a member of an object; of repeated members the last counts. -/
def member? (name : String) : Json → Option Json
  | .object members => members.reverse.lookup name
  | _ => none

mutual

/-- Sorts the members of every object and drops all but the last of repeated ones. -/
def canonical : Json → Json
  | .array items => .array (canonicalItems items)
  | .object members => .object (Table.ofList (canonicalMembers members)).rows
  | v => v

def canonicalItems : List Json → List Json
  | [] => []
  | v :: vs => canonical v :: canonicalItems vs

def canonicalMembers : Members → Members
  | [] => []
  | (name, v) :: ms => (name, canonical v) :: canonicalMembers ms

end

end Json

end TollClearing
