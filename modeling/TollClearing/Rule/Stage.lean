import TollClearing.Record.Basic
import TollClearing.Rule.Violation

/-!
The stages of checking a record. They run in order and the first violation ends the check, so a
record without a required member reports nothing else.
-/

set_option autoImplicit false

namespace TollClearing

inductive Stage where
  | required
  | codes
  | ranges
  | crossMember
  | conditional
  deriving DecidableEq, Repr

namespace Stage

def all : List Stage := [.required, .codes, .ranges, .crossMember, .conditional]

def name : Stage → String
  | .required => "required"
  | .codes => "enumerations"
  | .ranges => "ranges"
  | .crossMember => "cross-field"
  | .conditional => "conditional"

theorem mem_all (s : Stage) : s ∈ all := by cases s <;> decide

def run (check : Stage → Check) : Check := all.forM check

end Stage

end TollClearing
