import TollClearing.Record.Basic
import TollClearing.Rule.Charge
import TollClearing.Rule.Party
import TollClearing.Rule.Settlement

/-!
Rules for a record of any kind.
-/

set_option autoImplicit false

namespace TollClearing.Record

def check : Record → Stage → Check
  | .agency a => a.check
  | .tag t => t.check
  | .charge c => c.check
  | .correction c => c.check
  | .reconciliation r => r.check
  | .acknowledgement a => a.check
  | .settlement s => s.check

/-- Runs every stage, up to the first violation. -/
def validate (r : Record) : Check := Stage.run r.check

end TollClearing.Record
