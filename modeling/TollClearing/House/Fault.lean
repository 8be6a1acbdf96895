import TollClearing.Ledger.Basic
import TollClearing.Lifecycle
import TollClearing.Record.Text
import TollClearing.Rule.Violation

/-!
Why a request is turned down, and how that reads.
-/

set_option autoImplicit false

namespace TollClearing.House

inductive Corruption where
  | malformed (m : Malformed)
  | noState (member : String)
  deriving Repr

def Corruption.text : Corruption → String
  | .malformed m => "serialization error: " ++ m.text
  | .noState member => "no " ++ member ++ " recorded"

inductive Fault where
  | malformed (m : Malformed)
  | notNumber (parameter argument : String)
  | notDate (parameter argument : String)
  | rejected (v : Violation)
  | present (key : String)
  | missing (key : String)
  | refused (r : Refusal)
  | unknownFunction (name : String)
  | wrongCount (function : String) (expected found : Nat)
  | unreadable (key : String) (c : Corruption)
  | emptyName (e : Ledger.EmptyName)
  deriving Repr

namespace Fault

def kind : Fault → String
  | .malformed _ | .notNumber .. | .notDate .. => "ParseError"
  | .rejected (.rejected ..) => "ValidationError"
  | .rejected (.unknownCode ..) => "InvalidEnumError"
  | .present _ => "DuplicateError"
  | .missing _ => "NotFoundError"
  | .refused _ => "InvalidTransitionError"
  | .unknownFunction _ => "UnknownFunctionError"
  | .wrongCount .. => "ArgumentError"
  | .unreadable .. => "CorruptRecordError"
  | .emptyName _ => "LedgerError"

def text : Fault → String
  | .malformed m => "parse error: " ++ m.text
  | .notNumber parameter argument =>
    "parse error: " ++ parameter ++ " '" ++ argument ++ "' is not a number"
  | .notDate parameter argument =>
    "parse error: " ++ parameter ++ " '" ++ argument ++ "': not a date"
  | .rejected v => v.text
  | .present key => key ++ " already exists"
  | .missing key => key ++ " does not exist"
  | .refused r => r.text
  | .unknownFunction name => "unknown function '" ++ name ++ "'"
  | .wrongCount function expected found =>
    function ++ s!" expects {expected} argument(s), got {found}"
  | .unreadable key c => "stored record " ++ key ++ " is unreadable: " ++ c.text
  | .emptyName e => "ledger error: " ++ e.text

end Fault

end TollClearing.House
