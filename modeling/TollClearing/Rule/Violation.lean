import TollClearing.Decimal.Basic
import TollClearing.Code.Exchange

/-!
What can be wrong with a record, and how it reads.
-/

set_option autoImplicit false

namespace TollClearing

inductive Reason where
  | required
  | tooLong (limit : Nat)
  | holdsSeparator
  | holdsBlank
  | notCapitals (count : Nat)
  | notSerial (limit : Nat)
  | outOfRange (low high value : Int)
  | tooLarge (limit : Nat)
  | tooManyPlaces (limit : Nat)
  | negative
  | sameAs (other : String)
  | planReversed
  | planRepeated (id : String)
  | adjustmentOnCharge (code : RecordCode)
  | noAdjustment (code : RecordCode)
  | plateNeeded (kind : ChargeKind)
  | exceeds (member bound : String)
  | entryAfterExit
  | periodReversed
  | netOverflow
  | netDiffers (expected : Decimal)
  | notZeroWithout (count : String)
  | unrepresentable
  | notInitial (subject : String) (allowed : List String) (status : String)
  | otherParties (charge away home : String)
  | predecessorMissing (number : Nat) (charge : String)
  deriving DecidableEq, Repr

def Reason.text : Reason → String
  | .required => "is required"
  | .tooLong limit => s!"must be at most {limit} characters"
  | .holdsSeparator => "must not contain '_'"
  | .holdsBlank => "must not contain whitespace"
  | .notCapitals count => s!"must be {count} uppercase letters"
  | .notSerial limit => s!"must be at most {limit} letters or digits"
  | .outOfRange low high value => s!"must be between {low} and {high}, got {value}"
  | .tooLarge limit => s!"must not exceed {limit} in magnitude"
  | .tooManyPlaces limit => s!"must have at most {limit} decimal places"
  | .negative => "must not be negative"
  | .sameAs other => "must differ from " ++ other
  | .planReversed => "endDate must not be before startDate"
  | .planRepeated id => "duplicate plan '" ++ id ++ "'"
  | .adjustmentOnCharge code =>
    "adjustment code " ++ code.wire ++ " is only valid on a correction"
  | .noAdjustment code => "correction requires an adjustment code, got " ++ code.wire
  | .plateNeeded kind => "is required for " ++ kind.wire ++ " records"
  | .exceeds member bound => member ++ " must not exceed " ++ bound
  | .entryAfterExit => "entryDateTime must not be after exitDateTime"
  | .periodReversed => "periodEnd must be after periodStart"
  | .netOverflow => "grossAmount - feeAmount + correctionAmount overflows"
  | .netDiffers expected =>
    "netAmount must equal grossAmount - feeAmount + correctionAmount (" ++ expected.text ++ ")"
  | .notZeroWithout count => "must be zero when " ++ count ++ " is zero"
  | .unrepresentable => "exceeds the representable amount"
  | .notInitial subject allowed status =>
    "a new " ++ subject ++ " must be created as " ++ String.intercalate " or " allowed
      ++ ", got " ++ status
  | .otherParties charge away home =>
    "charge " ++ charge ++ " is from " ++ away ++ " to " ++ home
  | .predecessorMissing number charge =>
    s!"correction {number} of charge " ++ charge ++ " has not been recorded"

/-- A member whose value is rejected, or whose code is in no closed set. -/
inductive Violation where
  | rejected (member : String) (reason : Reason)
  | unknownCode (member value : String)
  deriving DecidableEq, Repr

namespace Violation

def member : Violation → String
  | .rejected member _ => member
  | .unknownCode member _ => member

def text : Violation → String
  | .rejected member reason => "validation failed on " ++ member ++ ": " ++ reason.text
  | .unknownCode member value =>
    "invalid " ++ member ++ ": unrecognized code '" ++ value ++ "'"

end Violation

/-- The outcome of a rule: it passes, or the first violation. -/
abbrev Check := Except Violation Unit

end TollClearing
