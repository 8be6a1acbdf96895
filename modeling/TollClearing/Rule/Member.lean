import TollClearing.Key
import TollClearing.Rule.Violation
import TollClearing.Text.Blank

/-!
Checks on single members, of which the rules for records are made.
-/

set_option autoImplicit false

namespace TollClearing.Rule

open TollClearing.Text

def maxIdentifierLength : Nat := 32

def moneyPlaces : Nat := 2

def maxMoney : Nat := 1000000000000

def ensure (condition : Bool) (member : String) (reason : Reason) : Check :=
  if condition then .ok () else .error (.rejected member reason)

def require (member value : String) : Check := ensure (!allBlank value) member .required

def requireSome {α : Type} (member : String) (value : Option α) : Check :=
  ensure value.isSome member .required

def knownCode {α : Type} (ofWire? : String → Option α) (member value : String) :
    Except Violation α :=
  match ofWire? value with
  | some a => .ok a
  | none => .error (.unknownCode member value)

/-- What becomes a component of a key holds neither the separator nor blanks, so that keys tell
their components apart. -/
def identifier (member value : String) : Check := do
  ensure (value.utf8ByteSize ≤ maxIdentifierLength) member (.tooLong maxIdentifierLength)
  ensure (!value.toList.contains Key.separator) member .holdsSeparator
  ensure (!value.toList.any fun c => isBlank c || isControl c) member .holdsBlank

def capitals (member value : String) (count : Nat) : Check :=
  ensure (value.utf8ByteSize = count && value.toList.all Char.isUpper) member (.notCapitals count)

def inRange (member : String) (value low high : Int) : Check :=
  ensure (low ≤ value && value ≤ high) member (.outOfRange low high value)

/-- An amount of whole cents of either sign, within the largest amount. -/
def cents (member : String) (value : Decimal) : Check := do
  ensure (value.size ≤ maxMoney * tenTo value.scale) member (.tooLarge maxMoney)
  ensure (value.places ≤ moneyPlaces) member (.tooManyPlaces moneyPlaces)

def money (member : String) (value : Decimal) : Check := do
  ensure (0 ≤ value.units) member .negative
  cents member value

def moneyIfSome (member : String) (value : Option Decimal) : Check :=
  match value with
  | some a => money member a
  | none => .ok ()

/-- An amount that another one, if there is one, bounds. -/
def notAbove (member : String) (value : Decimal) (boundMember : String) (bound : Option Decimal) :
    Check :=
  match bound with
  | some b => ensure (value ≤ b) member (.exceeds member boundMember)
  | none => .ok ()

def distinct (member value otherMember other : String) : Check :=
  ensure (value ≠ other) member (.sameAs otherMember)

end TollClearing.Rule
