import TollClearing.Json.Printer
import TollClearing.Json.Reader

/-!
Selectors: what the members of a record have to be for a query to find it, and how many records
it may find.
-/

set_option autoImplicit false

namespace TollClearing

structure Selector where
  fields : Table String
  limit : Option Nat
  deriving Inhabited

namespace Selector

def all : Selector := ⟨.empty, none⟩

def field (name value : String) (s : Selector) : Selector :=
  { s with fields := s.fields.insert name value }

def atMost (limit : Nat) (s : Selector) : Selector := { s with limit := some limit }

/-- Whether a value is the one a text asks for: the text itself, or the way the value is written
if it is a number or a truth value. -/
def isWritten (text : String) : Json → Bool
  | .string s => s = text
  | .number n => n.text = text.toList
  | .bool b => Json.boolText b = text.toList
  | _ => false

def accepts (s : Selector) (v : Json) : Bool :=
  s.fields.rows.all fun (name, text) =>
    match v.member? name with
    | some w => isWritten text w
    | none => false

/-- Bytes that are no JSON text are never found. -/
def acceptsBytes (s : Selector) (bytes : ByteArray) : Bool :=
  match Json.ofBytes? bytes with
  | some v => s.accepts v
  | none => false

def fieldsJson (s : Selector) : Json :=
  .object (s.fields.rows.map fun (name, text) => (name, .string text))

def text (s : Selector) : String := s.fieldsJson.compact

def toJson (s : Selector) : Json :=
  .object (("fields", s.fieldsJson) ::
    match s.limit with
    | some n => [("limit", .number (.whole n))]
    | none => [])

end Selector

end TollClearing
