import TollClearing.Record.Basic

/-!
Records as JSON texts. A stored record is an object whose first member tells its kind; it is read
back whatever the order of its members, but none may be repeated. A payload is read more kindly:
its kind may be left out, and of repeated members the last counts.
-/

set_option autoImplicit false

namespace TollClearing

inductive Malformed where
  | notJson
  | noDocType
  | misfit (m : Misfit)
  | otherRecord (wanted found : DocType)
  | otherDocType (wanted : DocType) (found : Json)
  deriving Repr

def Malformed.text : Malformed → String
  | .notJson => "not a JSON text"
  | .noDocType => "no known docType"
  | .misfit m => m.text
  | .otherRecord wanted found =>
    "expected " ++ wanted.wire ++ " record, found " ++ found.wire
  | .otherDocType wanted found =>
    "expected docType '" ++ wanted.wire ++ "', found " ++ found.canonical.compact

namespace Record

def docTypeName : String := "docType"

def toJson (r : Record) : Json :=
  .object ((docTypeName, .string r.docType.wire) :: r.members)

def text (r : Record) : String := r.toJson.compact

def encode (r : Record) : ByteArray := r.text.toUTF8

/-- What `docType` tells the rest to be: its members or, without names, its items. -/
def ofParts (docType : DocType) (rest : Json) : Except Misfit Record :=
  match docType with
  | .agency => (Agency.layout.ofJson rest).map .agency
  | .tag => (Tag.layout.ofJson rest).map .tag
  | .charge => (Charge.layout.ofJson rest).map .charge
  | .correction => (Correction.layout.ofJson rest).map .correction
  | .reconciliation => (Reconciliation.layout.ofJson rest).map .reconciliation
  | .acknowledgement => (Acknowledgement.layout.ofJson rest).map .acknowledgement
  | .settlement => (Settlement.layout.ofJson rest).map .settlement

/-- The kind of a stored record, told by exactly one member or by the first item, and the rest. -/
def splitDocType? : Json → Option (DocType × Json)
  | .object ms =>
    match ms.filter (·.1 = docTypeName) with
    | [(_, .string s)] =>
      (Code.ofWire? s).map fun docType => (docType, .object (ms.filter (·.1 ≠ docTypeName)))
    | _ => none
  | .array (.string s :: vs) => (Code.ofWire? s).map fun docType => (docType, .array vs)
  | _ => none

def ofJson (v : Json) : Except Malformed Record :=
  match splitDocType? v with
  | none => .error .noDocType
  | some (docType, rest) => (ofParts docType rest).mapError .misfit

/-- Reads a stored record of any kind. What is wrong with the record comes before what follows
it. -/
def decode (bytes : ByteArray) : Except Malformed Record :=
  match Json.ofFront? bytes with
  | none => .error .notJson
  | some (v, alone) => do
    let r ← ofJson v
    if alone then .ok r else .error .notJson

def decodeAs (docType : DocType) (bytes : ByteArray) : Except Malformed Record := do
  let r ← decode bytes
  if r.docType = docType then .ok r else .error (.otherRecord docType r.docType)

def decodeTo (R : Type) [Recorded R] (bytes : ByteArray) : Except Malformed R := do
  let r ← decode bytes
  match Recorded.ofRecord? r with
  | some a => .ok a
  | none => .error (.otherRecord (Recorded.docType R) r.docType)

def checkDocType (docType : DocType) : Json → Except Malformed Unit
  | .object ms =>
    match ms.lookup docTypeName with
    | none => .ok ()
    | some (.string s) =>
      if s = docType.wire then .ok () else .error (.otherDocType docType (.string s))
    | some v => .error (.otherDocType docType v)
  | _ => .ok ()

def ofPayload (docType : DocType) (payload : String) : Except Malformed Record :=
  match Json.parse? payload with
  | none => .error .notJson
  | some v => do
    let v := v.canonical
    checkDocType docType v
    (ofParts docType v).mapError .misfit

end Record

end TollClearing
