import TollClearing.Ledger.Basic

/-!
Snapshots: a ledger as one JSON text. It can be taken only while every value of the ledger is a
JSON text itself; the values read back are written anew, with the members of every object in
order. Members other than `shared` and `partitions` are passed over, whatever bytes their strings
have, and both may be missing; they may also stand in an array, in this order.
-/

set_option autoImplicit false

namespace TollClearing.Ledger

open Json Text

def tableJson? (t : Table ByteArray) : Option Json :=
  (t.mapM? fun bytes => (Json.ofBytes? bytes).map canonical).map fun t => .object t.rows

def toJson? (l : Ledger) : Option Json := do
  let shared ← tableJson? l.shared
  let partitions ← l.partitions.mapM? tableJson?
  some (.object [("shared", shared), ("partitions", .object partitions.rows)])

def snapshot? (l : Ledger) : Option String := l.toJson?.map pretty

def valueBytes (v : Json) : ByteArray := v.canonical.compact.toUTF8

def readTable (depth : Nat) : List Char → Option (Table ByteArray × List Char)
  | '\x7b' :: s =>
    (readObject readString (fun _ => Json.read depth) s).map fun (ms, rest) =>
      ((Table.ofList ms).map valueBytes, rest)
  | _ => none

def readShared (s : List Char) : Option (Table ByteArray × List Char) := readTable (maxDepth - 2) s

def readPartitions : List Char → Option (Table (Table ByteArray) × List Char)
  | '\x7b' :: s =>
    (readObject readString (fun _ => readTable (maxDepth - 3)) s).map fun (ms, rest) =>
      (Table.ofList ms, rest)
  | _ => none

inductive Part where
  | shared (t : Table ByteArray)
  | partitions (t : Table (Table ByteArray))
  | unknown

def Part.shared? : Part → Option (Table ByteArray)
  | .shared t => some t
  | _ => none

def Part.partitions? : Part → Option (Table (Table ByteArray))
  | .partitions t => some t
  | _ => none

def readPart (alphabet : Alphabet) (name : String) (s : List Char) : Option (Part × List Char) :=
  if name = "shared" then
    (alphabet.read readShared s).map fun (t, rest) => (.shared t, rest)
  else if name = "partitions" then
    (alphabet.read readPartitions s).map fun (t, rest) => (.partitions t, rest)
  else (skip (s.length + 1) s).map fun (_, rest) => (.unknown, rest)

def onlyOr {α : Type} (default : α) : List α → Option α
  | [] => some default
  | [a] => some a
  | _ => none

/-- Both parts once at most. -/
def ofParts? (parts : List Part) : Option Ledger := do
  let shared ← onlyOr .empty (parts.filterMap Part.shared?)
  let partitions ← onlyOr .empty (parts.filterMap Part.partitions?)
  some ⟨shared, partitions⟩

def readInOrder (alphabet : Alphabet) (s : List Char) : Option (Ledger × List Char) :=
  match skipSpace s with
  | ']' :: s => some (.empty, s)
  | s => do
    let (shared, s) ← alphabet.read readShared s
    match skipSpace s with
    | ']' :: s => some (⟨shared, .empty⟩, s)
    | ',' :: s =>
      let (partitions, s) ← alphabet.read readPartitions (skipSpace s)
      match skipSpace s with
      | ']' :: s => some (⟨shared, partitions⟩, s)
      | _ => none
    | _ => none

def readSnapshot (alphabet : Alphabet) : List Char → Option (Ledger × List Char)
  | '\x7b' :: s => do
    let (parts, s) ← readObject (alphabet.read readString) (readPart alphabet) s
    let l ← ofParts? (parts.map (·.2))
    some (l, s)
  | '[' :: s => readInOrder alphabet s
  | _ => none

def ofSnapshot? (bytes : ByteArray) : Option Ledger :=
  match String.fromUTF8? bytes with
  | some s => readAll (readSnapshot .characters) s.toList
  | none => readAll (readSnapshot .bytes) (byteChars bytes)

end TollClearing.Ledger
