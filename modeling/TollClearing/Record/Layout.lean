import TollClearing.Json.Value

/-!
Layouts of records. A layout lists the members of a record once, each with its name, the way its
value is read and written, and where it is found in the record; it serves both for reading and
for writing. Members may come in any order or, without names, as the items of an array.
-/

set_option autoImplicit false

namespace TollClearing

inductive Misfit where
  | unknownCode (refusal : String)
  | wrongValue (wanted : String)
  | repeated (name : String)
  | tooManyItems
  deriving DecidableEq, Repr

def Misfit.text : Misfit → String
  | .unknownCode refusal => refusal
  | .wrongValue wanted => "expected " ++ wanted
  | .repeated name => "repeated member " ++ name
  | .tooManyItems => "too many items"

/-- How the value of a member is read, what it is without the member, and how it is written,
where `none` leaves the member out. -/
structure Column (α : Type) where
  read : Json → Except Misfit α
  absent : α
  write : α → Option Json

/-- Columns named in order, what is built from the members, and the members of a record. -/
structure Layout (ρ α : Type) where
  columns : List (String × (Json → Option Misfit))
  build : Json.Members → α
  write : ρ → Json.Members

namespace Column

variable {α : Type}

def misfit? (c : Column α) (v : Json) : Option Misfit :=
  match c.read v with
  | .error e => some e
  | .ok _ => none

def value (c : Column α) (name : String) (ms : Json.Members) : α :=
  match ms.lookup name with
  | none => c.absent
  | some v =>
    match c.read v with
    | .ok a => a
    | .error _ => c.absent

def member (c : Column α) (name : String) (a : α) : Json.Members :=
  match c.write a with
  | none => []
  | some v => [(name, v)]

end Column

namespace Layout

variable {ρ α β : Type}

def column (name : String) (c : Column α) (get : ρ → α) : Layout ρ α where
  columns := [(name, c.misfit?)]
  build := c.value name
  write r := c.member name (get r)

instance : Functor (Layout ρ) where
  map f l := ⟨l.columns, fun ms => f (l.build ms), l.write⟩

instance : Seq (Layout ρ) where
  seq f x := ⟨f.columns ++ (x ()).columns, fun ms => f.build ms ((x ()).build ms),
    fun r => f.write r ++ (x ()).write r⟩

/-- The first fault among members: a value that does not fit, or a known name met again. -/
def firstMisfit (columns : List (String × (Json → Option Misfit))) (seen : List String) :
    Json.Members → Option Misfit
  | [] => none
  | (name, v) :: ms =>
    match columns.lookup name with
    | none => firstMisfit columns seen ms
    | some check =>
      if name ∈ seen then some (.repeated name)
      else
        match check v with
        | some e => some e
        | none => firstMisfit columns (name :: seen) ms

/-- Reads members, which may come in any order. Unknown ones are passed over. -/
def ofMembers (l : Layout ρ α) (ms : Json.Members) : Except Misfit α :=
  match firstMisfit l.columns [] ms with
  | some e => .error e
  | none => .ok (l.build ms)

/-- Reads values that stand in the order of the columns; the last ones may be missing. -/
def ofItems (l : Layout ρ α) (vs : List Json) : Except Misfit α := do
  let a ← l.ofMembers ((l.columns.map (·.1)).zip vs)
  if l.columns.length < vs.length then .error .tooManyItems else .ok a

def ofJson (l : Layout ρ α) : Json → Except Misfit α
  | .object ms => l.ofMembers ms
  | .array vs => l.ofItems vs
  | _ => .error (.wrongValue "a record")

end Layout

end TollClearing
