import TollClearing.Ledger.Selector
import TollClearing.Record.Basic

/-!
The ledger: values under keys, in a store that all agencies share and in partitions of two
agencies each. What a slot holds after a write is said by `find?_write`, and that no other slot
changes by `find?_write_of_ne`.
-/

set_option autoImplicit false

namespace TollClearing

structure Ledger where
  shared : Table ByteArray
  partitions : Table (Table ByteArray)
  deriving Inhabited

namespace Ledger

def empty : Ledger := ⟨.empty, .empty⟩

/-- What a scope holds; a partition that has not been written to holds nothing. -/
def table (l : Ledger) : Scope → Table ByteArray
  | .shared => l.shared
  | .partition name => (l.partitions.find? name).getD .empty

def find? (l : Ledger) (slot : Slot) : Option ByteArray := (l.table slot.scope).find? slot.key

def write (l : Ledger) (slot : Slot) (value : ByteArray) : Ledger :=
  let table := (l.table slot.scope).insert slot.key value
  match slot.scope with
  | .shared => { l with shared := table }
  | .partition name => { l with partitions := l.partitions.insert name table }

theorem table_write (l : Ledger) (slot : Slot) (value : ByteArray) (scope : Scope) :
    (l.write slot value).table scope =
      if scope = slot.scope then (l.table slot.scope).insert slot.key value else l.table scope := by
  obtain ⟨target, key⟩ := slot
  cases target with
  | shared => cases scope <;> simp [write, table]
  | partition name =>
    cases scope with
    | shared => simp [write, table]
    | partition other =>
      by_cases h : other = name <;> simp [write, table, Table.find?_insert, h]

theorem find?_write (l : Ledger) (slot : Slot) (value : ByteArray) :
    (l.write slot value).find? slot = some value := by
  simp [find?, table_write, Table.find?_insert]

theorem find?_write_of_ne {l : Ledger} {slot other : Slot} {value : ByteArray} (h : other ≠ slot) :
    (l.write slot value).find? other = l.find? other := by
  obtain ⟨scope, key⟩ := slot
  obtain ⟨otherScope, otherKey⟩ := other
  by_cases hs : otherScope = scope
  · subst hs
    have hk : otherKey ≠ key := fun e => h (e ▸ rfl)
    simp [find?, table_write, Table.find?_insert, hk]
  · simp [find?, table_write, hs]

/-- The values of a scope that a selector finds, with their keys, in ascending order of the keys:
the first ones, as many as the selector allows. -/
def select (l : Ledger) (scope : Scope) (s : Selector) : List (String × ByteArray) :=
  let hits := (l.table scope).rows.filter fun row => s.acceptsBytes row.2
  match s.limit with
  | some n => hits.take n
  | none => hits

inductive EmptyName where
  | key
  | partition
  deriving DecidableEq, Repr

def EmptyName.text : EmptyName → String
  | .key => "invalid key: must not be empty"
  | .partition => "invalid partition: must not be empty"

def checkScope : Scope → Except EmptyName Unit
  | .shared => .ok ()
  | .partition name => if name = "" then .error .partition else .ok ()

/-- The names of a slot are not empty. The partition's name is looked at first. -/
def checkSlot (slot : Slot) : Except EmptyName Unit := do
  checkScope slot.scope
  if slot.key = "" then .error .key else .ok ()

def get (l : Ledger) (slot : Slot) : Except EmptyName (Option ByteArray) := do
  checkSlot slot
  .ok (l.find? slot)

def put (l : Ledger) (slot : Slot) (value : ByteArray) : Except EmptyName Ledger := do
  checkSlot slot
  .ok (l.write slot value)

def query (l : Ledger) (scope : Scope) (s : Selector) :
    Except EmptyName (List (String × ByteArray)) := do
  checkScope scope
  .ok (l.select scope s)

end Ledger

end TollClearing
