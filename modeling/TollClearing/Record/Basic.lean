import TollClearing.Key
import TollClearing.Json.Printer
import TollClearing.Json.Reader
import TollClearing.Record.Acknowledgement
import TollClearing.Record.Agency
import TollClearing.Record.Charge
import TollClearing.Record.Correction
import TollClearing.Record.Reconciliation
import TollClearing.Record.Settlement

/-!
Records of every kind, where they lie, and how they are stamped. A record is the sum of the seven
kinds; `Recorded` says how each kind is part of it.
-/

set_option autoImplicit false

namespace TollClearing

inductive Record where
  | agency (a : Agency)
  | tag (t : Tag)
  | charge (c : Charge)
  | correction (c : Correction)
  | reconciliation (r : Reconciliation)
  | acknowledgement (a : Acknowledgement)
  | settlement (s : Settlement)
  deriving DecidableEq, Repr

/-- A kind of record: its embedding among all records, and the way back. -/
class Recorded (R : Type) where
  docType : DocType
  toRecord : R → Record
  ofRecord? : Record → Option R
  ofRecord?_eq_some_iff : ∀ {record r}, ofRecord? record = some r ↔ record = toRecord r

/-- Where a record lies: in the store that all agencies share, or in a partition of two. -/
inductive Scope where
  | shared
  | partition (name : String)
  deriving DecidableEq, Repr

def Scope.text : Scope → String
  | .shared => "shared"
  | .partition name => "partition " ++ name

structure Slot where
  scope : Scope
  key : String
  deriving DecidableEq, Repr

instance : Recorded Agency where
  docType := .agency
  toRecord := .agency
  ofRecord?
    | .agency a => some a
    | _ => none
  ofRecord?_eq_some_iff {record r} := by cases record <;> simp

instance : Recorded Tag where
  docType := .tag
  toRecord := .tag
  ofRecord?
    | .tag t => some t
    | _ => none
  ofRecord?_eq_some_iff {record r} := by cases record <;> simp

instance : Recorded Charge where
  docType := .charge
  toRecord := .charge
  ofRecord?
    | .charge c => some c
    | _ => none
  ofRecord?_eq_some_iff {record r} := by cases record <;> simp

instance : Recorded Correction where
  docType := .correction
  toRecord := .correction
  ofRecord?
    | .correction c => some c
    | _ => none
  ofRecord?_eq_some_iff {record r} := by cases record <;> simp

instance : Recorded Reconciliation where
  docType := .reconciliation
  toRecord := .reconciliation
  ofRecord?
    | .reconciliation r => some r
    | _ => none
  ofRecord?_eq_some_iff {record r} := by cases record <;> simp

instance : Recorded Acknowledgement where
  docType := .acknowledgement
  toRecord := .acknowledgement
  ofRecord?
    | .acknowledgement a => some a
    | _ => none
  ofRecord?_eq_some_iff {record r} := by cases record <;> simp

instance : Recorded Settlement where
  docType := .settlement
  toRecord := .settlement
  ofRecord?
    | .settlement s => some s
    | _ => none
  ofRecord?_eq_some_iff {record r} := by cases record <;> simp

namespace Record

def docType : Record → DocType
  | .agency _ => .agency
  | .tag _ => .tag
  | .charge _ => .charge
  | .correction _ => .correction
  | .reconciliation _ => .reconciliation
  | .acknowledgement _ => .acknowledgement
  | .settlement _ => .settlement

def key : Record → String
  | .agency a => Key.agency a.id
  | .tag t => Key.tag t.agency t.serial
  | .charge c => Key.charge c.id
  | .correction c => Key.correction c.charge c.number.toNat
  | .reconciliation r => Key.reconciliation r.charge
  | .acknowledgement a => Key.acknowledgement a.id
  | .settlement s => Key.settlement s.id

def partition? : Record → Option String
  | .charge c => some (Key.chargePartition c.away c.home)
  | .correction c => some (Key.chargePartition c.away c.home)
  | .reconciliation r => some (Key.chargePartition r.away r.home)
  | .settlement s => some (Key.settlementPartition s.payor s.payee)
  | .agency _ | .tag _ | .acknowledgement _ => none

def scope (r : Record) : Scope :=
  match r.partition? with
  | some name => .partition name
  | none => .shared

def slot (r : Record) : Slot := ⟨r.scope, r.key⟩

def createdAt : Record → Option Instant
  | .agency a => a.createdAt
  | .tag t => t.createdAt
  | .charge c => c.createdAt
  | .correction c => c.createdAt
  | .reconciliation r => r.createdAt
  | .acknowledgement a => a.createdAt
  | .settlement s => s.createdAt

def updatedAt : Record → Option Instant
  | .agency a => a.updatedAt
  | .tag t => t.updatedAt
  | .charge c => c.updatedAt
  | .correction c => c.updatedAt
  | .reconciliation r => r.updatedAt
  | .acknowledgement a => a.updatedAt
  | .settlement s => s.updatedAt

def withTimes (created updated : Option Instant) : Record → Record
  | .agency a => .agency { a with createdAt := created, updatedAt := updated }
  | .tag t => .tag { t with createdAt := created, updatedAt := updated }
  | .charge c => .charge { c with createdAt := created, updatedAt := updated }
  | .correction c => .correction { c with createdAt := created, updatedAt := updated }
  | .reconciliation r => .reconciliation { r with createdAt := created, updatedAt := updated }
  | .acknowledgement a => .acknowledgement { a with createdAt := created, updatedAt := updated }
  | .settlement s => .settlement { s with createdAt := created, updatedAt := updated }

def stampCreated (now : Instant) (r : Record) : Record := r.withTimes (some now) (some now)

def stampUpdated (now : Instant) (r : Record) : Record := r.withTimes r.createdAt (some now)

def members : Record → Json.Members
  | .agency a => Agency.layout.write a
  | .tag t => Tag.layout.write t
  | .charge c => Charge.layout.write c
  | .correction c => Correction.layout.write c
  | .reconciliation r => Reconciliation.layout.write r
  | .acknowledgement a => Acknowledgement.layout.write a
  | .settlement s => Settlement.layout.write s

end Record

end TollClearing
