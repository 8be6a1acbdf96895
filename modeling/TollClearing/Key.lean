import TollClearing.Text.Digits

/-!
Names in the store. A key is a prefix that tells the kind of record, followed by what identifies
the record; the records between two agencies lie in a partition named after both, the lesser name
first, so that it does not matter who is named first.
-/

set_option autoImplicit false

namespace TollClearing.Key

open TollClearing.Text

def separator : Char := '_'

def compose (components : List String) : String := String.intercalate separator.toString components

/-- A number with zeros in front, so that keys sort as their numbers do. -/
def ordinal (width n : Nat) : String := String.ofList (padded width n)

def partition (domain a b : String) : String :=
  if a ≤ b then compose [domain, a, b] else compose [domain, b, a]

def chargePartition (a b : String) : String := partition "charges" a b

def settlementPartition (a b : String) : String := partition "settlements" a b

def agency (id : String) : String := compose ["AGENCY", id]

def tag (agency serial : String) : String := compose ["TAG", agency, serial]

def charge (id : String) : String := compose ["CHARGE", id]

def correction (charge : String) (number : Nat) : String :=
  compose ["CORR", charge, ordinal 3 number]

def reconciliation (charge : String) : String := compose ["RECON", charge]

def acknowledgement (id : String) : String := compose ["ACK", id]

def settlement (id : String) : String := compose ["SETTLE", id]

theorem partition_comm (domain a b : String) : partition domain a b = partition domain b a := by
  unfold partition
  by_cases hab : a ≤ b
  · by_cases hba : b ≤ a
    · rw [String.le_antisymm hab hba]
    · simp [hab, hba]
  · have hba : b ≤ a := (String.le_total a b).resolve_left hab
    simp [hab, hba]

end TollClearing.Key
