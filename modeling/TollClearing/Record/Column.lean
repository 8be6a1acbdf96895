import TollClearing.Record.Layout
import TollClearing.Code.Basic
import TollClearing.Decimal.Reader
import TollClearing.Calendar.Instant

/-!
The columns that records are made of. A plain column needs its value; one that may be missing
takes `null` for it, and a blank-tolerant one takes blank text too.
-/

set_option autoImplicit false

namespace TollClearing

structure Scalar (α : Type) where
  read : Json → Except Misfit α
  write : α → Json

namespace Scalar

def text : Scalar String where
  read
    | .string s => .ok s
    | _ => .error (.wrongValue "a string")
  write := .string

def parsed {α : Type} (what : String) (parse? : String → Option α) (print : α → String) :
    Scalar α where
  read
    | .string s =>
      match parse? s with
      | some a => .ok a
      | none => .error (.wrongValue what)
    | _ => .error (.wrongValue what)
  write a := .string (print a)

def date : Scalar Date := parsed "a date" Date.ofText? Date.text

def instant : Scalar Instant := parsed "a date and time" Instant.ofText? Instant.text

def code {α : Type} [Code α] : Scalar α where
  read
    | .string s =>
      match Code.ofWire? s with
      | some a => .ok a
      | none => .error (.unknownCode (Code.refusal α s))
    | _ => .error (.wrongValue "a string")
  write a := .string (Code.wire a)

/-- Amounts are written as text with all their places. A number is read as it would be written
in full. -/
def decimal : Scalar Decimal where
  read v :=
    let amount? : Option Decimal := match v with
      | .string s => Decimal.ofText? s
      | .number (.whole n) => Decimal.ofUnits? n 0
      | .number (.real x) => Decimal.plain? x.plain
      | _ => none
    match amount? with
    | some a => .ok a
    | none => .error (.wrongValue "an amount")
  write a := .string a.text

def byte : Scalar UInt8 where
  read
    | .number (.whole n) =>
      if 0 ≤ n ∧ n < 256 then .ok (UInt8.ofNat n.toNat) else .error (.wrongValue "a byte")
    | _ => .error (.wrongValue "a byte")
  write n := .number (.whole n.toNat)

def count : Scalar UInt32 where
  read
    | .number (.whole n) =>
      if 0 ≤ n ∧ n < 4294967296 then .ok (UInt32.ofNat n.toNat) else .error (.wrongValue "a count")
    | _ => .error (.wrongValue "a count")
  write n := .number (.whole n.toNat)

end Scalar

namespace Column

variable {α : Type}

/-- A value that is always written; `absent` stands for a missing one. -/
def plain (s : Scalar α) (absent : α) : Column α where
  read := s.read
  absent := absent
  write a := some (s.write a)

def text : Column String := plain Scalar.text ""

def optionalText : Column String where
  read := Scalar.text.read
  absent := ""
  write a := if a = "" then none else some (.string a)

def nullable (s : Scalar α) : Column (Option α) where
  read
    | .null => .ok none
    | v => (s.read v).map some
  absent := none
  write a := a.map s.write

/-- Reads a value for which `null` and blank text stand where it is missing. -/
def readBlank (s : Scalar α) : Json → Except Misfit (Option α)
  | .null => .ok none
  | .string t => if Text.allBlank t then .ok none else (s.read (.string t)).map some
  | v => (s.read v).map some

def blank (s : Scalar α) : Column (Option α) where
  read := readBlank s
  absent := none
  write
    | some a => some (s.write a)
    | none => some .null

def optionalBlank (s : Scalar α) : Column (Option α) where
  read := readBlank s
  absent := none
  write a := a.map s.write

def stamp : Column (Option Instant) := nullable Scalar.instant

end Column

end TollClearing
