/-!
Closed sets of codes. Every member has one code, matched exactly, and no two members share one:
reading a code is the inverse of writing it (`ofWire?_eq_some_iff`).
-/

set_option autoImplicit false

namespace TollClearing

class Code (α : Type) where
  label : String
  /-- Every member, in order. -/
  all : List α
  wire : α → String
  mem_all : ∀ a, a ∈ all
  wire_injective : ∀ {a b}, wire a = wire b → a = b

namespace Code

variable {α : Type} [Code α]

def ofWire? (s : String) : Option α := all.find? fun a => wire a = s

theorem ofWire?_eq_some_iff {s : String} {a : α} : ofWire? s = some a ↔ wire a = s := by
  constructor
  · intro h
    simpa using List.find?_some h
  · rintro rfl
    unfold ofWire?
    cases h : (all : List α).find? fun b => wire b = wire a with
    | none => simpa using List.find?_eq_none.1 h a (mem_all a)
    | some b =>
      have hb : wire b = wire a := by simpa using List.find?_some h
      rw [wire_injective hb]

theorem ofWire?_wire (a : α) : ofWire? (wire a) = some a := ofWire?_eq_some_iff.2 rfl

def refusal (α : Type) [Code α] (s : String) : String :=
  "unrecognized " ++ label α ++ " '" ++ s ++ "'"

end Code

end TollClearing
