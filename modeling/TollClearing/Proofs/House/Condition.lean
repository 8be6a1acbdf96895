import TollClearing.Proofs.House.Faults

/-!
Checks that conditions decide. A check passes if all of a list of conditions are met, and otherwise
tells the first one that is not. One check after another is decided by both lists, one after the
other.
-/

set_option autoImplicit false

namespace TollClearing.House

/-- What a new record has to meet, and the fault of a call with one that does not. -/
structure Condition where
  met : Prop
  fault : Fault

/-- The fault of the first condition that is not met. -/
inductive FirstUnmet : List Condition → Fault → Prop where
  | here {c : Condition} {cs : List Condition} (h : ¬ c.met) : FirstUnmet (c :: cs) c.fault
  | later {c : Condition} {cs : List Condition} {fault : Fault} (hmet : c.met)
    (h : FirstUnmet cs fault) : FirstUnmet (c :: cs) fault

namespace FirstUnmet

variable {cs ds : List Condition} {fault fault' : Fault}

theorem not_forall_met (h : FirstUnmet cs fault) : ¬ ∀ c ∈ cs, c.met := by
  induction h with
  | here hc => exact fun hall => hc (hall _ List.mem_cons_self)
  | later _ _ ih => exact fun hall => ih fun c hc => hall c (List.mem_cons_of_mem _ hc)

theorem unique (h : FirstUnmet cs fault) (h' : FirstUnmet cs fault') : fault = fault' := by
  induction h with
  | here hc =>
    cases h' with
    | here _ => rfl
    | later hmet _ => exact absurd hmet hc
  | later hmet _ ih =>
    cases h' with
    | here hc => exact absurd hmet hc
    | later _ h' => exact ih h'

theorem append (h : FirstUnmet cs fault) (ds : List Condition) : FirstUnmet (cs ++ ds) fault := by
  induction h with
  | here hc => exact .here hc
  | later hmet _ ih => exact .later hmet ih

theorem prepend (h : FirstUnmet ds fault) (hmet : ∀ c ∈ cs, c.met) :
    FirstUnmet (cs ++ ds) fault := by
  induction cs with
  | nil => exact h
  | cons c cs ih =>
    obtain ⟨hc, hcs⟩ := List.forall_mem_cons.1 hmet
    exact .later hc (ih hcs)

end FirstUnmet

theorem forall_met_or_exists_firstUnmet (cs : List Condition) :
    (∀ c ∈ cs, c.met) ∨ ∃ fault, FirstUnmet cs fault := by
  induction cs with
  | nil => exact .inl (List.forall_mem_nil _)
  | cons c cs ih =>
    by_cases hc : c.met
    · exact ih.imp (fun hcs => List.forall_mem_cons.2 ⟨hc, hcs⟩)
        fun ⟨fault, h⟩ => ⟨fault, .later hc h⟩
    · exact .inr ⟨c.fault, .here hc⟩

section Decided

variable {α β : Type}

/-- A step that conditions decide: if all are met it yields something of which `P` holds, and
otherwise it reports the first one that is not. -/
inductive Decided (cs : List Condition) (P : α → Prop) : Except Fault α → Prop where
  | passed {a : α} (hmet : ∀ c ∈ cs, c.met) (h : P a) : Decided cs P (.ok a)
  | failed {fault : Fault} (h : FirstUnmet cs fault) : Decided cs P (.error fault)

namespace Decided

variable {cs ds : List Condition} {P : α → Prop} {Q : β → Prop} {x : Except Fault α}

theorem free {a : α} (h : P a) : Decided [] P (.ok a) := .passed (List.forall_mem_nil _) h

theorem met {c : Condition} {a : α} (hc : c.met) (h : P a) : Decided [c] P (.ok a) :=
  .passed (List.forall_mem_singleton.2 hc) h

theorem unmet {c : Condition} (hc : ¬ c.met) (cs : List Condition) :
    Decided (c :: cs) P (.error c.fault) := .failed (.here hc)

theorem cons {c : Condition} (hc : c.met) (h : Decided cs P x) : Decided (c :: cs) P x := by
  cases h with
  | passed hmet h => exact .passed (List.forall_mem_cons.2 ⟨hc, hmet⟩) h
  | failed h => exact .failed (.later hc h)

theorem bind {f : α → Except Fault β} (hx : Decided cs P x)
    (hf : ∀ a, (∀ c ∈ cs, c.met) → P a → Decided ds Q (f a)) : Decided (cs ++ ds) Q (x >>= f) := by
  cases hx with
  | failed h => exact .failed (h.append ds)
  | @passed a hmet ha =>
    have hrest := hf a hmet ha
    change Decided (cs ++ ds) Q (f a)
    generalize f a = y at hrest ⊢
    cases hrest with
    | failed h => exact .failed (h.prepend hmet)
    | passed hmet' h => exact .passed (List.forall_mem_append.2 ⟨hmet, hmet'⟩) h

theorem then_ok {b : β} (hx : Decided cs P x) (hb : Q b) :
    Decided cs Q (x >>= fun _ => .ok b) := by
  have hboth := hx.bind (f := fun _ => .ok b) fun _ _ _ => .free hb
  rwa [List.append_nil] at hboth

theorem ok_iff {x : Except Fault Unit} {P : Unit → Prop} (h : Decided cs P x) :
    x = .ok () ↔ ∀ c ∈ cs, c.met := by
  cases h with
  | passed hmet _ => exact iff_of_true rfl hmet
  | failed h => exact iff_of_false nofun h.not_forall_met

theorem eq_ok {a : α} (h : Decided cs (· = a) x) (hmet : ∀ c ∈ cs, c.met) : x = .ok a := by
  cases h with
  | passed _ h => rw [h]
  | failed h => exact absurd hmet h.not_forall_met

theorem eq_error (h : Decided cs P x) {fault : Fault} (hfirst : FirstUnmet cs fault) :
    x = .error fault := by
  cases h with
  | passed hmet _ => exact absurd hmet hfirst.not_forall_met
  | failed h => rw [h.unique hfirst]

end Decided

end Decided

theorem decided_valueIn (l : Ledger) (i : Identity) :
    Decided [⟨(l.find? i.slot).isSome, .missing i.slot.key⟩] (l.find? i.slot = some ·)
      (valueIn l i.slot) := by
  rw [valueIn, lookUp_eq_find? i.checkSlot_slot]
  cases hfind : l.find? i.slot with
  | none => exact .unmet (by simp) []
  | some bytes => exact .met rfl rfl

end TollClearing.House
