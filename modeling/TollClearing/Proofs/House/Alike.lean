import TollClearing.Proofs.House.Run
import TollClearing.Proofs.Ledger.Related

/-!
Ledgers that hold the same records in the same slots, be it in different forms, cannot be told
apart: a request comes to the same in both, and leaves them alike. A request looks no further than
the store that all agencies share and the scope that it is about, so they need be alike only there.
-/

set_option autoImplicit false

namespace TollClearing

/-- Two values that hold one record, each in some form. -/
def SameRecord (a b : ByteArray) : Prop := ∃ r : Record, r.Held a ∧ r.Held b

namespace Ledger

def AlikeAt (l m : Ledger) (scope : Scope) : Prop :=
  (l.table scope).Related SameRecord (m.table scope)

/-- The same records under the same names. -/
def Alike (l m : Ledger) : Prop := ∀ scope, (l.table scope).Related SameRecord (m.table scope)

theorem alike_empty : Alike .empty .empty := by
  intro scope
  cases scope <;> exact .nil

variable {l m : Ledger}

theorem AlikeAt.find? {slot : Slot} (h : l.AlikeAt m slot.scope) :
    Option.Rel SameRecord (l.find? slot) (m.find? slot) := Table.Related.find? h slot.key

theorem Alike.write (h : l.Alike m) (slot : Slot) {a b : ByteArray} (hab : SameRecord a b) :
    (l.write slot a).Alike (m.write slot b) := by
  intro scope
  rw [table_write, table_write]
  split
  · exact (h slot.scope).insert slot.key hab
  · exact h scope

theorem AlikeAt.select {scope : Scope} (h : l.AlikeAt m scope) (s : Selector) :
    List.Forall₂ (fun a b => a.1 = b.1 ∧ SameRecord a.2 b.2) (l.select scope s)
      (m.select scope s) := by
  refine forall₂_select (fun a b hab => ?_) h
  obtain ⟨r, ha, hb⟩ := hab
  rw [ha.acceptsBytes_eq, hb.acceptsBytes_eq]

end Ledger

namespace House

open Ledger

/-- Two attempts that fail alike or succeed with related results. -/
inductive Agree {ε α β : Type} (R : α → β → Prop) : Except ε α → Except ε β → Prop
  | error (e : ε) : Agree R (.error e) (.error e)
  | ok {a : α} {b : β} (h : R a b) : Agree R (.ok a) (.ok b)

section

variable {α β γ ε : Type} {R : α → β → Prop} {f : α → Except ε γ} {g : β → Except ε γ}

theorem Agree.bind_eq {x : Except ε α} {y : Except ε β} (h : Agree R x y)
    (hfg : ∀ a b, R a b → f a = g b) : (x >>= f) = (y >>= g) := by
  cases h with
  | error e => rfl
  | ok hab => exact hfg _ _ hab

end

theorem readAs_eq_of_sameRecord {R : Type} [Recorded R] {key : String} {a b : ByteArray}
    (h : SameRecord a b) : readAs R key a = readAs R key b := by
  obtain ⟨r, ha, hb⟩ := h
  rw [readAs, readAs, ha.decodeTo_eq, hb.decodeTo_eq]

theorem readRecord_eq_of_sameRecord {docType : DocType} {key : String} {a b : ByteArray}
    (h : SameRecord a b) : readRecord docType key a = readRecord docType key b := by
  obtain ⟨r, ha, hb⟩ := h
  rw [readRecord, readRecord, ha.decodeAs_eq, hb.decodeAs_eq]

def Request.scope : Request → Scope
  | .create r => r.scope
  | .get _ slot => slot.scope
  | .advance slot _ => slot.scope
  | .list _ scope _ => scope
  | .total P => .partition (Key.chargePartition P.payee P.payor)

section Reads

variable {l m : Ledger}

theorem lookUp_alike {slot : Slot} (h : l.AlikeAt m slot.scope) :
    Agree (Option.Rel SameRecord) (lookUp l slot) (lookUp m slot) := by
  simp only [lookUp, Ledger.get]
  cases Ledger.checkSlot slot with
  | error e => exact .error _
  | ok u => exact .ok h.find?

theorem valueIn_alike {slot : Slot} (h : l.AlikeAt m slot.scope) :
    Agree SameRecord (valueIn l slot) (valueIn m slot) := by
  have hagree := lookUp_alike h
  unfold valueIn
  generalize lookUp l slot = x, lookUp m slot = y at hagree
  cases hagree with
  | error e => exact .error e
  | ok hab =>
    cases hab with
    | none => exact .error _
    | some hab => exact .ok hab

theorem search_alike {scope : Scope} (h : l.AlikeAt m scope) (s : Selector) :
    Agree (List.Forall₂ fun a b => a.1 = b.1 ∧ SameRecord a.2 b.2) (search l scope s)
      (search m scope s) := by
  simp only [search, Ledger.query]
  cases Ledger.checkScope scope with
  | error e => exact .error _
  | ok u => exact .ok (h.select s)

theorem fetch_alike (R : Type) [Recorded R] {slot : Slot} (h : l.AlikeAt m slot.scope) :
    fetch R l slot = fetch R m slot :=
  (valueIn_alike h).bind_eq fun _ _ hab => readAs_eq_of_sameRecord hab

theorem advance_alike (R : Type) {σ : Type} [Code σ] [DecidableEq σ] [Staged R σ] (now : Instant)
    {slot : Slot} (h : l.AlikeAt m slot.scope) (target : σ) :
    advance R now l slot target = advance R now m slot target := by
  simp only [advance, fetch_alike R h]

theorem recordsIn_alike (R : Type) [Recorded R] {scope : Scope} (h : l.AlikeAt m scope) :
    recordsIn R l scope = recordsIn R m scope := by
  refine (search_alike h _).bind_eq fun xs ys hxy => mapM_eq_of_forall₂ hxy ?_
  rintro a b ⟨hname, hab⟩
  rw [hname, readAs_eq_of_sameRecord hab]

theorem requireCharge_alike (id : String) {away home : String}
    (h : l.AlikeAt m (.partition (Key.chargePartition away home))) :
    requireCharge l id away home = requireCharge m id away home := by
  have hslot : l.AlikeAt m (Function.chargeSlot away home (Key.charge id)).scope := h
  simp only [requireCharge, fetch_alike Charge hslot]

theorem list_alike (p : Policy) (docType : DocType) {scope : Scope} (h : l.AlikeAt m scope)
    (fields : List (String × String)) :
    list p l docType scope fields = list p m docType scope fields := by
  refine (search_alike h _).bind_eq fun xs ys hxy => ?_
  have hread : xs.mapM (fun row => readRecord docType row.1 row.2)
      = ys.mapM fun row => readRecord docType row.1 row.2 := by
    refine mapM_eq_of_forall₂ hxy ?_
    rintro a b ⟨hname, hab⟩
    rw [hname, readRecord_eq_of_sameRecord hab]
  rw [hread]

end Reads

section Requests

variable {l m : Ledger} (hshared : l.AlikeAt m .shared) (p : Policy) (now : Instant)

include hshared

theorem requireAgency_alike (id : String) : requireAgency p l id = requireAgency p m id := by
  have hvalue : Agree SameRecord (valueIn l ⟨.shared, Key.agency id⟩)
      (valueIn m ⟨.shared, Key.agency id⟩) := valueIn_alike hshared
  simp only [requireAgency, hvalue.bind_eq fun _ _ _ => rfl]

theorem checkReferences_alike {r : Record} (h : l.AlikeAt m r.scope) :
    checkReferences p l r = checkReferences p m r := by
  cases r with
  | correction k =>
    have hcharge : l.AlikeAt m (.partition (Key.chargePartition k.away k.home)) := h
    have hpredecessor : requirePredecessor l k = requirePredecessor m k := by
      unfold requirePredecessor
      cases k.predecessor? with
      | none => rfl
      | some n =>
        refine (lookUp_alike (by exact hcharge)).bind_eq fun a b hab => ?_
        cases hab <;> rfl
    simp only [checkReferences, hpredecessor, requireCharge_alike _ hcharge]
  | reconciliation r => exact requireCharge_alike _ h
  | _ => simp only [checkReferences, requireAgency_alike hshared]

theorem insert_alike {r : Record} (h : l.AlikeAt m r.scope) :
    insert p now l r = insert p now m r := by
  unfold insert
  have hslot : l.AlikeAt m r.slot.scope := h
  refine (lookUp_alike hslot).bind_eq fun a b hab => ?_
  cases hab with
  | none => rw [checkReferences_alike hshared p h]
  | some _ => rfl

theorem supersede_alike {r : Reconciliation} (h : l.AlikeAt m (Record.reconciliation r).scope) :
    supersede p now l r = supersede p now m r := by
  unfold supersede
  have hslot : l.AlikeAt m (Record.reconciliation r).slot.scope := h
  refine (lookUp_alike hslot).bind_eq fun a b hab => ?_
  cases hab with
  | none => exact insert_alike hshared p now h
  | some hab => simp only [readAs_eq_of_sameRecord hab, checkReferences_alike hshared p h]

theorem create_alike {r : Record} (h : l.AlikeAt m r.scope) :
    create p now l r = create p now m r := by
  cases r with
  | reconciliation r =>
    unfold create
    cases p.resubmission with
    | strict => simp only [insert_alike hshared p now h]
    | supersede => simp only [supersede_alike hshared p now h]
  | _ => simp only [create, insert_alike hshared p now h]

/-- A request comes to the same on two ledgers with the same records in the shared store and in the
scope that it is about. -/
theorem process_alike {request : Request} (h : l.AlikeAt m request.scope) :
    process p now l request = process p now m request := by
  cases request with
  | create r => exact create_alike hshared p now h
  | get docType slot =>
    have hslot : l.AlikeAt m slot.scope := h
    refine (valueIn_alike hslot).bind_eq fun a b hab => ?_
    rw [readRecord_eq_of_sameRecord hab]
  | advance slot move => cases move <;> exact advance_alike _ now h _
  | list docType scope fields => exact list_alike p docType h fields
  | total P =>
    have hpartition : l.AlikeAt m (.partition (Key.chargePartition P.payee P.payor)) := h
    simp only [process, total, recordsIn_alike _ hpartition]

end Requests

section Calls

variable {l m : Ledger} (h : l.Alike m)

include h

theorem outcome_alike (p : Policy) (c : Call) : c.outcome p l = c.outcome p m := by
  have hprocess : ∀ request, process p c.now l request = process p c.now m request :=
    fun request => process_alike (h .shared) p c.now (h request.scope)
  simp only [Call.outcome_eq, invoke, hprocess]

theorem apply_alike (o : Outcome) : (o.apply l).Alike (o.apply m) := by
  cases o with
  | stored slot r => exact h.write slot ⟨r, r.held_encode, r.held_encode⟩
  | _ => exact h

end Calls

end House

end TollClearing
