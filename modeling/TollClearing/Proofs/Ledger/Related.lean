import TollClearing.Ledger.Snapshot
import TollClearing.Proofs.Json.Canonical

/-!
Ledgers with the same names, compared value by value. If the values are texts of the same trees,
the ledgers have the same snapshot, and a query finds values under the same keys in both.
-/

set_option autoImplicit false

namespace TollClearing.Ledger

open Json

theorem table_of_mem {l : Ledger} {part : String × Table ByteArray}
    (h : part ∈ l.partitions.rows) : l.table (.partition part.1) = part.2 := by
  rw [table, Table.find?_eq_some_iff.2 h, Option.getD_some]

theorem forall_find?_iff {l : Ledger} {P : Scope → ByteArray → Prop} :
    (∀ slot bytes, l.find? slot = some bytes → P slot.scope bytes) ↔
      (∀ row ∈ l.shared.rows, P .shared row.2) ∧
        ∀ part ∈ l.partitions.rows, ∀ row ∈ part.2.rows, P (.partition part.1) row.2 := by
  constructor
  · intro h
    refine ⟨fun row hrow => ?_, fun part hpart row hrow => ?_⟩
    · exact h ⟨.shared, row.1⟩ row.2 (Table.find?_eq_some_iff.2 hrow)
    · refine h ⟨.partition part.1, row.1⟩ row.2 ?_
      rw [find?, table_of_mem hpart]
      exact Table.find?_eq_some_iff.2 hrow
  · rintro ⟨hshared, hpartitions⟩ ⟨scope, key⟩ bytes h
    cases scope with
    | shared => exact hshared _ (Table.find?_eq_some_iff.1 h)
    | partition name =>
      rw [find?, table] at h
      cases hpart : l.partitions.find? name with
      | none => simp [hpart] at h
      | some t =>
        rw [hpart, Option.getD_some] at h
        exact hpartitions _ (Table.find?_eq_some_iff.1 hpart) _ (Table.find?_eq_some_iff.1 h)

/-- Two ledgers with the same keys and the same partitions, whose shared values are related by `R`
and whose values in partitions are related by `Q`. -/
structure Related (R Q : ByteArray → ByteArray → Prop) (l m : Ledger) : Prop where
  shared : l.shared.Related R m.shared
  partitions : l.partitions.Related (Table.Related Q) m.partitions

variable {R Q : ByteArray → ByteArray → Prop} {l m : Ledger}

theorem Related.partition (h : l.Related R Q m) (name : String) :
    (l.table (.partition name)).Related Q (m.table (.partition name)) := by
  have hfind := h.partitions.find? name
  rw [table, table]
  cases hl : l.partitions.find? name <;> cases hm : m.partitions.find? name <;>
    rw [hl, hm] at hfind <;> cases hfind
  · exact .nil
  · assumption

theorem Related.table (h : l.Related R R m) (scope : Scope) :
    (l.table scope).Related R (m.table scope) := by
  cases scope with
  | shared => exact h.shared
  | partition name => exact h.partition name

theorem Related.names_eq (h : l.Related R Q m) (scope : Scope) :
    (m.table scope).names = (l.table scope).names := by
  cases scope with
  | shared => exact h.shared.names_eq
  | partition name => exact (h.partition name).names_eq

theorem forall₂_select {scope : Scope} {s : Selector}
    (hR : ∀ a b, R a b → s.acceptsBytes a = s.acceptsBytes b)
    (h : (l.table scope).Related R (m.table scope)) :
    List.Forall₂ (fun a b => a.1 = b.1 ∧ R a.2 b.2) (l.select scope s) (m.select scope s) := by
  have hits : List.Forall₂ (fun a b => a.1 = b.1 ∧ R a.2 b.2)
      ((l.table scope).rows.filter fun row => s.acceptsBytes row.2)
      ((m.table scope).rows.filter fun row => s.acceptsBytes row.2) := by
    refine List.rel_filter ?_ h
    rintro a b ⟨-, hab⟩
    simp only [hR _ _ hab]
  unfold select
  cases s.limit with
  | none => exact hits
  | some n => exact List.forall₂_take n hits

/-- Texts of one tree, whatever the order of the members in its objects; of repeated members the
last counts. -/
def SameTree (a b : ByteArray) : Prop :=
  (Json.ofBytes? a).map canonical = (Json.ofBytes? b).map canonical

theorem SameTree.acceptsBytes_eq {a b : ByteArray} (h : SameTree a b) (s : Selector) :
    s.acceptsBytes a = s.acceptsBytes b := by
  have hcanonical : ∀ bytes, s.acceptsBytes bytes
      = ((Json.ofBytes? bytes).map canonical).elim false s.accepts := by
    intro bytes
    unfold Selector.acceptsBytes
    cases Json.ofBytes? bytes with
    | none => rfl
    | some v => exact (s.accepts_canonical v).symm
  rw [hcanonical, hcanonical, h]

theorem tableJson?_eq_of_related {t u : Table ByteArray} (h : t.Related SameTree u) :
    tableJson? t = tableJson? u := by
  rw [tableJson?, tableJson?, h.mapM?_eq fun _ _ hab => hab]

/-- Nothing but the trees of the values is written. -/
theorem snapshot?_eq (h : l.Related SameTree SameTree m) : m.snapshot? = l.snapshot? := by
  rw [snapshot?, snapshot?, toJson?, toJson?, tableJson?_eq_of_related h.shared,
    h.partitions.mapM?_eq fun _ _ htable => tableJson?_eq_of_related htable]

theorem keys_query_eq (h : l.Related SameTree SameTree m) (scope : Scope) (s : Selector) :
    (m.query scope s).map (List.map Prod.fst) = (l.query scope s).map (List.map Prod.fst) := by
  have hkeys : (m.select scope s).map Prod.fst = (l.select scope s).map Prod.fst :=
    Table.forall₂_names (forall₂_select (fun _ _ hab => hab.acceptsBytes_eq s) (h.table scope))
  unfold query
  cases checkScope scope with
  | error e => rfl
  | ok _ => exact congrArg Except.ok hkeys

end TollClearing.Ledger
