import TollClearing.Proofs.House.Bill
import TollClearing.Proofs.House.History

/-!
Queries. A query for a kind of record answers the records that a scope holds and that have the
members asked for, in ascending order of their keys, as many of them as the limit allows.
-/

set_option autoImplicit false

namespace TollClearing

theorem Record.toOption_decodeTo (R : Type) [Recorded R] (bytes : ByteArray) :
    (decodeTo R bytes).toOption = (decode bytes).toOption.bind Recorded.ofRecord? := by
  cases hdecode : decode bytes with
  | error m => simp [decodeTo, hdecode, bind, Except.bind, Except.toOption]
  | ok r =>
    cases hrecord : (Recorded.ofRecord? r : Option R) <;>
      simp [decodeTo, hdecode, hrecord, bind, Except.bind, Except.toOption]

namespace House

theorem mem_stored_iff {R : Type} [Recorded R] {l : Ledger} {scope : Scope} {a : R} :
    a ∈ stored R l scope ↔ ∃ key, recordAt? l ⟨scope, key⟩ = some (Recorded.toRecord a) := by
  simp only [stored, List.mem_filterMap, Record.toOption_decodeTo, recordAt?,
    Option.bind_eq_some_iff, Recorded.ofRecord?_eq_some_iff]
  constructor
  · rintro ⟨⟨key, bytes⟩, hrow, r, hdecode, rfl⟩
    exact ⟨key, bytes, Table.find?_eq_some_iff.2 hrow, hdecode⟩
  · rintro ⟨key, bytes, hfind, hdecode⟩
    exact ⟨(key, bytes), Table.find?_eq_some_iff.1 hfind, _, hdecode, rfl⟩

theorem readRecord_of_readAs {R : Type} [Recorded R]
    (hkind : ∀ a : R, (Recorded.toRecord a).docType = Recorded.docType R) {key : String}
    {bytes : ByteArray} {a : R} (h : readAs R key bytes = .ok a) :
    readRecord (Recorded.docType R) key bytes = .ok (Recorded.toRecord a) := by
  have hdecode := readAs_eq_ok h
  simp only [Record.decodeTo, bind_eq_ok] at hdecode
  obtain ⟨r, hr, hrecord⟩ := hdecode
  split at hrecord
  · rename_i b hb
    obtain rfl := Except.ok.inj hrecord
    obtain rfl := Recorded.ofRecord?_eq_some_iff.1 hb
    simp only [readRecord, Record.decodeAs, hr, bind, Except.bind, hkind, if_true]
  · cases hrecord

/-- A query answers the first records of its kind that have what it asks for. -/
theorem WellKept.list_eq {l : Ledger} (hl : WellKept l) {scope : Scope} {R : Type} [Recorded R]
    (hkind : ∀ a : R, (Recorded.toRecord a).docType = Recorded.docType R) {p : Policy}
    {fields : List (String × String)} {keep : R → Bool}
    (hkeep : ∀ r : Record, (kindSelector (Recorded.docType R) fields).accepts r.toJson
      = (Recorded.ofRecord? r.asRead).any keep)
    (hscope : Ledger.checkScope scope = .ok ()) :
    list p l (Recorded.docType R) scope fields
      = .ok (.listed ((((stored R l scope).filter keep).take p.limit).map Recorded.toRecord)) := by
  have hsearch : search l scope ((kindSelector (Recorded.docType R) fields).atMost p.limit)
      = .ok (((l.table scope).rows.filter fun row =>
          (kindSelector (Recorded.docType R) fields).acceptsBytes row.2).take p.limit) := by
    rw [search, Ledger.query, hscope]
    rfl
  have hfound := mapM_eq_ok (List.forall₂_map_right_iff.2
    ((List.forall₂_take p.limit (hl.found_rows scope hkeep)).imp fun _ _ =>
      readRecord_of_readAs hkind))
  simp only [list, hsearch, hfound, bind, Except.bind]

end House

end TollClearing
