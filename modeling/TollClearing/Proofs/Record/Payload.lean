import TollClearing.House.Fault
import TollClearing.Proofs.Record.Codec
import TollClearing.Rule.Record

/-!
The two readers agree. The text of a record is read back by the reader of stored bytes and by the
reader of payloads, as the record that was written; a reader for another kind refuses it and says
which kind it has found.
-/

set_option autoImplicit false

namespace TollClearing

theorem Layout.Faithful.ofMembers_extra {ρ α : Type} {depth : Nat} {l : Layout ρ α} {f : ρ → α}
    (h : l.Faithful f depth) {g : Json → Json} (hg : Copy g) {r : ρ} {ms : Json.Members}
    {name : String} {v : Json} (hname : name ∉ l.names)
    (hperm : ms.Perm ((name, v) :: (l.write r).map fun m => (m.1, g m.2))) :
    l.ofMembers ms = .ok (f r) := by
  have hnames : (((name, v) :: (l.write r).map fun m => (m.1, g m.2)).map Prod.fst).Nodup := by
    have hwritten : (l.write r).map (Prod.fst ∘ fun m => (m.1, g m.2))
        = (l.write r).map Prod.fst := rfl
    rw [List.map_cons, List.map_map, hwritten]
    exact List.nodup_cons.2 ⟨h.not_mem_written hname r, h.nodup_written r⟩
  have hmisfit : firstMisfit l.columns [] ms = none := by
    refine firstMisfit_eq_none ((hperm.map Prod.fst).nodup_iff.2 hnames) (by simp) ?_
    intro m hm check hcheck
    rcases List.mem_cons.1 (hperm.mem_iff.1 hm) with rfl | hm
    · exact absurd (List.mem_map.2 ⟨_, hcheck, rfl⟩) hname
    · obtain ⟨m', hm', rfl⟩ := List.mem_map.1 hm
      exact h.fits hg hm' hcheck
  have hbuild : l.build ms = f r := by
    refine h.build_eq hg fun other hother => ?_
    have hne : other ≠ name := fun e => hname (e ▸ hother)
    rw [Table.lookup_eq_of_perm hperm hnames, Table.lookup_row, if_neg hne, Table.lookup_map]
  rw [ofMembers, hmisfit]
  exact congrArg Except.ok hbuild

namespace Record

theorem nodup_toJson (r : Record) :
    (((docTypeName, Json.string r.docType.wire) :: r.members).map Prod.fst).Nodup :=
  List.nodup_cons.2 ⟨r.docTypeName_not_mem, r.nodup_members⟩

theorem ofParts_told {g : Json → Json} (hg : Copy g) (r : Record) {ms : Json.Members} {v : Json}
    (hperm : ms.Perm ((docTypeName, v) :: r.members.map fun m => (m.1, g m.2))) :
    ofParts r.docType (.object ms) = .ok r.asRead := by
  cases r with
  | agency a =>
    exact congrArg (Except.map agency) (Agency.faithful_layout.ofMembers_extra hg
      (by decide) hperm)
  | tag t =>
    exact congrArg (Except.map tag) (Tag.faithful_layout.ofMembers_extra hg
      (by decide) hperm)
  | charge c =>
    exact congrArg (Except.map charge) (Charge.faithful_layout.ofMembers_extra hg
      (by decide) hperm)
  | correction c =>
    exact congrArg (Except.map correction) (Correction.faithful_layout.ofMembers_extra hg
      (by decide) hperm)
  | reconciliation r =>
    exact congrArg (Except.map reconciliation) (Reconciliation.faithful_layout.ofMembers_extra hg
      (by decide) hperm)
  | acknowledgement a =>
    exact congrArg (Except.map acknowledgement)
      (Acknowledgement.faithful_layout.ofMembers_extra hg
        (by decide) hperm)
  | settlement s =>
    exact congrArg (Except.map settlement) (Settlement.faithful_layout.ofMembers_extra hg
      (by decide) hperm)

/-- A record's text is a payload of its kind and of no other. -/
theorem ofPayload_text (r : Record) (d : DocType) :
    ofPayload d r.text = if r.docType = d then .ok r.asRead
      else .error (.otherDocType d (.string r.docType.wire)) := by
  have hcopy : Copy Json.canonical := .inr rfl
  have hparse : Json.parse? r.text = some r.toJson :=
    Json.parse?_compact (shallow_copy (.inl rfl) r)
  obtain ⟨ms, hobject, hperm⟩ := hcopy.object r.nodup_toJson
  rw [List.map_cons, hcopy.string] at hperm
  have hnames : (((docTypeName, Json.string r.docType.wire)
      :: r.members.map fun m => (m.1, m.2.canonical)).map Prod.fst).Nodup := by
    simpa [Function.comp_def] using r.nodup_toJson
  have htold : ms.lookup docTypeName = some (.string r.docType.wire) := by
    rw [Table.lookup_eq_of_perm hperm hnames, List.lookup_cons_self]
  have hcanonical : r.toJson.canonical = .object ms := hobject
  rw [ofPayload, hparse]
  simp only [hcanonical, checkDocType, htold]
  by_cases hkind : r.docType = d
  · subst hkind
    rw [if_pos rfl, if_pos rfl]
    simp only [ofParts_told hcopy r hperm, bind, Except.bind]
    rfl
  · have hwire : r.docType.wire ≠ d.wire := fun e => hkind (Code.wire_injective e)
    rw [if_neg hwire, if_neg hkind]
    rfl

end Record

def DocType.Carrier : DocType → Type
  | .agency => Agency
  | .tag => Tag
  | .charge => Charge
  | .correction => Correction
  | .reconciliation => Reconciliation
  | .acknowledgement => Acknowledgement
  | .settlement => Settlement

instance : (d : DocType) → Recorded d.Carrier
  | .agency => inferInstanceAs (Recorded Agency)
  | .tag => inferInstanceAs (Recorded Tag)
  | .charge => inferInstanceAs (Recorded Charge)
  | .correction => inferInstanceAs (Recorded Correction)
  | .reconciliation => inferInstanceAs (Recorded Reconciliation)
  | .acknowledgement => inferInstanceAs (Recorded Acknowledgement)
  | .settlement => inferInstanceAs (Recorded Settlement)

namespace DocType

variable {d : DocType}

theorem docType_carrier (d : DocType) : Recorded.docType d.Carrier = d := by cases d <;> rfl

theorem docType_toRecord (a : d.Carrier) : (Recorded.toRecord a).docType = d := by
  cases d <;> rfl

end DocType

end TollClearing
