import TollClearing.Proofs.Record.Kinds
import TollClearing.Record.Text

/-!
A stored record is read back whatever the order of its members: as it was, but for the signs of
amounts that are zero (`Record.Held.decode_eq`).
-/

set_option autoImplicit false

namespace TollClearing.Record

open Json

/-- What is read back of a record: the record without the signs of amounts that are zero. -/
def asRead : Record → Record
  | .agency a => .agency a
  | .tag t => .tag t
  | .charge c => .charge c.asRead
  | .correction c => .correction c.asRead
  | .reconciliation r => .reconciliation r.asRead
  | .acknowledgement a => .acknowledgement a
  | .settlement s => .settlement s.asRead

def amounts : Record → List Decimal
  | .agency _ | .tag _ | .acknowledgement _ => []
  | .charge c => c.fee :: c.amount.toList
  | .correction c => c.fee :: c.amount.toList
  | .reconciliation r => r.postedAmount.toList
  | .settlement s => [s.gross, s.fee, s.correction, s.net]

def NoSignedZero (r : Record) : Prop := ∀ a ∈ r.amounts, a.isZero = true → a.negative = false

theorem asRead_eq_self {r : Record} (h : r.NoSignedZero) : r.asRead = r := by
  have hread : ∀ a ∈ r.amounts, a.asRead = a := fun a ha => by
    by_cases hzero : a.isZero = true
    · exact Decimal.asRead_eq_self (.inl (h a ha hzero))
    · exact Decimal.asRead_of_not_isZero hzero
  have hoption : ∀ o : Option Decimal, (∀ a ∈ o.toList, a ∈ r.amounts) →
      o.map Decimal.asRead = o := by
    rintro (_ | a) ho
    · rfl
    · exact congrArg some (hread a (ho a (by simp)))
  cases r with
  | agency a => rfl
  | tag t => rfl
  | charge c =>
    have hfee : c.fee.asRead = c.fee := hread _ List.mem_cons_self
    have hamount : c.amount.map Decimal.asRead = c.amount :=
      hoption _ fun a ha => List.mem_cons_of_mem _ ha
    rw [asRead, Charge.asRead, hfee, hamount]
  | correction c =>
    have hfee : c.fee.asRead = c.fee := hread _ List.mem_cons_self
    have hamount : c.amount.map Decimal.asRead = c.amount :=
      hoption _ fun a ha => List.mem_cons_of_mem _ ha
    rw [asRead, Correction.asRead, hfee, hamount]
  | reconciliation r =>
    have hposted : r.postedAmount.map Decimal.asRead = r.postedAmount := hoption _ fun a ha => ha
    rw [asRead, Reconciliation.asRead, hposted]
  | acknowledgement a => rfl
  | settlement s =>
    have hgross : s.gross.asRead = s.gross := hread _ (by simp [amounts])
    have hfee : s.fee.asRead = s.fee := hread _ (by simp [amounts])
    have hcorrection : s.correction.asRead = s.correction := hread _ (by simp [amounts])
    have hnet : s.net.asRead = s.net := hread _ (by simp [amounts])
    rw [asRead, Settlement.asRead, hgross, hfee, hcorrection, hnet]

@[simp] theorem docType_asRead (r : Record) : r.asRead.docType = r.docType := by cases r <;> rfl

@[simp] theorem slot_asRead (r : Record) : r.asRead.slot = r.slot := by cases r <;> rfl

@[simp] theorem createdAt_asRead (r : Record) : r.asRead.createdAt = r.createdAt := by
  cases r <;> rfl

@[simp] theorem updatedAt_asRead (r : Record) : r.asRead.updatedAt = r.updatedAt := by
  cases r <;> rfl

theorem docTypeName_not_mem (r : Record) : docTypeName ∉ r.members.map Prod.fst := by
  cases r with
  | agency a =>
    exact Agency.faithful_layout.not_mem_written (by decide) a
  | tag t => exact Tag.faithful_layout.not_mem_written (by decide) t
  | charge c =>
    exact Charge.faithful_layout.not_mem_written (by decide) c
  | correction c =>
    exact Correction.faithful_layout.not_mem_written (by decide) c
  | reconciliation r =>
    exact Reconciliation.faithful_layout.not_mem_written
      (by decide) r
  | acknowledgement a =>
    exact Acknowledgement.faithful_layout.not_mem_written
      (by decide) a
  | settlement s =>
    exact Settlement.faithful_layout.not_mem_written (by decide) s

theorem nodup_members (r : Record) : (r.members.map Prod.fst).Nodup := by
  cases r with
  | agency a => exact Agency.faithful_layout.nodup_written a
  | tag t => exact Tag.faithful_layout.nodup_written t
  | charge c => exact Charge.faithful_layout.nodup_written c
  | correction c => exact Correction.faithful_layout.nodup_written c
  | reconciliation r => exact Reconciliation.faithful_layout.nodup_written r
  | acknowledgement a => exact Acknowledgement.faithful_layout.nodup_written a
  | settlement s => exact Settlement.faithful_layout.nodup_written s

theorem shallow_members (r : Record) : ∀ m ∈ r.members, m.2.Shallow 2 := by
  intro m hm
  cases r with
  | agency a => exact Agency.faithful_layout.shallow hm
  | tag t => exact Tag.faithful_layout.shallow hm
  | charge c => exact Charge.faithful_layout.shallow hm
  | correction c => exact Correction.faithful_layout.shallow hm
  | reconciliation r => exact Reconciliation.faithful_layout.shallow hm
  | acknowledgement a => exact Acknowledgement.faithful_layout.shallow hm
  | settlement s => exact Settlement.faithful_layout.shallow hm

/-- The deepest that a record nests: a date of a plan in the list of a tag. -/
theorem shallow_toJson (r : Record) : r.toJson.Shallow 3 := by
  intro m hm
  rcases List.mem_cons.1 hm with rfl | hm
  · simp
  · exact r.shallow_members m hm

section Read

variable {g : Json → Json} (hg : Copy g)

include hg

theorem ofParts_written (r : Record) {ms : Members}
    (hperm : ms.Perm (r.members.map fun m => (m.1, g m.2))) :
    ofParts r.docType (.object ms) = .ok r.asRead := by
  cases r with
  | agency a => exact congrArg (Except.map agency) (Agency.faithful_layout.ofMembers_eq hg hperm)
  | tag t => exact congrArg (Except.map tag) (Tag.faithful_layout.ofMembers_eq hg hperm)
  | charge c => exact congrArg (Except.map charge) (Charge.faithful_layout.ofMembers_eq hg hperm)
  | correction c =>
    exact congrArg (Except.map correction) (Correction.faithful_layout.ofMembers_eq hg hperm)
  | reconciliation r =>
    exact congrArg (Except.map reconciliation)
      (Reconciliation.faithful_layout.ofMembers_eq hg hperm)
  | acknowledgement a =>
    exact congrArg (Except.map acknowledgement)
      (Acknowledgement.faithful_layout.ofMembers_eq hg hperm)
  | settlement s =>
    exact congrArg (Except.map settlement) (Settlement.faithful_layout.ofMembers_eq hg hperm)

omit hg in
/-- The kind of a record is told by one member, and the others are left. -/
theorem splitDocType?_written (r : Record) {ms : Members}
    (hperm : ms.Perm ((docTypeName, .string r.docType.wire)
      :: r.members.map fun m => (m.1, g m.2))) :
    ∃ rest, splitDocType? (.object ms) = some (r.docType, .object rest) ∧
      rest.Perm (r.members.map fun m => (m.1, g m.2)) := by
  have hother : ∀ m ∈ r.members.map fun m => (m.1, g m.2), m.1 ≠ docTypeName := by
    intro m hm e
    obtain ⟨m', hm', rfl⟩ := List.mem_map.1 hm
    exact r.docTypeName_not_mem (e ▸ List.mem_map.2 ⟨m', hm', rfl⟩)
  have htold : ms.filter (·.1 = docTypeName) = [(docTypeName, .string r.docType.wire)] := by
    refine List.perm_singleton.1 ((hperm.filter _).trans ?_)
    rw [List.filter_cons_of_pos (by simp), List.filter_eq_nil_iff.2 fun m hm => by
      simpa using hother m hm]
  refine ⟨ms.filter (·.1 ≠ docTypeName), ?_, (hperm.filter _).trans ?_⟩
  · simp only [splitDocType?, htold]
    rw [show r.docType.wire = Code.wire r.docType from rfl, Code.ofWire?_wire]
    rfl
  · rw [List.filter_cons_of_neg (by simp), List.filter_eq_self.2 fun m hm => by
      simpa using hother m hm]

theorem ofJson_written (r : Record) : ofJson (g r.toJson) = .ok r.asRead := by
  have hnames : (((docTypeName, Json.string r.docType.wire) :: r.members).map Prod.fst).Nodup :=
    List.nodup_cons.2 ⟨r.docTypeName_not_mem, r.nodup_members⟩
  obtain ⟨ms, hobject, hperm⟩ := hg.object hnames
  rw [List.map_cons, hg.string] at hperm
  obtain ⟨rest, hsplit, hrest⟩ := splitDocType?_written r hperm
  rw [toJson, hobject, ofJson, hsplit]
  simp only [ofParts_written hg r hrest]
  rfl

end Read

/-- Bytes that hold a record: its text as it was written, or in canonical form. -/
def Held (r : Record) (bytes : ByteArray) : Prop :=
  ∃ g, Copy g ∧ bytes = (g r.toJson).compact.toUTF8

theorem held_encode (r : Record) : r.Held r.encode := ⟨id, .inl rfl, rfl⟩

theorem held_canonical (r : Record) : r.Held r.toJson.canonical.compact.toUTF8 :=
  ⟨canonical, .inr rfl, rfl⟩

theorem shallow_copy {g : Json → Json} (hg : Copy g) (r : Record) : (g r.toJson).Shallow maxDepth :=
  (hg.shallow r.shallow_toJson).mono (by decide)

namespace Held

variable {r : Record} {bytes : ByteArray}

/-- A record that is held by bytes is read from them, but for the signs of zero amounts. -/
theorem decode_eq (h : r.Held bytes) : decode bytes = .ok r.asRead := by
  obtain ⟨g, hg, rfl⟩ := h
  rw [decode, ofFront?_compact (shallow_copy hg r)]
  simp only [ofJson_written hg r]
  rfl

theorem decodeAs_eq (h : r.Held bytes) (docType : DocType) :
    decodeAs docType bytes
      = if r.docType = docType then .ok r.asRead else .error (.otherRecord docType r.docType) := by
  rw [decodeAs, h.decode_eq]
  simp [bind, Except.bind]

theorem decodeTo_eq (h : r.Held bytes) (R : Type) [Recorded R] :
    decodeTo R bytes = match Recorded.ofRecord? r.asRead with
      | some a => .ok a
      | none => .error (.otherRecord (Recorded.docType R) r.docType) := by
  rw [decodeTo, h.decode_eq]
  cases hrecord : (Recorded.ofRecord? r.asRead : Option R) <;>
    simp [bind, Except.bind, hrecord]

theorem toOption_decodeTo (h : r.Held bytes) (R : Type) [Recorded R] :
    (decodeTo R bytes).toOption = Recorded.ofRecord? r.asRead := by
  rw [h.decodeTo_eq]
  cases (Recorded.ofRecord? r.asRead : Option R) <;> rfl

theorem eq_toRecord (h : r.Held bytes) {R : Type} [Recorded R] {a : R}
    (hdecode : decodeTo R bytes = .ok a) : r.asRead = Recorded.toRecord a := by
  rw [h.decodeTo_eq] at hdecode
  cases hrecord : (Recorded.ofRecord? r.asRead : Option R) with
  | none => simp [hrecord] at hdecode
  | some b =>
    simp only [hrecord, Except.ok.injEq] at hdecode
    exact hdecode ▸ Recorded.ofRecord?_eq_some_iff.1 hrecord

/-- What a selector finds does not depend on the form in which a record is held. -/
theorem acceptsBytes_eq (h : r.Held bytes) (s : Selector) :
    s.acceptsBytes bytes = s.accepts r.toJson := by
  obtain ⟨g, hg, rfl⟩ := h
  rw [Selector.acceptsBytes, ofBytes?_compact (shallow_copy hg r)]
  rcases hg with rfl | rfl
  · rfl
  · exact s.accepts_canonical r.toJson

end Held

theorem member?_toJson {r : Record} {name : String} {v : Json} :
    r.toJson.member? name = some v ↔
      (name, v) ∈ (docTypeName, Json.string r.docType.wire) :: r.members := by
  have hnames : (((docTypeName, Json.string r.docType.wire) :: r.members).reverse.map
      Prod.fst).Nodup := by
    rw [List.map_reverse, List.nodup_reverse]
    exact List.nodup_cons.2 ⟨r.docTypeName_not_mem, r.nodup_members⟩
  exact (Table.lookup_eq_some_iff_of_nodup hnames).trans List.mem_reverse

theorem toJson_eq_of_text_eq {r s : Record} (h : r.text = s.text) : r.toJson = s.toJson := by
  have hr := parse?_compact (shallow_copy (.inl rfl) r)
  have hs := parse?_compact (shallow_copy (.inl rfl) s)
  rw [text, text] at h
  simp only [id, h] at hr hs
  exact Option.some.inj (hr.symm.trans hs)

end TollClearing.Record
