import TollClearing.Proofs.Record.Codec

/-!
What selectors see of a record. A selector looks at the text of a record, so what it finds depends
on how a member is written: a code under its name, text as it is, and optional text not at all when
it is empty.
-/

set_option autoImplicit false

namespace TollClearing

namespace Column

variable {α : Type}

def shows (c : Column α) (a : α) (text : String) : Bool :=
  (c.write a).any (Selector.isWritten text)

theorem shows_text (a text : String) : Column.text.shows a text = decide (a = text) := rfl

theorem shows_optionalText (a text : String) :
    optionalText.shows a text = decide (a = text ∧ text ≠ "") := by
  by_cases ha : a = ""
  · subst ha
    by_cases htext : text = "" <;> simp [shows, optionalText, htext, eq_comm]
  · simp only [shows, optionalText, if_neg ha, Option.any_some, Selector.isWritten,
      decide_eq_decide]
    exact ⟨fun e => ⟨e, e ▸ ha⟩, And.left⟩

theorem shows_blankCode [Code α] [DecidableEq α] (a : Option α) (b : α) :
    (blank Scalar.code).shows a (Code.wire b) = decide (a = some b) := by
  cases a with
  | none => rfl
  | some a =>
    simp only [shows, blank, Scalar.code, Option.any_some, Selector.isWritten, decide_eq_decide,
      Option.some.injEq]
    exact ⟨fun e => Code.wire_injective e, congrArg Code.wire⟩

end Column

namespace Layout

variable {ρ α β : Type}

/-- What a layout writes under a name. -/
def shown (l : Layout ρ α) (r : ρ) (name : String) : Option Json := (l.write r).lookup name

@[simp] theorem shown_column (own : String) (c : Column α) (get : ρ → α) (r : ρ) (name : String) :
    (column own c get).shown r name = if name = own then c.write (get r) else none := by
  simp only [shown, column, Column.member]
  cases c.write (get r) <;> simp [Table.lookup_row]

@[simp] theorem shown_map (f : α → β) (l : Layout ρ α) (r : ρ) (name : String) :
    (f <$> l).shown r name = l.shown r name := by
  unfold shown
  rfl

@[simp] theorem shown_seq (f : Layout ρ (α → β)) (l : Layout ρ α) (r : ρ) (name : String) :
    (f <*> l).shown r name = (f.shown r name).or (l.shown r name) :=
  List.lookup_append

end Layout

namespace Record

def shows (r : Record) (name text : String) : Bool :=
  (r.toJson.member? name).any (Selector.isWritten text)

theorem accepts_eq_all_shows (r : Record) (s : Selector) :
    s.accepts r.toJson = s.fields.rows.all fun row => r.shows row.1 row.2 := by
  unfold Selector.accepts shows
  congr 1
  funext (name, text)
  dsimp only
  cases r.toJson.member? name <;> rfl

@[simp] theorem shows_docType (r : Record) (docType : DocType) :
    r.shows docTypeName docType.wire = decide (r.docType = docType) := by
  have hmember : r.toJson.member? docTypeName = some (.string r.docType.wire) :=
    member?_toJson.2 List.mem_cons_self
  rw [shows, hmember]
  simp only [Option.any_some, Selector.isWritten, decide_eq_decide]
  exact ⟨fun h => Code.wire_injective h, fun h => h ▸ rfl⟩

theorem member?_of_ne (r : Record) {name : String} (h : name ≠ docTypeName) :
    r.toJson.member? name = r.members.lookup name := by
  apply Option.ext
  intro v
  rw [member?_toJson, Table.lookup_eq_some_iff_of_nodup r.nodup_members, List.mem_cons]
  exact or_iff_right fun e => h (congrArg Prod.fst e)

theorem shows_of_shown {ρ α β : Type} {l : Layout ρ α} {a : ρ} {r : Record} {c : Column β} {b : β}
    {name : String} (hmembers : r.members = l.write a) (hname : name ≠ docTypeName)
    (h : l.shown a name = c.write b) (text : String) : r.shows name text = c.shows b text := by
  rw [shows, r.member?_of_ne hname, hmembers]
  exact congrArg (Option.any (Selector.isWritten text)) h

@[simp] theorem shows_agency_status (a : Agency) (s : AgencyStatus) :
    (agency a).shows "status" (Code.wire s) = decide (a.status = some s) := by
  rw [← Column.shows_blankCode]
  refine shows_of_shown (r := agency a) (l := Agency.layout) rfl (by decide) ?_ _
  unfold Agency.layout
  simp

@[simp] theorem shows_tag_agency (t : Tag) (text : String) :
    (tag t).shows "tagAgencyID" text = decide (t.agency = text) := by
  rw [← Column.shows_text]
  refine shows_of_shown (r := tag t) (l := Tag.layout) rfl (by decide) ?_ _
  unfold Tag.layout
  simp

@[simp] theorem shows_tag_status (t : Tag) (s : TagStatus) :
    (tag t).shows "tagStatus" (Code.wire s) = decide (t.status = some s) := by
  rw [← Column.shows_blankCode]
  refine shows_of_shown (r := tag t) (l := Tag.layout) rfl (by decide) ?_ _
  unfold Tag.layout
  simp

@[simp] theorem shows_charge_status (c : Charge) (s : ChargeStatus) :
    (charge c).shows "status" (Code.wire s) = decide (c.status = some s) := by
  rw [← Column.shows_blankCode]
  refine shows_of_shown (r := charge c) (l := Charge.layout) rfl (by decide) ?_ _
  unfold Charge.layout
  simp

@[simp] theorem shows_charge_tagAgency (c : Charge) (text : String) :
    (charge c).shows "tagAgencyID" text = decide (c.tagAgency = text ∧ text ≠ "") := by
  rw [← Column.shows_optionalText]
  refine shows_of_shown (r := charge c) (l := Charge.layout) rfl (by decide) ?_ _
  unfold Charge.layout
  simp

@[simp] theorem shows_charge_tagSerial (c : Charge) (text : String) :
    (charge c).shows "tagSerialNumber" text = decide (c.tagSerial = text ∧ text ≠ "") := by
  rw [← Column.shows_optionalText]
  refine shows_of_shown (r := charge c) (l := Charge.layout) rfl (by decide) ?_ _
  unfold Charge.layout
  simp

@[simp] theorem shows_correction_charge (k : Correction) (text : String) :
    (correction k).shows "originalChargeID" text = decide (k.charge = text) := by
  rw [← Column.shows_text]
  refine shows_of_shown (r := correction k) (l := Correction.layout) rfl (by decide) ?_ _
  unfold Correction.layout
  simp

@[simp] theorem shows_reconciliation_disposition (r : Reconciliation) (text : String) :
    (reconciliation r).shows "postingDisposition" text = decide (r.disposition = text) := by
  rw [← Column.shows_text]
  refine shows_of_shown (r := reconciliation r) (l := Reconciliation.layout) rfl (by decide) ?_ _
  unfold Reconciliation.layout
  simp

@[simp] theorem shows_acknowledgement_sender (a : Acknowledgement) (text : String) :
    (acknowledgement a).shows "fromAgencyID" text = decide (a.sender = text) := by
  rw [← Column.shows_text]
  refine shows_of_shown (r := acknowledgement a) (l := Acknowledgement.layout) rfl (by decide) ?_ _
  unfold Acknowledgement.layout
  simp

@[simp] theorem shows_settlement_status (b : Settlement) (s : SettlementStatus) :
    (settlement b).shows "status" (Code.wire s) = decide (b.status = some s) := by
  rw [← Column.shows_blankCode]
  refine shows_of_shown (r := settlement b) (l := Settlement.layout) rfl (by decide) ?_ _
  unfold Settlement.layout
  simp

end Record

end TollClearing
