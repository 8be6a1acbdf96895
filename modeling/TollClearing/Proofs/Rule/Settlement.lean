import TollClearing.Proofs.Totals

/-!
What the rules for settlements make of totals. Totals of charges that obey the rules are whole
cents, and what the rules ask of a net amount and of the counts is how totals are made; so the rules
turn a settlement with these amounts down only if one of them is too large.
-/

set_option autoImplicit false

namespace TollClearing

namespace Rule

/-- Whole cents are turned down only for their size. -/
theorem cents_eq {a : Decimal} {n : ℤ} (h : a.HasCents n) (member : String) :
    cents member a = if |a.value| ≤ maxMoney then .ok ()
      else .error (.rejected member (.tooLarge maxMoney)) := by
  have hplaces : a.places ≤ moneyPlaces := places_le_moneyPlaces_iff.2 ⟨n, h.value_eq⟩
  simp only [cents, a.size_le_iff, hplaces, decide_true]
  unfold ensure
  by_cases hsize : |a.value| ≤ maxMoney
  · simp only [hsize, decide_true, if_true]
    rfl
  · simp only [hsize, decide_false, if_false]
    rfl

theorem money_eq {a : Decimal} {n : ℤ} (h : a.HasCents n) (hsign : 0 ≤ a.value)
    (member : String) : money member a = if a.value ≤ maxMoney then .ok ()
      else .error (.rejected member (.tooLarge maxMoney)) := by
  have hunits := a.units_nonneg_iff.2 hsign
  rw [money, cents_eq h, abs_of_nonneg hsign]
  simp only [ensure, hunits, decide_true, if_true]
  rfl

end Rule

theorem Settlement.zeroWithout_eq_ok_iff {count : UInt32} {countMember member : String}
    {a : Decimal} :
    zeroWithout count countMember member a = .ok () ↔ (count = 0 → a.value = 0) := by
  rw [zeroWithout, Rule.ensure_eq_ok, Bool.or_eq_true, decide_eq_true_eq, a.isZero_iff,
    imp_iff_not_or]

namespace Totals

def draft (t : Totals) (id : String) : Settlement where
  id := id
  payor := t.payor
  payee := t.payee
  start := some t.start
  stop := some t.stop
  charges := t.charges
  corrections := t.corrections
  gross := t.gross
  fee := t.fee
  correction := t.correction
  net := t.net
  currency := "USD"
  status := some .draft
  createdAt := none
  updatedAt := none

/-- How totals of charges and corrections that obey the rules are made. -/
structure Coherent (t : Totals) : Prop where
  gross : ∃ n, t.gross.HasCents n
  fee : ∃ n, t.fee.HasCents n
  correction : ∃ n, t.correction.HasCents n
  net : ∃ n, t.net.HasCents n
  fee_nonneg : 0 ≤ t.fee.value
  fee_le : t.fee.value ≤ t.gross.value
  net_eq : (do (← t.gross.sub? t.fee).add? t.correction) = some t.net
  gross_eq_zero : t.charges = 0 → t.gross.value = 0
  correction_eq_zero : t.corrections = 0 → t.correction.value = 0

structure Recordable (t : Totals) : Prop where
  gross : t.gross.value ≤ 10 ^ 12
  correction : |t.correction.value| ≤ 10 ^ 12
  net : |t.net.value| ≤ 10 ^ 12

structure Addressed (t : Totals) (id : String) : Prop where
  told : ∀ name ∈ [id, t.payor, t.payee], name ≠ ""
  identifier : ∀ name ∈ [id, t.payor, t.payee], ∃ member, Rule.identifier member name = .ok ()
  distinct : t.payor ≠ t.payee
  period : t.start < t.stop

section Draft

variable {t : Totals} {id : String}

theorem Addressed.identifier_eq (h : t.Addressed id) (name : String)
    (hname : name ∈ [id, t.payor, t.payee]) (member : String) :
    Rule.identifier member name = .ok () := by
  obtain ⟨other, hother⟩ := h.identifier name hname
  exact Rule.identifier_congr hother member

theorem Addressed.require_eq (h : t.Addressed id) (name : String)
    (hname : name ∈ [id, t.payor, t.payee]) (member : String) :
    Rule.require member name = .ok () :=
  Rule.require_of_identifier (h.identifier_eq name hname member) (h.told name hname) member

theorem Addressed.check_required (h : t.Addressed id) :
    (t.draft id).check .required = .ok () := by
  simp only [Settlement.check, draft, h.require_eq id (by simp),
    h.require_eq t.payor (by simp), h.require_eq t.payee (by simp)]
  rfl

/-- Where a settlement is turned down for the size of an amount. -/
def sized (member : String) (value : ℚ) : Check :=
  if value ≤ Rule.maxMoney then .ok () else .error (.rejected member (.tooLarge Rule.maxMoney))

theorem Coherent.check_ranges (h : t.Coherent) (hid : t.Addressed id) :
    (t.draft id).check .ranges = (do
      sized "grossAmount" t.gross.value
      sized "feeAmount" t.fee.value
      sized "correctionAmount" |t.correction.value|
      sized "netAmount" |t.net.value|) := by
  obtain ⟨g, hgross⟩ := h.gross
  obtain ⟨f, hfee⟩ := h.fee
  obtain ⟨k, hcorrection⟩ := h.correction
  obtain ⟨n, hnet⟩ := h.net
  simp only [Settlement.check, draft, hid.identifier_eq id (by simp),
    hid.identifier_eq t.payor (by simp), hid.identifier_eq t.payee (by simp),
    Rule.money_eq hgross (h.fee_nonneg.trans h.fee_le), Rule.money_eq hfee h.fee_nonneg,
    Rule.cents_eq hcorrection, Rule.cents_eq hnet]
  rfl

theorem Coherent.check_crossMember (h : t.Coherent) (hid : t.Addressed id) :
    (t.draft id).check .crossMember = .ok () := by
  have hfee : t.fee ≤ t.gross := (t.fee.le_iff_value t.gross).2 h.fee_le
  have hnet : (t.draft id).expectedNet? = some t.net := h.net_eq
  have hsame : t.net.sameValue t.net = true := by simp [Decimal.sameValue]
  simp only [Settlement.check, Settlement.checkNet, hnet]
  simp [draft, Rule.distinct, hid.distinct, Settlement.checkPeriod, hid.period, Rule.notAbove,
    hfee, hsame, Rule.ensure]

theorem Coherent.check_conditional (h : t.Coherent) (id : String) :
    (t.draft id).check .conditional = .ok () := by
  simp only [Settlement.check, draft, Settlement.zeroWithout_eq_ok_iff.2 h.gross_eq_zero,
    Settlement.zeroWithout_eq_ok_iff.2 h.correction_eq_zero]
  rfl

/-- The rules turn down a draft of totals exactly if an amount is too large, and name one that
is. -/
theorem Coherent.validate_draft (h : t.Coherent) (hid : t.Addressed id) :
    (t.Recordable → (Record.settlement (t.draft id)).validate = .ok ()) ∧
      (¬ t.Recordable → ∃ member ∈ ["grossAmount", "correctionAmount", "netAmount"],
        (Record.settlement (t.draft id)).validate
          = .error (.rejected member (.tooLarge Rule.maxMoney))) := by
  have hrun : (Record.settlement (t.draft id)).validate = (t.draft id).check .ranges := by
    simp only [Record.validate, Stage.run, Stage.all, List.forM_eq_forM, List.forM_cons,
      Record.check, hid.check_required, h.check_crossMember hid, h.check_conditional id]
    cases (t.draft id).check .ranges <;> rfl
  rw [hrun, h.check_ranges hid]
  simp only [sized, Rule.cast_maxMoney]
  constructor
  · rintro ⟨hgross, hcorrection, hnet⟩
    simp only [hgross, h.fee_le.trans hgross, hcorrection, hnet, if_true]
    rfl
  · intro hnot
    by_cases hgross : t.gross.value ≤ 10 ^ 12
    · simp only [hgross, h.fee_le.trans hgross, if_true]
      by_cases hcorrection : |t.correction.value| ≤ 10 ^ 12
      · have hnet : ¬ |t.net.value| ≤ 10 ^ 12 := fun hnet => hnot ⟨hgross, hcorrection, hnet⟩
        simp only [hcorrection, hnet, if_true, if_false]
        exact ⟨"netAmount", by simp, rfl⟩
      · simp only [hcorrection, if_false]
        exact ⟨"correctionAmount", by simp, rfl⟩
    · simp only [hgross, if_false]
      exact ⟨"grossAmount", by simp, rfl⟩

end Draft

end Totals

end TollClearing
