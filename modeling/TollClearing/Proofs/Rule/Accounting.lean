import TollClearing.Proofs.Rule.Settlement

/-!
The rules for settlements as one rule of accounting (`validate_iff_accounted`). The net amount is
compared with what decimal operations come to, but when it is, whole cents of a bounded size are
known to stand on both sides, so that the comparison is one of numbers and never overflows.
-/

set_option autoImplicit false

namespace TollClearing

namespace Rule

/-- A check is never turned down for this reason. -/
def Spares (reason : Reason) (c : Check) : Prop := ∀ member, c ≠ .error (.rejected member reason)

@[simp] theorem spares_ok {reason : Reason} : Spares reason (.ok ()) := nofun

@[simp] theorem spares_bind {reason : Reason} {c : Check} {f : Unit → Check} :
    Spares reason (c >>= f) ↔ Spares reason c ∧ (c = .ok () → Spares reason (f ())) := by
  cases c <;> simp [Spares, bind, Except.bind]

@[simp] theorem spares_ensure {reason other : Reason} {condition : Bool} {member : String} :
    Spares reason (ensure condition member other) ↔ (other = reason → condition = true) := by
  cases condition <;> simp [Spares, ensure]

end Rule

namespace Settlement

open Rule

/-- A settlement whose parties, period and state are told and whose amounts account for each
other. -/
structure Accounted (s : Settlement) : Prop where
  names : ∀ name ∈ [s.id, s.payor, s.payee], IsName name
  parties : s.payor ≠ s.payee
  period : ∃ start stop, s.start = some start ∧ s.stop = some stop ∧ start < stop
  currency : IsCapitals 3 s.currency
  status : s.status.isSome
  cents : ∀ a ∈ [s.gross, s.fee, s.correction, s.net], IsCents a
  fee_nonneg : 0 ≤ s.fee.value
  fee_le : s.fee.value ≤ s.gross.value
  net_eq : s.net.value = s.gross.value - s.fee.value + s.correction.value
  gross_eq_zero : s.charges = 0 → s.gross.value = 0
  correction_eq_zero : s.corrections = 0 → s.correction.value = 0

variable {s : Settlement}

theorem exists_expectedNet? (hgross : IsCents s.gross) (hfee : IsCents s.fee)
    (hcorrection : IsCents s.correction) : ∃ expected, s.expectedNet? = some expected ∧
      expected.value = s.gross.value - s.fee.value + s.correction.value := by
  obtain ⟨d, hd, hwithin, hvalue⟩ := hgross.within.sub? hfee.within (by decide)
  obtain ⟨expected, hsum, -, hexpected⟩ := hwithin.add? hcorrection.within (by decide)
  refine ⟨expected, ?_, by rw [hexpected, hvalue]⟩
  rw [expectedNet?, hd]
  exact hsum

theorem checkNet_eq_ok_iff (hgross : IsCents s.gross) (hfee : IsCents s.fee)
    (hcorrection : IsCents s.correction) : s.checkNet = .ok () ↔
      s.net.value = s.gross.value - s.fee.value + s.correction.value := by
  obtain ⟨expected, hexpected, hvalue⟩ := exists_expectedNet? hgross hfee hcorrection
  rw [checkNet, hexpected, ← hvalue, ← Decimal.sameValue_iff, ensure_eq_ok]

theorem checkPeriod_eq_ok_iff (hstart : s.start.isSome) (hstop : s.stop.isSome) :
    checkPeriod s.start s.stop = .ok () ↔
      ∃ start stop, s.start = some start ∧ s.stop = some stop ∧ start < stop := by
  obtain ⟨start, hstart⟩ := Option.isSome_iff_exists.1 hstart
  obtain ⟨stop, hstop⟩ := Option.isSome_iff_exists.1 hstop
  simp [checkPeriod, hstart, hstop]

theorem Accounted.of_check (h : ∀ stage, s.check stage = .ok ()) : s.Accounted := by
  have hrequired := h .required
  have hranges := h .ranges
  have hcross := h .crossMember
  have hconditional := h .conditional
  simp only [check, bind_unit_eq_ok, requireSome_eq_ok, capitals_eq_ok_iff, money_eq_ok_iff,
    cents_eq_ok_iff, zeroWithout_eq_ok_iff, notAbove_eq_ok_iff]
    at hrequired hranges hcross hconditional
  obtain ⟨hid, hpayor, hpayee, hstart, hstop, -, hstatus⟩ := hrequired
  obtain ⟨hid', hpayor', hpayee', hcurrency, ⟨hgross, -⟩, ⟨hfee, hfee_nonneg⟩, hcorrection,
    hnet⟩ := hranges
  obtain ⟨hparties, hperiod, hfee_le, hnet_eq⟩ := hcross
  obtain ⟨hgross_zero, hcorrection_zero⟩ := hconditional
  have hnames : ∀ name ∈ [s.id, s.payor, s.payee], IsName name := by
    simp only [List.forall_mem_cons, List.not_mem_nil, false_implies, implies_true, and_true]
    exact ⟨isName_iff.2 ⟨hid, hid'⟩, isName_iff.2 ⟨hpayor, hpayor'⟩,
      isName_iff.2 ⟨hpayee, hpayee'⟩⟩
  have hcents : ∀ a ∈ [s.gross, s.fee, s.correction, s.net], IsCents a := by
    simp [hgross, hfee, hcorrection, hnet]
  exact ⟨hnames, by simpa [distinct] using hparties,
    (checkPeriod_eq_ok_iff hstart hstop).1 hperiod, hcurrency, hstatus, hcents, hfee_nonneg,
    hfee_le, (checkNet_eq_ok_iff hgross hfee hcorrection).1 hnet_eq, hgross_zero,
    hcorrection_zero⟩

theorem require_of_isCapitals {member word : String} {n : ℕ} (h : IsCapitals (n + 1) word) :
    require member word = .ok () := by
  obtain ⟨hlength, hletters⟩ := h
  obtain ⟨c, hc⟩ : ∃ c, c ∈ word.toList := by
    refine List.exists_mem_of_ne_nil _ fun hnil => ?_
    rw [← String.length_toList, hnil] at hlength
    cases hlength
  have hplain : Text.isBlank c = false := by
    obtain ⟨hlow, hhigh⟩ := hletters c hc
    have hlow : 65 ≤ c.toNat := hlow
    have hhigh : c.toNat ≤ 90 := hhigh
    simp only [Text.isBlank]
    grind
  rw [require, ensure_eq_ok, Text.allBlank_eq_false hc hplain]
  rfl

theorem Accounted.check_eq_ok (h : s.Accounted) (stage : Stage) : s.check stage = .ok () := by
  obtain ⟨start, stop, hstart, hstop, -⟩ := h.period
  have hnames := h.names
  have hcents := h.cents
  simp only [List.forall_mem_cons, List.not_mem_nil, false_implies, implies_true, and_true]
    at hnames hcents
  obtain ⟨hid, hpayor, hpayee⟩ := hnames
  obtain ⟨hgross, hfee, hcorrection, hnet⟩ := hcents
  cases stage with
  | required =>
    simp only [check, bind_unit_eq_ok, requireSome_eq_ok, hstart, hstop, Option.isSome_some,
      h.status, true_and, and_true]
    exact ⟨(isName_iff.1 hid).1, (isName_iff.1 hpayor).1, (isName_iff.1 hpayee).1,
      require_of_isCapitals h.currency⟩
  | codes => rfl
  | ranges =>
    simp only [check, bind_unit_eq_ok, capitals_eq_ok_iff, money_eq_ok_iff, cents_eq_ok_iff]
    exact ⟨(isName_iff.1 hid).2, (isName_iff.1 hpayor).2, (isName_iff.1 hpayee).2, h.currency,
      ⟨hgross, h.fee_nonneg.trans h.fee_le⟩, ⟨hfee, h.fee_nonneg⟩, hcorrection, hnet⟩
  | crossMember =>
    have hperiod := (checkPeriod_eq_ok_iff (Option.isSome_of_eq_some hstart)
      (Option.isSome_of_eq_some hstop)).2 h.period
    simp only [check, bind_unit_eq_ok, notAbove_eq_ok_iff]
    exact ⟨by simpa [distinct] using h.parties, hperiod, h.fee_le,
      (checkNet_eq_ok_iff hgross hfee hcorrection).2 h.net_eq⟩
  | conditional =>
    simp only [check, bind_unit_eq_ok, zeroWithout_eq_ok_iff]
    exact ⟨h.gross_eq_zero, h.correction_eq_zero⟩

theorem validate_iff : (Record.settlement s).validate = .ok () ↔ s.Accounted := by
  rw [Record.validate_eq_ok]
  exact ⟨.of_check, Accounted.check_eq_ok⟩

/-- Nothing is asked of an amount but what its value tells. -/
theorem Accounted.congr (h : s.Accounted) {gross fee correction net : Decimal}
    (hgross : gross.value = s.gross.value) (hfee : fee.value = s.fee.value)
    (hcorrection : correction.value = s.correction.value) (hnet : net.value = s.net.value) :
    Accounted { s with gross, fee, correction, net } := by
  have hcents := h.cents
  simp only [List.forall_mem_cons, List.not_mem_nil, false_implies, implies_true, and_true]
    at hcents
  obtain ⟨hgross', hfee', hcorrection', hnet'⟩ := hcents
  exact {
    names := h.names
    parties := h.parties
    period := h.period
    currency := h.currency
    status := h.status
    cents := by
      simp only [List.forall_mem_cons, List.not_mem_nil, false_implies, implies_true, and_true]
      exact ⟨hgross'.congr hgross, hfee'.congr hfee, hcorrection'.congr hcorrection,
        hnet'.congr hnet⟩
    fee_nonneg := hfee ▸ h.fee_nonneg
    fee_le := by simpa only [hfee, hgross] using h.fee_le
    net_eq := by simpa only [hgross, hfee, hcorrection, hnet] using h.net_eq
    gross_eq_zero := by simpa only [hgross] using h.gross_eq_zero
    correction_eq_zero := by simpa only [hcorrection] using h.correction_eq_zero }

/-- Only the comparison of the net amount can overflow. -/
theorem spares_check {stage : Stage} (h : stage ≠ .crossMember) :
    Spares .netOverflow (s.check stage) := by
  cases stage with
  | crossMember => exact absurd rfl h
  | _ => simp [check, require, requireSome, identifier, capitals, money, cents, zeroWithout]

theorem spares_checkPeriod {start stop : Option Date} :
    Spares .netOverflow (checkPeriod start stop) := by
  unfold checkPeriod
  split <;> simp

/-- The net amount is compared only once the amounts are known to be cents. -/
theorem spares_crossMember (h : s.check .ranges = .ok ()) :
    Spares .netOverflow (s.check .crossMember) := by
  simp only [check, bind_unit_eq_ok, money_eq_ok_iff, cents_eq_ok_iff] at h
  obtain ⟨-, -, -, -, ⟨hgross, -⟩, ⟨hfee, -⟩, hcorrection, -⟩ := h
  obtain ⟨expected, hexpected, -⟩ := exists_expectedNet? hgross hfee hcorrection
  have hnet : Spares .netOverflow s.checkNet := by simp [checkNet, hexpected]
  simp [check, distinct, notAbove, spares_checkPeriod, hnet]

theorem spares_validate : Spares .netOverflow (Record.settlement s).validate := by
  have hrun : (Record.settlement s).validate = (do
      s.check .required
      s.check .codes
      s.check .ranges
      s.check .crossMember
      s.check .conditional
      .ok ()) := rfl
  rw [hrun]
  simp only [spares_bind, spares_ok, implies_true, and_true]
  exact ⟨spares_check nofun, fun _ => ⟨spares_check nofun, fun _ => ⟨spares_check nofun,
    fun hranges => ⟨spares_crossMember hranges, fun _ => spares_check nofun⟩⟩⟩⟩

/-- A settlement obeys the rules just if its names, its period and its state are told as they have
to be and its amounts are whole cents that account for each other exactly. So the scales of the
amounts make no difference, and their sum never overflows. -/
theorem validate_iff_accounted (s : Settlement) :
    ((Record.settlement s).validate = .ok () ↔ s.Accounted) ∧
      (∀ gross fee correction net : Decimal, gross.value = s.gross.value →
        fee.value = s.fee.value → correction.value = s.correction.value →
        net.value = s.net.value →
          ((Record.settlement { s with gross, fee, correction, net }).validate = .ok () ↔
            (Record.settlement s).validate = .ok ())) ∧
      ∀ member, (Record.settlement s).validate ≠ .error (.rejected member .netOverflow) := by
  refine ⟨validate_iff, fun gross fee correction net hgross hfee hcorrection hnet => ?_,
    spares_validate⟩
  rw [validate_iff, validate_iff]
  exact ⟨fun h => h.congr hgross.symm hfee.symm hcorrection.symm hnet.symm,
    fun h => h.congr hgross hfee hcorrection hnet⟩

def scaledBill : Settlement where
  id := "S1"
  payor := "A"
  payee := "B"
  start := some ⟨2024, 3, 1, by decide⟩
  stop := some ⟨2024, 4, 1, by decide⟩
  charges := 2
  corrections := 1
  gross := .amount 10 0
  fee := .amount 5000000000000000000000000000 28
  correction := .amount (-15) 1
  net := .amount 800 2
  currency := "USD"
  status := some .draft
  createdAt := none
  updatedAt := none

theorem validate_iff_accounted_scaledBill :
    (Record.settlement scaledBill).validate = .ok () ∧
      (Record.settlement { scaledBill with
        gross := .amount 1000 2
        fee := .amount 50 2
        correction := .amount (-150) 2
        net := .amount 8 0 }).validate = .ok () := by
  have hscaled : (Record.settlement scaledBill).validate = .ok () := by decide +kernel
  exact ⟨hscaled, ((validate_iff_accounted scaledBill).2.1 _ _ _ _
    ((Decimal.sameValue_iff _ _).1 (by decide)) ((Decimal.sameValue_iff _ _).1 (by decide))
    ((Decimal.sameValue_iff _ _).1 (by decide)) ((Decimal.sameValue_iff _ _).1 (by decide))).2
      hscaled⟩

end Settlement

end TollClearing
