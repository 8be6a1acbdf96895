import Mathlib.Data.List.MinMax
import TollClearing.Proofs.Rule.Member
import TollClearing.Proofs.Table
import TollClearing.Totals

/-!
The bill of a period is exact: it is made of the numbers that the amounts are, and of every charge
in its current version. Bills of adjoining periods add up.
-/

set_option autoImplicit false

namespace TollClearing

structure Priced (amount : Option Decimal) (fee : Decimal) : Prop where
  amount : (amount.getD .zero).Within Rule.maxMoney
  fee : fee.Within Rule.maxMoney

namespace Rule

theorem priced_of_money {amountMember feeMember : String} {amount : Option Decimal} {fee : Decimal}
    (hamount : moneyIfSome amountMember amount = .ok ()) (hfee : money feeMember fee = .ok ()) :
    Priced amount fee := by
  refine ⟨?_, (money_eq_ok_iff.1 hfee).1.within⟩
  cases amount with
  | none => exact ⟨Decimal.within_zero.cents, Decimal.within_zero.abs_le.trans (by positivity)⟩
  | some a => exact (money_eq_ok_iff.1 hamount).1.within

end Rule

theorem Charge.priced_of_check {c : Charge} (h : c.check .ranges = .ok ()) :
    Priced c.amount c.fee := by
  simp only [check, bind_eq_ok] at h
  obtain ⟨_, -, _, -, _, -, _, -, _, hamount, hfee⟩ := h
  exact Rule.priced_of_money hamount hfee

theorem Correction.priced_of_check {c : Correction} (h : c.check .ranges = .ok ()) :
    Priced c.amount c.fee := by
  simp only [check, bind_eq_ok] at h
  obtain ⟨_, -, _, -, _, -, _, -, _, -, _, hamount, hfee⟩ := h
  exact Rule.priced_of_money hamount hfee

def Charge.gross (c : Charge) : ℚ := (c.amount.getD .zero).value

def Charge.net (c : Charge) : ℚ := c.gross - c.fee.value

def Correction.net (c : Correction) : ℚ := (c.amount.getD .zero).value - c.fee.value

def Period.Covers (p : Period) (c : Charge) : Prop :=
  c.home = p.payor ∧ c.away = p.payee ∧ (c.status = some .posted ∨ c.status = some .settled) ∧
    ∃ exit, c.exitTime = some exit ∧ p.start ≤ exit.date ∧ exit.date < p.stop

namespace Period

variable {p : Period} {mid : Date} {c : Charge}

theorem bills_eq_true_iff : p.bills c = true ↔ p.Covers c := by
  unfold bills Covers
  cases hstatus : c.status <;> cases hexit : c.exitTime <;>
    simp [ChargeStatus.isBillable, and_assoc]

instance (p : Period) (c : Charge) : Decidable (p.Covers c) :=
  decidable_of_iff _ bills_eq_true_iff

theorem Covers.of_first (h : Covers { p with stop := mid } c) (hstop : mid < p.stop) :
    p.Covers c := by
  obtain ⟨hhome, haway, hstatus, exit, hexit, hle, hlt⟩ := h
  exact ⟨hhome, haway, hstatus, exit, hexit, hle, Int.lt_trans hlt hstop⟩

theorem covers_second_iff (hstart : p.start < mid) :
    Covers { p with start := mid } c ↔ p.Covers c ∧ ¬ Covers { p with stop := mid } c := by
  constructor
  · rintro ⟨hhome, haway, hstatus, exit, hexit, hle, hlt⟩
    refine ⟨⟨hhome, haway, hstatus, exit, hexit, Int.le_trans (Int.le_of_lt hstart) hle, hlt⟩, ?_⟩
    rintro ⟨-, -, -, exit', hexit', -, hlt'⟩
    obtain rfl := Option.some.inj (hexit.symm.trans hexit')
    exact Int.not_lt.2 hle hlt'
  · rintro ⟨⟨hhome, haway, hstatus, exit, hexit, hle, hlt⟩, hnot⟩
    refine ⟨hhome, haway, hstatus, exit, hexit, Int.not_lt.1 fun hlt' => hnot ?_, hlt⟩
    exact ⟨hhome, haway, hstatus, exit, hexit, hle, hlt'⟩

theorem perm_filter_covers (hstart : p.start < mid) (hstop : mid < p.stop) (cs : List Charge) :
    (cs.filter p.Covers).Perm (cs.filter (Covers { p with stop := mid })
      ++ cs.filter (Covers { p with start := mid })) := by
  have hfirst : (cs.filter p.Covers).filter (Covers { p with stop := mid })
      = cs.filter (Covers { p with stop := mid }) := by
    rw [List.filter_filter]
    refine List.filter_congr fun c _ => ?_
    rw [← Bool.decide_and, decide_eq_decide]
    exact and_iff_left_of_imp fun h => h.of_first hstop
  have hsecond : ((cs.filter p.Covers).filter fun c => !decide (Covers { p with stop := mid } c))
      = cs.filter (Covers { p with start := mid }) := by
    rw [List.filter_filter]
    refine List.filter_congr fun c _ => ?_
    rw [← decide_not, ← Bool.decide_and, decide_eq_decide, covers_second_iff hstart, and_comm]
  rw [← hfirst, ← hsecond]
  exact (List.filter_append_perm _ _).symm

end Period

namespace Totals

section Spec

variable (ks : List Correction)

/-- The correction of a charge with the highest number, if the charge has been corrected. -/
def current? (c : Charge) : Option Correction :=
  (ks.filter (·.charge = c.id)).argmax (·.number.toNat)

/-- What is owed for a charge in its current version. -/
def owed (c : Charge) : ℚ :=
  match current? ks c with
  | some k => k.net
  | none => c.net

/-- The bill for charges with their corrections. -/
structure IsBill (p : Period) (cs : List Charge) (t : Totals) : Prop where
  payor : t.payor = p.payor
  payee : t.payee = p.payee
  start : t.start = p.start
  stop : t.stop = p.stop
  charges : t.charges.toNat = cs.length
  corrections : t.corrections.toNat = (cs.filter fun c => ∃ k ∈ ks, k.charge = c.id).length
  gross : t.gross.value = (cs.map Charge.gross).sum
  fee : t.fee.value = (cs.map fun c => c.fee.value).sum
  correction : t.correction.value = t.net.value - (t.gross.value - t.fee.value)
  net : t.net.value = (cs.map (owed ks)).sum

end Spec

theorem checked_eq_ok {member : String} {sum : Option Decimal} {a : Decimal} (h : sum = some a) :
    checked member sum = .ok a := by
  rw [h, checked]

/-- Gross amount and fees of fewer charges than a counter of 32 bits counts are exact sums. -/
theorem sumCharges_eq {gross fee : Decimal} {n : ℕ} {cs : List Charge}
    (hcs : ∀ c ∈ cs, Priced c.amount c.fee) (hgross : gross.Within (n * Rule.maxMoney))
    (hfee : fee.Within (n * Rule.maxMoney)) (hfew : n + cs.length < 4294967296) :
    ∃ g f, sumCharges gross fee cs = .ok (g, f) ∧
      g.Within ((n + cs.length) * Rule.maxMoney) ∧ f.Within ((n + cs.length) * Rule.maxMoney) ∧
      g.value = gross.value + (cs.map Charge.gross).sum ∧
      f.value = fee.value + (cs.map fun c => c.fee.value).sum := by
  induction cs generalizing gross fee n with
  | nil => exact ⟨gross, fee, rfl, hgross, hfee, by simp, by simp⟩
  | cons c cs ih =>
    rw [List.length_cons, Nat.add_comm cs.length, ← Nat.add_assoc] at hfew ⊢
    have hroom : (n * Rule.maxMoney + Rule.maxMoney) * 100 < Decimal.bound := by
      simp only [Rule.maxMoney, Decimal.bound]
      omega
    have hpriced := hcs c List.mem_cons_self
    obtain ⟨g, hg, hgwithin, hgvalue⟩ := hgross.add? hpriced.amount hroom
    obtain ⟨f, hf, hfwithin, hfvalue⟩ := hfee.add? hpriced.fee hroom
    rw [← Nat.succ_mul] at hgwithin hfwithin
    obtain ⟨g', f', hsum, hg', hf', hgsum, hfsum⟩ :=
      ih (fun d hd => hcs d (List.mem_cons_of_mem c hd)) hgwithin hfwithin (by omega)
    refine ⟨g', f', ?_, hg', hf', ?_, ?_⟩
    · simp only [sumCharges, checked_eq_ok hg, checked_eq_ok hf]
      exact hsum
    · rw [hgsum, hgvalue, List.map_cons, List.sum_cons, add_assoc]
      rfl
    · rw [hfsum, hfvalue, List.map_cons, List.sum_cons, add_assoc]

theorem change?_eq {c : Charge} {k : Correction} (hc : Priced c.amount c.fee)
    (hk : Priced k.amount k.fee) :
    ∃ d, change? c k = some d ∧ d.Within (4 * Rule.maxMoney) ∧ d.value = k.net - c.net := by
  obtain ⟨corrected, hcorrected, hwithin, hvalue⟩ := hk.amount.sub? hk.fee (by decide)
  obtain ⟨recorded, hrecorded, hwithin', hvalue'⟩ := hc.amount.sub? hc.fee (by decide)
  obtain ⟨d, hd, hdwithin, hdvalue⟩ := hwithin.sub? hwithin' (by decide)
  refine ⟨d, ?_, hdwithin, ?_⟩
  · simp only [change?, hcorrected, hrecorded]
    exact hd
  · rw [hdvalue, hvalue, hvalue']
    rfl

theorem sumChanges_eq {total : Decimal} {n : ℕ} {pairs : List (Charge × Correction)}
    (hpairs : ∀ x ∈ pairs, Priced x.1.amount x.1.fee ∧ Priced x.2.amount x.2.fee)
    (htotal : total.Within (n * (4 * Rule.maxMoney))) (hfew : n + pairs.length < 4294967296) :
    ∃ t, sumChanges total pairs = .ok t ∧
      t.Within ((n + pairs.length) * (4 * Rule.maxMoney)) ∧
      t.value = total.value + (pairs.map fun x => x.2.net - x.1.net).sum := by
  induction pairs generalizing total n with
  | nil => exact ⟨total, rfl, htotal, by simp⟩
  | cons x pairs ih =>
    rw [List.length_cons, Nat.add_comm pairs.length, ← Nat.add_assoc] at hfew ⊢
    have hroom : (n * (4 * Rule.maxMoney) + 4 * Rule.maxMoney) * 100 < Decimal.bound := by
      simp only [Rule.maxMoney, Decimal.bound]
      omega
    obtain ⟨c, k⟩ := x
    have hpriced := hpairs (c, k) List.mem_cons_self
    obtain ⟨d, hd, hdwithin, hdvalue⟩ := change?_eq hpriced.1 hpriced.2
    obtain ⟨t, ht, htwithin, htvalue⟩ := htotal.add? hdwithin hroom
    rw [← Nat.succ_mul] at htwithin
    obtain ⟨t', hsum, ht', hvalue⟩ :=
      ih (fun y hy => hpairs y (List.mem_cons_of_mem _ hy)) htwithin (by omega)
    refine ⟨t', ?_, ht', ?_⟩
    · simp only [sumChanges, checked_eq_ok hd, bind, Except.bind, checked_eq_ok ht, hsum]
    · rw [hvalue, htvalue, hdvalue, List.map_cons, List.sum_cons, add_assoc]

theorem latest?_eq (c : Charge) (ks : List Correction) : latest? c.id ks = current? ks c := by
  have hlater : later = List.argAux fun k b : Correction => b.number.toNat < k.number.toNat := by
    funext best k
    cases best with
    | none => rfl
    | some b => simp only [later, List.argAux, UInt32.lt_iff_toNat_lt]
  rw [latest?, hlater]
  rfl

theorem mem_of_current? {c : Charge} {k : Correction} {ks : List Correction}
    (h : current? ks c = some k) : k ∈ ks := List.mem_of_mem_filter (List.argmax_mem h)

theorem isSome_current? {c : Charge} {ks : List Correction} :
    (current? ks c).isSome = decide (∃ k ∈ ks, k.charge = c.id) := by
  rw [Bool.eq_iff_iff, Option.isSome_iff_ne_none, ne_eq, current?, List.argmax_eq_none,
    List.filter_eq_nil_iff]
  simp

theorem mem_of_mem_corrected {cs : List Charge} {ks : List Correction} {x : Charge × Correction}
    (h : x ∈ corrected cs ks) : x.1 ∈ cs ∧ x.2 ∈ ks := by
  obtain ⟨⟨id, c⟩, hrow, hx⟩ := List.mem_filterMap.1 h
  obtain ⟨k, hk, rfl⟩ := Option.map_eq_some_iff.1 hx
  obtain ⟨c', hc', e⟩ := List.mem_map.1 (Table.mem_of_mem_rows_ofList hrow)
  obtain ⟨rfl, rfl⟩ := Prod.mk.inj e
  rw [latest?_eq] at hk
  exact ⟨hc', mem_of_current? hk⟩

/-- No two charges have one name, so every corrected one is paired with its correction. -/
theorem perm_corrected {cs : List Charge} (h : (cs.map Charge.id).Nodup) (ks : List Correction) :
    (corrected cs ks).Perm (cs.filterMap fun c => (current? ks c).map fun k => (c, k)) := by
  have hnames : ((cs.map fun c => (c.id, c)).map Prod.fst).Nodup := by
    rwa [List.map_map]
  refine ((Table.perm_rows_ofList hnames).filterMap _).trans (.of_eq ?_)
  rw [List.filterMap_map]
  refine List.filterMap_congr fun c _ => ?_
  change (latest? c.id ks).map _ = _
  rw [latest?_eq]

theorem length_corrected {cs : List Charge} (h : (cs.map Charge.id).Nodup)
    (ks : List Correction) :
    (corrected cs ks).length = (cs.filter fun c => ∃ k ∈ ks, k.charge = c.id).length := by
  rw [(perm_corrected h ks).length_eq, List.length_filterMap_eq_countP,
    List.countP_eq_length_filter]
  simp only [Option.isSome_map, isSome_current?]

theorem sum_owed (cs : List Charge) (ks : List Correction) :
    (cs.map (owed ks)).sum = (cs.map Charge.gross).sum - (cs.map fun c => c.fee.value).sum
      + ((cs.filterMap fun c => (current? ks c).map fun k => (c, k)).map
          fun x => x.2.net - x.1.net).sum := by
  induction cs with
  | nil => simp
  | cons c cs ih =>
    rw [List.map_cons, List.sum_cons, ih, List.map_cons, List.sum_cons, List.map_cons,
      List.sum_cons, List.filterMap_cons]
    cases hcurrent : current? ks c with
    | none =>
      simp only [owed, hcurrent, Option.map_none, Charge.net]
      ring
    | some k =>
      simp only [owed, hcurrent, Option.map_some, List.map_cons, List.sum_cons, Charge.net]
      ring

/-- The bill of charges and corrections that pass the rules exists and is exact. -/
theorem ofPeriod_eq {p : Period} {cs : List Charge} {ks : List Correction}
    (hcs : ∀ c ∈ cs, Priced c.amount c.fee) (hks : ∀ k ∈ ks, Priced k.amount k.fee)
    (hids : (cs.map Charge.id).Nodup) (hfew : cs.length < 4294967296) :
    ∃ t, ofPeriod p cs ks = .ok t ∧ IsBill ks p (cs.filter p.Covers) t := by
  have hbills : cs.filter p.bills = cs.filter p.Covers :=
    List.filter_congr fun c _ => Bool.eq_iff_iff.2 (by simp [Period.bills_eq_true_iff])
  have hsub : (cs.filter p.Covers).Sublist cs := List.filter_sublist
  rw [ofPeriod, hbills]
  generalize cs.filter p.Covers = billed at hsub ⊢
  have hbilled : ∀ c ∈ billed, Priced c.amount c.fee := fun c hc => hcs c (hsub.subset hc)
  have hnames : (billed.map Charge.id).Nodup := hids.sublist (hsub.map Charge.id)
  have hfewer : billed.length < 4294967296 := Nat.lt_of_le_of_lt hsub.length_le hfew
  have hzero : Decimal.zero.Within (0 * Rule.maxMoney) := by simpa using Decimal.within_zero
  obtain ⟨g, f, hsum, hg, hf, hgross, hfee⟩ := sumCharges_eq hbilled hzero hzero (by omega)
  have hperm := perm_corrected hnames ks
  have hpairs : ∀ x ∈ corrected billed ks,
      Priced x.1.amount x.1.fee ∧ Priced x.2.amount x.2.fee := fun x hx =>
    ⟨hbilled _ (mem_of_mem_corrected hx).1, hks _ (mem_of_mem_corrected hx).2⟩
  have hcount : (corrected billed ks).length ≤ billed.length :=
    length_corrected hnames ks ▸ List.length_filter_le _ _
  have hzero' : Decimal.zero.Within (0 * (4 * Rule.maxMoney)) := by
    simpa using Decimal.within_zero
  obtain ⟨k, hchanges, hk, hcorrection⟩ := sumChanges_eq hpairs hzero' (by omega)
  obtain ⟨d, hd, hdwithin, hdvalue⟩ := hg.sub? hf (by
    simp only [Rule.maxMoney, Decimal.bound]
    omega)
  obtain ⟨n, hn, -, hnet⟩ := hdwithin.add? hk (by
    simp only [Rule.maxMoney, Decimal.bound]
    omega)
  rw [Decimal.value_zero, zero_add] at hgross hfee hcorrection
  rw [(hperm.map _).sum_eq] at hcorrection
  refine ⟨⟨p.payor, p.payee, p.start, p.stop, .ofNat billed.length,
    .ofNat (corrected billed ks).length, g, f, k, n⟩, ?_, rfl, rfl, rfl, rfl,
    UInt32.toNat_ofNat_of_lt' hfewer, ?_, hgross, hfee, ?_, ?_⟩
  · simp only [hsum, bind, Except.bind, hchanges, hd, checked_eq_ok hn, Option.bind]
  · rw [UInt32.toNat_ofNat_of_lt' (hcount.trans_lt hfewer), length_corrected hnames ks]
  · rw [hnet, hdvalue]
    ring
  · rw [hnet, hdvalue, hgross, hfee, hcorrection, sum_owed]

/-- A bill is made of two others: what it counts and what it sums up is split between them. -/
structure Splits (t t₁ t₂ : Totals) : Prop where
  charges : t.charges.toNat = t₁.charges.toNat + t₂.charges.toNat
  corrections : t.corrections.toNat = t₁.corrections.toNat + t₂.corrections.toNat
  gross : t.gross.value = t₁.gross.value + t₂.gross.value
  fee : t.fee.value = t₁.fee.value + t₂.fee.value
  correction : t.correction.value = t₁.correction.value + t₂.correction.value
  net : t.net.value = t₁.net.value + t₂.net.value

theorem IsBill.splits {ks : List Correction} {p p₁ p₂ : Period} {cs cs₁ cs₂ : List Charge}
    {t t₁ t₂ : Totals} (h : IsBill ks p cs t) (h₁ : IsBill ks p₁ cs₁ t₁)
    (h₂ : IsBill ks p₂ cs₂ t₂) (hperm : cs.Perm (cs₁ ++ cs₂)) : t.Splits t₁ t₂ := by
  have hgross : t.gross.value = t₁.gross.value + t₂.gross.value := by
    rw [h.gross, h₁.gross, h₂.gross, (hperm.map _).sum_eq, List.map_append, List.sum_append]
  have hfee : t.fee.value = t₁.fee.value + t₂.fee.value := by
    rw [h.fee, h₁.fee, h₂.fee, (hperm.map _).sum_eq, List.map_append, List.sum_append]
  have hnet : t.net.value = t₁.net.value + t₂.net.value := by
    rw [h.net, h₁.net, h₂.net, (hperm.map _).sum_eq, List.map_append, List.sum_append]
  refine ⟨?_, ?_, hgross, hfee, ?_, hnet⟩
  · rw [h.charges, h₁.charges, h₂.charges, hperm.length_eq, List.length_append]
  · rw [h.corrections, h₁.corrections, h₂.corrections, (hperm.filter _).length_eq,
      List.filter_append, List.length_append]
  · rw [h.correction, h₁.correction, h₂.correction, hgross, hfee, hnet]
    ring

end Totals

end TollClearing
