import Mathlib.Algebra.Order.BigOperators.Group.List
import TollClearing.Proofs.House.Once
import TollClearing.Proofs.Rule.Settlement

/-!
Bills that are recorded. The bill that the clearing house answers, with a name and a state, is a
settlement that it takes, as long as no amount is too large for one, and what it keeps is exactly
the bill.
-/

set_option autoImplicit false

namespace TollClearing

namespace Totals

theorem eq_of_checked {member : String} {sum : Option Decimal} {a : Decimal}
    (h : checked member sum = .ok a) : sum = some a := by
  cases sum with
  | none => cases h
  | some b => rw [Except.ok.inj h]

/-- No zero has a sign, as is so of amounts that have been read. -/
structure Unsigned (amount : Option Decimal) (fee : Decimal) : Prop where
  amount : (amount.getD .zero).asRead = amount.getD .zero
  fee : fee.asRead = fee

theorem Unsigned.of_asRead {amount : Option Decimal} {fee : Decimal}
    (hamount : amount.map Decimal.asRead = amount) (hfee : fee.asRead = fee) :
    Unsigned amount fee := by
  refine ⟨?_, hfee⟩
  cases amount with
  | none => rfl
  | some a => exact Option.some.inj hamount

theorem asRead_of_sumCharges {gross fee g f : Decimal} {cs : List Charge}
    (hcs : ∀ c ∈ cs, Unsigned c.amount c.fee) (hgross : gross.asRead = gross)
    (hfee : fee.asRead = fee) (h : sumCharges gross fee cs = .ok (g, f)) :
    g.asRead = g ∧ f.asRead = f := by
  induction cs generalizing gross fee with
  | nil =>
    obtain ⟨rfl, rfl⟩ := Prod.mk.inj (Except.ok.inj h)
    exact ⟨hgross, hfee⟩
  | cons c cs ih =>
    simp only [sumCharges, bind_eq_ok] at h
    obtain ⟨gross', hgross', fee', hfee', h⟩ := h
    have hc := hcs c List.mem_cons_self
    exact ih (fun d hd => hcs d (List.mem_cons_of_mem c hd))
      (Decimal.asRead_of_add? hgross hc.amount (eq_of_checked hgross'))
      (Decimal.asRead_of_add? hfee hc.fee (eq_of_checked hfee')) h

theorem asRead_of_change? {c : Charge} {k : Correction} {d : Decimal}
    (hc : Unsigned c.amount c.fee) (hk : Unsigned k.amount k.fee) (h : change? c k = some d) :
    d.asRead = d := by
  simp only [change?, Option.bind_eq_bind, Option.bind_eq_some_iff] at h
  obtain ⟨corrected, hcorrected, recorded, hrecorded, h⟩ := h
  exact Decimal.asRead_of_sub? (Decimal.asRead_of_sub? hk.amount hk.fee hcorrected)
    (Decimal.asRead_of_sub? hc.amount hc.fee hrecorded) h

theorem asRead_of_sumChanges {total t : Decimal} {pairs : List (Charge × Correction)}
    (hpairs : ∀ x ∈ pairs, Unsigned x.1.amount x.1.fee ∧ Unsigned x.2.amount x.2.fee)
    (htotal : total.asRead = total) (h : sumChanges total pairs = .ok t) : t.asRead = t := by
  induction pairs generalizing total with
  | nil =>
    obtain rfl := Except.ok.inj h
    exact htotal
  | cons x pairs ih =>
    simp only [sumChanges, bind_eq_ok] at h
    obtain ⟨change, hchange, total', htotal', h⟩ := h
    have hx := hpairs x List.mem_cons_self
    have hread := asRead_of_change? hx.1 hx.2 (eq_of_checked hchange)
    exact ih (fun y hy => hpairs y (List.mem_cons_of_mem x hy))
      (Decimal.asRead_of_add? htotal hread (eq_of_checked htotal')) h

theorem ofPeriod_eq_ok {p : Period} {cs : List Charge} {ks : List Correction} {t : Totals}
    (h : ofPeriod p cs ks = .ok t) :
    sumCharges .zero .zero (cs.filter p.bills) = .ok (t.gross, t.fee) ∧
      sumChanges .zero (corrected (cs.filter p.bills) ks) = .ok t.correction ∧
      (do (← t.gross.sub? t.fee).add? t.correction) = some t.net := by
  simp only [ofPeriod, bind_eq_ok] at h
  obtain ⟨⟨g, f⟩, hcharges, k, hchanges, n, hnet, h⟩ := h
  obtain rfl := Except.ok.inj h
  exact ⟨hcharges, hchanges, eq_of_checked hnet⟩

theorem asRead_of_ofPeriod {p : Period} {cs : List Charge} {ks : List Correction} {t : Totals}
    (hcs : ∀ c ∈ cs, Unsigned c.amount c.fee) (hks : ∀ k ∈ ks, Unsigned k.amount k.fee)
    (h : ofPeriod p cs ks = .ok t) (id : String) : (t.draft id).asRead = t.draft id := by
  obtain ⟨hcharges, hchanges, hnet⟩ := ofPeriod_eq_ok h
  have hbilled : ∀ c ∈ cs.filter p.bills, Unsigned c.amount c.fee := fun c hc =>
    hcs c (List.mem_of_mem_filter hc)
  obtain ⟨hgross, hfee⟩ := asRead_of_sumCharges hbilled rfl rfl hcharges
  have hcorrection := asRead_of_sumChanges (fun x hx =>
    ⟨hbilled _ (mem_of_mem_corrected hx).1, hks _ (mem_of_mem_corrected hx).2⟩) rfl hchanges
  obtain ⟨d, hd, hsum⟩ := Option.bind_eq_some_iff.1 hnet
  have hn := Decimal.asRead_of_add? (Decimal.asRead_of_sub? hgross hfee hd) hcorrection hsum
  simp only [Settlement.asRead, draft, hgross, hfee, hcorrection, hn]

def IsCents (q : ℚ) : Prop := ∃ n : ℤ, q = n / 100

theorem IsCents.add {x y : ℚ} (hx : IsCents x) (hy : IsCents y) : IsCents (x + y) := by
  obtain ⟨m, rfl⟩ := hx
  obtain ⟨n, rfl⟩ := hy
  exact ⟨m + n, by push_cast; ring⟩

theorem IsCents.sub {x y : ℚ} (hx : IsCents x) (hy : IsCents y) : IsCents (x - y) := by
  obtain ⟨m, rfl⟩ := hx
  obtain ⟨n, rfl⟩ := hy
  exact ⟨m - n, by push_cast; ring⟩

theorem isCents_sum {α : Type} {f : α → ℚ} {xs : List α} (h : ∀ x ∈ xs, IsCents (f x)) :
    IsCents (xs.map f).sum := by
  induction xs with
  | nil => exact ⟨0, by simp⟩
  | cons x xs ih =>
    rw [List.map_cons, List.sum_cons]
    exact (h x List.mem_cons_self).add (ih fun y hy => h y (List.mem_cons_of_mem x hy))

theorem isCents_of_within {limit : ℕ} {a : Decimal} (h : a.Within limit) : IsCents a.value := by
  obtain ⟨n, hn⟩ := h.cents
  exact ⟨n, hn.value_eq⟩

theorem exists_hasCents {a : Decimal} (h : IsCents a.value) : ∃ n, a.HasCents n := by
  obtain ⟨n, hn⟩ := h
  exact ⟨n, a.hasCents_iff.2 hn⟩

theorem isCents_owed {ks : List Correction} (hks : ∀ k ∈ ks, Priced k.amount k.fee) {c : Charge}
    (hc : Priced c.amount c.fee) : IsCents (owed ks c) := by
  unfold owed
  split
  · rename_i k hk
    have hpriced := hks k (mem_of_current? hk)
    exact (isCents_of_within hpriced.amount).sub (isCents_of_within hpriced.fee)
  · exact (isCents_of_within hc.amount).sub (isCents_of_within hc.fee)

/-- Without a corrected charge nothing is owed but the charges. -/
theorem IsBill.correction_eq_zero {ks : List Correction} {p : Period} {cs : List Charge}
    {t : Totals} (h : IsBill ks p cs t) (hnone : t.corrections = 0) : t.correction.value = 0 := by
  have huncorrected : ∀ c ∈ cs, current? ks c = none := by
    rw [← UInt32.toNat_inj, h.corrections, UInt32.toNat_zero, List.length_eq_zero_iff,
      List.filter_eq_nil_iff] at hnone
    intro c hc
    have hc := hnone c hc
    rwa [← isSome_current?, Bool.not_eq_true, Option.isSome_eq_false_iff,
      Option.isNone_iff_eq_none] at hc
  have hpairs : (cs.filterMap fun c => (current? ks c).map fun k => (c, k)) = [] :=
    List.filterMap_eq_nil_iff.2 fun c hc => by rw [huncorrected c hc, Option.map_none]
  rw [h.correction, h.net, sum_owed, hpairs, h.gross, h.fee]
  simp

/-- A bill of charges that obey the rules is made as the rules for settlements ask. -/
theorem IsBill.coherent {ks : List Correction} {p : Period} {cs : List Charge} {t : Totals}
    (h : IsBill ks p cs t) (hcs : ∀ c ∈ cs, Priced c.amount c.fee)
    (hks : ∀ k ∈ ks, Priced k.amount k.fee)
    (hfees : ∀ c ∈ cs, 0 ≤ c.fee.value ∧ c.fee.value ≤ c.gross)
    (hnet : (do (← t.gross.sub? t.fee).add? t.correction) = some t.net) : t.Coherent := by
  have hgross : IsCents t.gross.value := h.gross ▸ isCents_sum fun c hc =>
    isCents_of_within (hcs c hc).amount
  have hfee : IsCents t.fee.value := h.fee ▸ isCents_sum fun c hc =>
    isCents_of_within (hcs c hc).fee
  have howed : IsCents t.net.value := h.net ▸ isCents_sum fun c hc => isCents_owed hks (hcs c hc)
  have hcorrection : IsCents t.correction.value := h.correction ▸ howed.sub (hgross.sub hfee)
  refine ⟨exists_hasCents hgross, exists_hasCents hfee, exists_hasCents hcorrection,
    exists_hasCents howed, ?_, ?_, hnet, ?_, h.correction_eq_zero⟩
  · rw [h.fee]
    refine List.sum_nonneg fun x hx => ?_
    obtain ⟨c, hc, rfl⟩ := List.mem_map.1 hx
    exact (hfees c hc).1
  · rw [h.fee, h.gross]
    exact List.sum_le_sum fun c hc => (hfees c hc).2
  · intro hzero
    rw [← UInt32.toNat_inj, h.charges, UInt32.toNat_zero, List.length_eq_zero_iff] at hzero
    rw [h.gross, hzero]
    rfl

/-- A payload is an answer with a name and the state of a draft, its members in any order. -/
def Drafts (answer : Json) (id payload : String) : Prop :=
  ∃ answered ms, answer = .object answered ∧ Json.parse? payload = some (.object ms) ∧
    ms.Perm (("settlementID", .string id) :: ("status", .string "draft") :: answered)

theorem build_without_currency {ms : Json.Members} (h : ms.lookup "currency" = none) :
    Settlement.layout.build (("currency", .string "USD") :: ms) = Settlement.layout.build ms := by
  simp [Settlement.layout, Layout.column, Functor.map, Seq.seq, Column.value, Table.lookup_row, h,
    Column.plain, Scalar.text]

/-- With the currency that stands for a missing one, a payload with the members of a bill has the
members of its draft. -/
theorem perm_write_draft {t : Totals} {id : String} {answered ms : Json.Members}
    (hanswer : t.toJson = .object answered)
    (hperm : ms.Perm (("settlementID", .string id) :: ("status", .string "draft") :: answered)) :
    (("currency", .string "USD") :: ms).Perm (Settlement.layout.write (t.draft id)) := by
  have hwrite : Settlement.layout.write (t.draft id) = ("settlementID", .string id) :: (answered ++
      [("currency", .string "USD"), ("status", .string "draft")]) := by
    rw [← Json.object.inj hanswer]
    rfl
  have hends : ([("currency", Json.string "USD"), ("status", .string "draft")] ++ answered).Perm
      (answered ++ [("currency", .string "USD"), ("status", .string "draft")]) :=
    List.perm_append_comm
  rw [hwrite]
  exact (hperm.cons _).trans ((List.Perm.swap _ _ _).trans (hends.cons _))

theorem ofPayload_draft {t : Totals} {id payload : String}
    (hread : (t.draft id).asRead = t.draft id) (hpayload : Drafts t.toJson id payload) :
    Record.ofPayload .settlement payload = .ok (.settlement (t.draft id)) := by
  obtain ⟨answered, ms, hanswer, hparse, hperm⟩ := hpayload
  have hcopy : Copy Json.canonical := .inr rfl
  have hwritten := perm_write_draft hanswer hperm
  have hnames := (hwritten.map Prod.fst).nodup_iff.2 (Settlement.faithful_layout.nodup_written _)
  obtain ⟨ms', hobject, hms⟩ := hcopy.object (List.nodup_cons.1 hnames).2
  have hcurrency : ms'.lookup "currency" = none := by
    refine Table.lookup_eq_none_of_not_mem ?_
    rw [(hms.map Prod.fst).mem_iff, List.map_map]
    exact (List.nodup_cons.1 hnames).1
  have hkind : ms'.lookup Record.docTypeName = none := by
    refine Table.lookup_eq_none_of_not_mem ?_
    rw [(hms.map Prod.fst).mem_iff, List.map_map]
    refine fun hmem => Record.docTypeName_not_mem (.settlement (t.draft id)) ?_
    exact (hwritten.map Prod.fst).mem_iff.1 (List.mem_cons_of_mem _ hmem)
  have hmembers : Settlement.layout.ofMembers ms' = .ok (t.draft id).asRead := by
    refine Settlement.faithful_layout.ofMembers_without hcopy ?_ (build_without_currency hcurrency)
    have hcanonical := hwritten.map fun m => (m.1, m.2.canonical)
    rw [List.map_cons, hcopy.string] at hcanonical
    exact (hms.cons _).trans hcanonical
  rw [Record.ofPayload, hparse]
  simp only [hobject, Record.checkDocType, hkind, Record.ofParts, Layout.ofJson, hmembers, hread]
  rfl

end Totals

namespace House

section WellKept

variable {l : Ledger} (hl : WellKept l) {scope : Scope}

include hl

theorem WellKept.asRead_stored {R : Type} [Recorded R] {a : R} (ha : a ∈ stored R l scope) :
    (Recorded.toRecord a).asRead = Recorded.toRecord a := by
  obtain ⟨row, hrow, hdecode⟩ := List.mem_filterMap.1 ha
  obtain ⟨r, hread, -, -⟩ := hl.exists_of_decodeTo hrow hdecode
  rw [← hread, Record.asRead_asRead]

theorem WellKept.unsigned_charge {c : Charge} (hc : c ∈ stored Charge l scope) :
    Totals.Unsigned c.amount c.fee := by
  have hread : c.asRead = c := Record.charge.inj (hl.asRead_stored hc)
  exact .of_asRead (congrArg Charge.amount hread) (congrArg Charge.fee hread)

theorem WellKept.unsigned_correction {k : Correction} (hk : k ∈ stored Correction l scope) :
    Totals.Unsigned k.amount k.fee := by
  have hread : k.asRead = k := Record.correction.inj (hl.asRead_stored hk)
  exact .of_asRead (congrArg Correction.amount hread) (congrArg Correction.fee hread)

theorem WellKept.fee_le_gross {c : Charge} (hc : c ∈ stored Charge l scope) :
    0 ≤ c.fee.value ∧ c.fee.value ≤ c.gross := by
  have hvalid := Record.validate_eq_ok.1 (hl.validate_stored hc)
  obtain ⟨a, ha⟩ : ∃ a, c.amount = some a := by
    have hrequired := hvalid .required
    simp only [Record.check, Charge.check, bind_eq_ok, Recorded.toRecord] at hrequired
    obtain ⟨_, -, _, -, _, -, _, -, _, -, _, -, _, -, _, hamount, -⟩ := hrequired
    exact Option.isSome_iff_exists.1 (Rule.requireSome_eq_ok.1 hamount)
  have hsign : Rule.money "fee" c.fee = .ok () := by
    have hranges := hvalid .ranges
    simp only [Record.check, Charge.check, bind_eq_ok, Recorded.toRecord] at hranges
    obtain ⟨_, -, _, -, _, -, _, -, _, -, hfee⟩ := hranges
    exact hfee
  have hbound : Rule.notAbove "fee" c.fee "amount" c.amount = .ok () := by
    have hcross := hvalid .crossMember
    simp only [Record.check, Charge.check, bind_eq_ok, Recorded.toRecord] at hcross
    obtain ⟨_, -, _, hbound, -⟩ := hcross
    exact hbound
  constructor
  · simp only [Rule.money, bind_eq_ok] at hsign
    obtain ⟨_, hsign, -⟩ := hsign
    exact c.fee.units_nonneg_iff.1 (of_decide_eq_true (Rule.ensure_eq_ok.1 hsign))
  · rw [ha, Rule.notAbove, Rule.ensure_eq_ok, decide_eq_true_eq] at hbound
    rw [Charge.gross, ha]
    exact (c.fee.le_iff_value a).1 hbound

theorem WellKept.ofPeriod_of_total {P : Period} {t : Totals}
    (h : total l P = .ok (.totalled t)) :
    Totals.ofPeriod P (stored Charge l P.scope) (stored Correction l P.scope) = .ok t := by
  obtain ⟨hcharges, hcorrections⟩ := hl.recordsIn_period P
  rw [Period.scope] at hcharges hcorrections
  simp only [total, bind_eq_ok] at h
  obtain ⟨_, -, _, -, cs, hcs, ks, hks, h⟩ := h
  obtain rfl := Except.ok.inj (hcharges.symm.trans hcs)
  obtain rfl := Except.ok.inj (hcorrections.symm.trans hks)
  split at h
  · rename_i t' ht'
    rwa [← Outcome.totalled.inj (Except.ok.inj h)]
  · cases h

theorem WellKept.coherent_of_total {P : Period} {t : Totals}
    (h : total l P = .ok (.totalled t)) (hbill : BillOf l P t) :
    t.Coherent ∧ ∀ id, (t.draft id).asRead = t.draft id := by
  have hsums := hl.ofPeriod_of_total h
  have hstored : ∀ c ∈ (stored Charge l P.scope).filter P.Covers, c ∈ stored Charge l P.scope :=
    fun c hc => List.mem_of_mem_filter hc
  exact ⟨hbill.coherent (fun c hc => hl.priced_charge (hstored c hc))
      (fun k hk => hl.priced_correction hk)
      (fun c hc => hl.fee_le_gross (hstored c hc)) (Totals.ofPeriod_eq_ok hsums).2.2,
    Totals.asRead_of_ofPeriod (fun c hc => hl.unsigned_charge hc)
      (fun k hk => hl.unsigned_correction hk) hsums⟩

theorem WellKept.identifier_of_holdsAgency {id : String} (h : HoldsAgency l id) :
    id ≠ "" ∧ Rule.identifier "agencyID" id = .ok () := by
  obtain ⟨a, ha, rfl⟩ := h
  obtain ⟨r, -, hread, -, horder⟩ := hl.exists_of_recordAt? ha
  have hvalid := Record.validate_asRead horder.validate
  rw [hread] at hvalid
  have hrequired := Record.validate_eq_ok.1 hvalid .required
  have hranges := Record.validate_eq_ok.1 hvalid .ranges
  simp only [Record.check, Agency.check, bind_eq_ok] at hrequired hranges
  obtain ⟨_, htold, -⟩ := hrequired
  obtain ⟨_, hid, -⟩ := hranges
  refine ⟨fun hempty => ?_, hid⟩
  rw [hempty] at htold
  cases htold

end WellKept

structure Bears (s : Settlement) (t : Totals) : Prop where
  payor : s.payor = t.payor
  payee : s.payee = t.payee
  start : s.start = some t.start
  stop : s.stop = some t.stop
  charges : s.charges = t.charges
  corrections : s.corrections = t.corrections
  gross : s.gross = t.gross
  fee : s.fee = t.fee
  correction : s.correction = t.correction
  net : s.net = t.net

theorem bears_stamped (t : Totals) (id : String) (now : Instant) :
    Bears { t.draft id with createdAt := now, updatedAt := now } t :=
  ⟨rfl, rfl, rfl, rfl, rfl, rfl, rfl, rfl, rfl, rfl⟩

/-- A draft of totals is stored, or turned down for an amount that is too large. -/
theorem WellKept.create_draft {l : Ledger} (hl : WellKept l) {t : Totals} (h : t.Coherent)
    {id : String} (hid : t.Addressed id) (hpayor : HoldsAgency l t.payor)
    (hpayee : HoldsAgency l t.payee)
    (hfree : l.find? (Record.settlement (t.draft id)).slot = none) (p : Policy) (now : Instant) :
    (t.Recordable → create p now l (.settlement (t.draft id))
        = .ok (.stored (Record.settlement (t.draft id)).slot
          ((Record.settlement (t.draft id)).stampCreated now))) ∧
      (¬ t.Recordable → ∃ member ∈ ["grossAmount", "correctionAmount", "netAmount"], ∃ reason,
        create p now l (.settlement (t.draft id))
          = .error (.rejected (.rejected member reason))) := by
  obtain ⟨hvalid, hinvalid⟩ := h.validate_draft hid
  constructor
  · intro hsmall
    have hreferences : checkReferences p l (.settlement (t.draft id)) = .ok () := by
      have hpayor' : requireAgency p l (t.draft id).payor = .ok () :=
        hl.requireAgency_of_holds hpayor
      have hpayee' : requireAgency p l (t.draft id).payee = .ok () :=
        hl.requireAgency_of_holds hpayee
      simp only [checkReferences, hpayor', hpayee', bind, Except.bind]
    exact create_eq_ok_iff.2 ⟨hvalid hsmall, rfl, hreferences, now, .free hfree, rfl⟩
  · intro hlarge
    obtain ⟨member, hmember, hviolation⟩ := hinvalid hlarge
    refine ⟨member, hmember, .tooLarge Rule.maxMoney, ?_⟩
    simp only [create, hviolation, accepted, bind, Except.bind]

/-- After every run the bill of a period between two agencies that are known can be recorded under
any name that is free. -/
theorem bills_recorded {allowed : Policy → Prop} {l : Ledger} (hl : Reachable allowed l)
    {P : Period} (hpayor : HoldsAgency l P.payor) (hpayee : HoldsAgency l P.payee)
    (hparties : P.payor ≠ P.payee) (hperiod : P.start < P.stop)
    (hfew : (stored Charge l P.scope).length < 2 ^ 32) {id : String} (htold : id ≠ "")
    (hid : Rule.identifier "settlementID" id = .ok ())
    (hfree : l.find? (Function.settlementSlot P.payor P.payee (Key.settlement id)) = none)
    (q : Policy) : ∃ t : Totals,
      (∀ c : Call, c.AsksFor P → c.outcome q l = .ok (.totalled t)) ∧
        ∀ (now : Instant) (payload : String),
          Totals.Drafts (Outcome.totalled t).toJson id payload →
            let c : Call := ⟨now, "CreateSettlement", [payload]⟩
            ((∃ o, c.outcome q l = .ok o) ↔ t.Recordable) ∧
              (∀ o, c.outcome q l = .ok o → ∃ s : Settlement, s.id = id ∧ Bears s t ∧
                recordAt? (c.step q l)
                    (Function.settlementSlot P.payor P.payee (Key.settlement id))
                  = some (.settlement s)) ∧
              ∀ fault, c.outcome q l = .error fault → c.step q l = l ∧
                fault.kind = "ValidationError" ∧
                  ∃ member ∈ ["grossAmount", "correctionAmount", "netAmount"], ∃ reason,
                    fault = .rejected (.rejected member reason) := by
  have hkept := hl.wellKept
  obtain ⟨t, ht, hbill⟩ := hkept.total_eq hparties hperiod hfew
  obtain ⟨hcoherent, hread⟩ := hkept.coherent_of_total ht hbill
  obtain ⟨hpayorTold, hpayorName⟩ := hkept.identifier_of_holdsAgency hpayor
  obtain ⟨hpayeeTold, hpayeeName⟩ := hkept.identifier_of_holdsAgency hpayee
  rw [← hbill.payor] at hpayor hpayorTold hpayorName hparties hfree
  rw [← hbill.payee] at hpayee hpayeeTold hpayeeName hparties hfree
  rw [← hbill.start, ← hbill.stop] at hperiod
  have haddressed : t.Addressed id := by
    refine ⟨?_, ?_, hparties, hperiod⟩
    · simpa using ⟨htold, hpayorTold, hpayeeTold⟩
    · simpa using ⟨⟨_, hid⟩, ⟨_, hpayorName⟩, ⟨_, hpayeeName⟩⟩
  refine ⟨t, fun c hc => (hc.outcome_eq q l).trans ht, fun now payload hpayload => ?_⟩
  have houtcome : (Call.mk now "CreateSettlement" [payload]).outcome q l
      = create q now l (.settlement (t.draft id)) :=
    Call.outcome_create rfl (Totals.ofPayload_draft (hread id) hpayload)
  obtain ⟨hstored, hrefused⟩ := hkept.create_draft hcoherent haddressed hpayor hpayee hfree q now
  rw [← hbill.payor, ← hbill.payee]
  by_cases hsmall : t.Recordable
  · have hok := houtcome.trans (hstored hsmall)
    refine ⟨⟨fun _ => hsmall, fun _ => ⟨_, hok⟩⟩, fun o _ => ?_, fun fault hfault => ?_⟩
    · refine ⟨{ t.draft id with createdAt := now, updatedAt := now }, rfl,
        bears_stamped t id now, ?_⟩
      rw [Call.step_of_ok hok, Outcome.apply]
      have hstamped := congrArg (Record.stampCreated now) (congrArg Record.settlement (hread id))
      exact (recordAt?_write l _ _).trans (congrArg some hstamped)
    · cases hok.symm.trans hfault
  · obtain ⟨member, hmember, reason, hfault⟩ := hrefused hsmall
    have herror := houtcome.trans hfault
    refine ⟨⟨?_, fun h => absurd h hsmall⟩, fun o ho => ?_, fun fault hfault => ?_⟩
    · rintro ⟨o, ho⟩
      cases herror.symm.trans ho
    · cases herror.symm.trans ho
    · obtain rfl := Except.error.inj (herror.symm.trans hfault)
      exact ⟨Call.step_of_error herror, rfl, member, hmember, reason, rfl⟩

def billedCalls : List Call := chargedCalls ++ [postToll]

section Billed

variable (p : Policy)

theorem run_billedCalls : run p billedCalls
    = (run p chargedCalls).write pendingToll.slot (Record.charge postedToll).encode := by
  have hpending : (run p chargedCalls).find? pendingToll.slot = some pendingToll.encode := by
    rw [run_chargedCalls]
    exact Ledger.find?_write _ _ _
  rw [billedCalls, run_snoc, Call.step_of_ok (outcome_postToll hpending), Outcome.apply]

theorem rows_billedCalls : ((run p billedCalls).table tollPeriod.scope).rows
    = [(pendingToll.key, (Record.charge postedToll).encode)] := by
  rw [run_billedCalls, Ledger.table_write, run_chargedCalls, Ledger.table_write, run_knownCalls,
    Ledger.table_write, run_firstAgency, Ledger.table_write]
  rfl

theorem holdsAgency_billedCalls :
    HoldsAgency (run p billedCalls) "A" ∧ HoldsAgency (run p billedCalls) "B" := by
  have hstep : ∀ {id}, HoldsAgency (run p knownCalls) id → HoldsAgency (run p billedCalls) id := by
    intro id h
    rw [billedCalls, chargedCalls, run_snoc, run_snoc]
    have hkept := wellKept_run p knownCalls
    exact (hkept.step _).holdsAgency_step (hkept.holdsAgency_step h _) _
  exact ⟨hstep (holdsAgency_knownCalls p).1, hstep (holdsAgency_knownCalls p).2⟩

theorem free_billedCalls : (run p billedCalls).find?
    (Function.settlementSlot "A" "B" (Key.settlement "S1")) = none := by
  rw [run_billedCalls, Ledger.find?_write_of_ne (by decide), run_chargedCalls,
    Ledger.find?_write_of_ne (by decide), run_knownCalls, Ledger.find?_write_of_ne (by decide),
    run_firstAgency, Ledger.find?_write_of_ne (by decide)]
  rfl

end Billed

theorem bills_recorded_billedCalls :
    let l := run Policy.standard billedCalls
    ∃ (payload : String) (s : Settlement), recordAt?
      ((Call.mk signedTime "CreateSettlement" [payload]).step Policy.standard l)
      (Function.settlementSlot "A" "B" (Key.settlement "S1")) = some (.settlement s) ∧
      s.id = "S1" ∧ s.charges = 1 ∧ s.net.value = 47 / 10 := by
  intro l
  have hrows := rows_billedCalls Policy.standard
  have hcharges : stored Charge l tollPeriod.scope = [postedToll] :=
    stored_of_rows [.charge postedToll] hrows
  have hcorrections : stored Correction l tollPeriod.scope = [] :=
    stored_of_rows [.charge postedToll] hrows
  have hfew : (stored Charge l tollPeriod.scope).length < 2 ^ 32 := by
    rw [hcharges]
    decide
  obtain ⟨hA, hB⟩ := holdsAgency_billedCalls Policy.standard
  obtain ⟨t, hanswer, hrecord⟩ := bills_recorded (reachable_run Policy.standard billedCalls)
    (P := tollPeriod) hA hB (by decide) (by decide) hfew (by decide) rfl
    (free_billedCalls Policy.standard) Policy.standard
  obtain ⟨t', ht', hbill⟩ := (wellKept_run Policy.standard billedCalls).total_eq
    (P := tollPeriod) (by decide) (by decide) hfew
  have hasked := hanswer tollTotals tollTotals_asksFor
  rw [tollTotals_asksFor.outcome_eq, ht'] at hasked
  obtain rfl := Outcome.totalled.inj (Except.ok.inj hasked)
  obtain ⟨hcount, hcorrected, hgross, hcorrection, hnet⟩ := billOf_toll hcharges hcorrections hbill
  obtain ⟨answered, hanswered⟩ : ∃ answered, t'.toJson = .object answered := ⟨_, rfl⟩
  have hshallow : (Json.object (("settlementID", .string "S1") :: ("status", .string "draft") ::
      answered)).Shallow Json.maxDepth := by
    have hcharge : (Json.Number.whole t'.charges.toNat).Exact :=
      Json.Number.exact_natCast (by rw [hcount]; decide)
    have hnone : (Json.Number.whole t'.corrections.toNat).Exact :=
      Json.Number.exact_natCast (by rw [hcorrected]; decide)
    obtain rfl := Json.object.inj hanswered
    intro m hm
    simp only [List.mem_cons, List.not_mem_nil, or_false] at hm
    rcases hm with rfl | rfl | rfl | rfl | rfl | rfl | rfl | rfl | rfl | rfl | rfl | rfl <;>
      simp [hcharge, hnone]
  obtain ⟨hstored, hbears, -⟩ := hrecord signedTime _
    ⟨answered, _, hanswered, Json.parse?_compact hshallow, .refl _⟩
  have hsmall : t'.Recordable := by
    refine ⟨?_, ?_, ?_⟩
    · rw [hgross]
      norm_num
    · rw [hcorrection]
      norm_num
    · rw [hnet]
      norm_num
  obtain ⟨o, ho⟩ := hstored.2 hsmall
  obtain ⟨s, hid, hs, hkept⟩ := hbears o ho
  exact ⟨_, s, hkept, hid, hs.charges.trans hcount, hs.net ▸ hnet⟩

end House

end TollClearing
