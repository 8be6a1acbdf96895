import TollClearing.Proofs.Totals

/-!
Totals of any charges and corrections. Where both obey the rules and none stands in its list twice
the totals exist, are exact and do not depend on the order of the lists (`ofPeriod_tally`). Of any
lists whatever the totals exist or one of them does not fit. Corrections can also be gathered in one
pass over their list (`gather`), and then the charge of each one that is kept is found.
-/

set_option autoImplicit false

namespace TollClearing

namespace Totals

section Gather

/-- Takes up one more correction. It is kept if its charge is one of `charges` and no correction
with a number as great is kept for it. -/
def take (charges : Table Charge) (kept : Table Correction) (k : Correction) : Table Correction :=
  if (charges.find? k.charge).isSome then
    match later (kept.find? k.charge) k with
    | some best => kept.insert k.charge best
    | none => kept
  else kept

def gather (charges : Table Charge) (ks : List Correction) : Table Correction :=
  ks.foldl (take charges) .empty

def byName (cs : List Charge) : Table Charge := .ofList (cs.map fun c => (c.id, c))

variable {charges : Table Charge} {kept : Table Correction} {k : Correction} {id : String}

theorem exists_later (best : Option Correction) (k : Correction) :
    ∃ b, later best k = some b := by
  unfold later
  split
  · exact ⟨_, rfl⟩
  · split <;> exact ⟨_, rfl⟩

theorem find?_take : (take charges kept k).find? id =
    if (charges.find? id).isSome ∧ k.charge = id then later (kept.find? id) k
    else kept.find? id := by
  by_cases hcharge : k.charge = id
  · subst hcharge
    by_cases hknown : (charges.find? k.charge).isSome
    · obtain ⟨b, hb⟩ := exists_later (kept.find? k.charge) k
      simp [take, hknown, hb, Table.find?_insert]
    · simp [take, hknown]
  · have hother : id ≠ k.charge := fun e => hcharge e.symm
    unfold take
    split
    · split <;> simp [Table.find?_insert, hother, hcharge]
    · simp [hcharge]

theorem find?_foldl_take (ks : List Correction) (kept : Table Correction) :
    (ks.foldl (take charges) kept).find? id =
      if (charges.find? id).isSome then (ks.filter (·.charge = id)).foldl later (kept.find? id)
      else kept.find? id := by
  induction ks generalizing kept with
  | nil => simp
  | cons k ks ih =>
    rw [List.foldl_cons, ih, find?_take, List.filter_cons]
    by_cases hknown : (charges.find? id).isSome <;> by_cases hcharge : k.charge = id <;>
      simp [hknown, hcharge]

theorem find?_gather (ks : List Correction) : (gather charges ks).find? id =
    if (charges.find? id).isSome then latest? id ks else none := by
  rw [gather, find?_foldl_take]
  rfl

theorem rows_gather (charges : Table Charge) (ks : List Correction) : (gather charges ks).rows
    = charges.rows.filterMap fun row => (latest? row.1 ks).map fun k => (row.1, k) := by
  refine Table.rows_eq ?_ fun name k => ?_
  · rw [List.pairwise_filterMap]
    refine charges.ascending.imp fun hlt => ?_
    simp only [Option.map_eq_some_iff]
    rintro _ ⟨_, -, rfl⟩ _ ⟨_, -, rfl⟩
    exact hlt
  · simp only [find?_gather, List.mem_filterMap, Option.map_eq_some_iff, Prod.mk.injEq]
    constructor
    · intro h
      split at h
      · rename_i hknown
        obtain ⟨c, hc⟩ := Option.isSome_iff_exists.1 hknown
        exact ⟨(name, c), Table.find?_eq_some_iff.1 hc, k, h, rfl, rfl⟩
      · cases h
    · rintro ⟨row, hrow, k', hlatest, rfl, rfl⟩
      have hfind := Table.find?_eq_some_iff.2 hrow
      rw [hfind, Option.isSome_some, if_pos rfl, hlatest]

/-- The charge of every correction that is kept is found, and with it makes one of the pairs that
are summed up. -/
theorem mapM_gather (cs : List Charge) (ks : List Correction) :
    ((gather (byName cs) ks).rows.mapM fun row =>
        ((byName cs).find? row.1).map fun c => (c, row.2)) = some (corrected cs ks) := by
  rw [rows_gather, mapM_eq_some, corrected]
  have hrows : ∀ row ∈ (byName cs).rows, (byName cs).find? row.1 = some row.2 := fun row hrow =>
    Table.find?_eq_some_iff.2 hrow
  change List.Forall₂ _ _ ((byName cs).rows.filterMap _)
  generalize (byName cs).find? = find at hrows ⊢
  generalize (byName cs).rows = rows at hrows ⊢
  induction rows with
  | nil => exact .nil
  | cons row rows ih =>
    rw [List.forall_mem_cons] at hrows
    obtain ⟨hrow, hrows⟩ := hrows
    cases hlatest : latest? row.1 ks with
    | none => simpa [hlatest] using ih hrows
    | some k => simpa [hlatest, hrow] using ih hrows

end Gather

section Overflow

variable {v : Violation}

def amountMembers : List String := ["grossAmount", "feeAmount", "correctionAmount", "netAmount"]

def Overflows (v : Violation) : Prop :=
  ∃ member ∈ amountMembers, v = .rejected member .unrepresentable

theorem overflows_of_checked {member : String} {sum : Option Decimal}
    (hmember : member ∈ amountMembers) (h : checked member sum = .error v) : Overflows v := by
  cases sum with
  | none => exact ⟨member, hmember, (Except.error.inj h).symm⟩
  | some a => cases h

theorem overflows_of_sumCharges {gross fee : Decimal} {cs : List Charge}
    (h : sumCharges gross fee cs = .error v) : Overflows v := by
  induction cs generalizing gross fee with
  | nil => cases h
  | cons c cs ih =>
    simp only [sumCharges, bind_eq_error] at h
    rcases h with hgross | ⟨_, -, hfee | ⟨_, -, hrest⟩⟩
    · exact overflows_of_checked (by simp [amountMembers]) hgross
    · exact overflows_of_checked (by simp [amountMembers]) hfee
    · exact ih hrest

theorem overflows_of_sumChanges {total : Decimal} {pairs : List (Charge × Correction)}
    (h : sumChanges total pairs = .error v) : Overflows v := by
  induction pairs generalizing total with
  | nil => cases h
  | cons x pairs ih =>
    simp only [sumChanges, bind_eq_error] at h
    rcases h with hchange | ⟨_, -, htotal | ⟨_, -, hrest⟩⟩
    · exact overflows_of_checked (by simp [amountMembers]) hchange
    · exact overflows_of_checked (by simp [amountMembers]) htotal
    · exact ih hrest

variable {p : Period} {cs : List Charge} {ks : List Correction}

theorem overflows_of_ofPeriod (h : ofPeriod p cs ks = .error v) : Overflows v := by
  simp only [ofPeriod, bind_eq_error] at h
  rcases h with hcharges | ⟨_, -, hchanges | ⟨_, -, hnet | ⟨_, -, hrest⟩⟩⟩
  · exact overflows_of_sumCharges hcharges
  · exact overflows_of_sumChanges hchanges
  · exact overflows_of_checked (by simp [amountMembers]) hnet
  · cases hrest

theorem length_corrected_le (cs : List Charge) (ks : List Correction) :
    (corrected cs ks).length ≤ cs.length := by
  calc (corrected cs ks).length
      ≤ (byName cs).rows.length := List.length_filterMap_le _ _
    _ ≤ (cs.map fun c => (c.id, c)).length := Table.length_rows_ofList_le _
    _ = cs.length := List.length_map _

/-- The counters of few enough charges do not run full. -/
theorem counts_of_ofPeriod (hfew : cs.length < 2 ^ 32) {t : Totals} (h : ofPeriod p cs ks = .ok t) :
    t.charges.toNat = (cs.filter p.bills).length ∧
      t.corrections.toNat = (corrected (cs.filter p.bills) ks).length := by
  simp only [ofPeriod, bind_eq_ok] at h
  obtain ⟨_, -, _, -, _, -, h⟩ := h
  obtain rfl := Except.ok.inj h
  have hfewer : (cs.filter p.bills).length < 2 ^ 32 := (List.length_filter_le _ _).trans_lt hfew
  exact ⟨UInt32.toNat_ofNat_of_lt' hfewer,
    UInt32.toNat_ofNat_of_lt' ((length_corrected_le _ ks).trans_lt hfewer)⟩

end Overflow

structure IsLatest (ks : List Correction) (c : Charge) (k : Correction) : Prop where
  mem : k ∈ ks
  charge : k.charge = c.id
  greatest : ∀ other ∈ ks, other.charge = c.id → other.number ≤ k.number

/-- What the latest correction of each charge changes in the net amount of the charge. -/
def changes (ks : List Correction) (cs : List Charge) : List ℚ :=
  cs.filterMap fun c => (current? ks c).map fun k => k.net - c.net

/-- Totals are the counts and the exact sums for charges with their corrections. -/
structure IsTally (p : Period) (cs : List Charge) (ks : List Correction) (t : Totals) : Prop where
  payor : t.payor = p.payor
  payee : t.payee = p.payee
  start : t.start = p.start
  stop : t.stop = p.stop
  charges : t.charges.toNat = cs.length
  corrections : t.corrections.toNat = (changes ks cs).length
  gross : t.gross.value = (cs.map Charge.gross).sum
  fee : t.fee.value = (cs.map fun c => c.fee.value).sum
  correction : t.correction.value = (changes ks cs).sum
  net : t.net.value = t.gross.value - t.fee.value + t.correction.value

/-- Two totals of the same numbers, whatever the scales of their amounts. -/
structure SameFigures (t u : Totals) : Prop where
  payor : t.payor = u.payor
  payee : t.payee = u.payee
  start : t.start = u.start
  stop : t.stop = u.stop
  charges : t.charges = u.charges
  corrections : t.corrections = u.corrections
  gross : t.gross.value = u.gross.value
  fee : t.fee.value = u.fee.value
  correction : t.correction.value = u.correction.value
  net : t.net.value = u.net.value

section Tally

variable {p : Period} {cs cs' : List Charge} {ks ks' : List Correction} {t t' : Totals}

theorem IsBill.isTally (h : IsBill ks p cs t) : IsTally p cs ks t := by
  have hchanges : changes ks cs = (cs.filterMap fun c => (current? ks c).map fun k => (c, k)).map
      fun x => x.2.net - x.1.net := by
    rw [List.map_filterMap]
    simp only [Option.map_map]
    rfl
  refine ⟨h.payor, h.payee, h.start, h.stop, h.charges, ?_, h.gross, h.fee, ?_, ?_⟩
  · rw [h.corrections, changes, List.length_filterMap_eq_countP, List.countP_eq_length_filter]
    simp only [Option.isSome_map, isSome_current?]
  · rw [h.correction, h.net, sum_owed, h.gross, h.fee, hchanges]
    ring
  · rw [h.correction]
    ring

theorem current?_eq_some_iff (hks : (ks.map fun k => (k.charge, k.number)).Nodup) {c : Charge}
    {k : Correction} : current? ks c = some k ↔ IsLatest ks c k := by
  have hmem : ∀ other, other ∈ ks.filter (·.charge = c.id) ↔ other ∈ ks ∧ other.charge = c.id := by
    simp [List.mem_filter]
  have hsound : ∀ {k}, current? ks c = some k → IsLatest ks c k := by
    intro k hk
    obtain ⟨hin, hcharge⟩ := (hmem k).1 (List.argmax_mem hk)
    refine ⟨hin, hcharge, fun other hother hsame => ?_⟩
    have hle : other.number.toNat ≤ k.number.toNat :=
      List.le_of_mem_argmax (f := fun k : Correction => k.number.toNat)
        ((hmem other).2 ⟨hother, hsame⟩) hk
    exact UInt32.le_iff_toNat_le.2 hle
  refine ⟨hsound, fun h => ?_⟩
  have hsome : (current? ks c).isSome := by
    rw [isSome_current?, decide_eq_true_eq]
    exact ⟨k, h.mem, h.charge⟩
  obtain ⟨best, hbest⟩ := Option.isSome_iff_exists.1 hsome
  have hlatest := hsound hbest
  -- two corrections with the greatest number have one number, and so are one
  have hnumber : best.number = k.number := UInt32.le_antisymm
    (h.greatest best hlatest.mem hlatest.charge) (hlatest.greatest k h.mem h.charge)
  have hsame : best = k := List.inj_on_of_nodup_map hks hlatest.mem h.mem
    (Prod.ext (hlatest.charge.trans h.charge.symm) hnumber)
  rw [hbest, hsame]

theorem current?_eq_of_perm (hks : (ks.map fun k => (k.charge, k.number)).Nodup)
    (hperm : ks'.Perm ks) (c : Charge) : current? ks' c = current? ks c := by
  have hks' := (hperm.map fun k => (k.charge, k.number)).nodup_iff.2 hks
  apply Option.ext
  intro k
  rw [current?_eq_some_iff hks, current?_eq_some_iff hks']
  have hmem : ∀ other, other ∈ ks' ↔ other ∈ ks := fun _ => hperm.mem_iff
  constructor
  · rintro ⟨hin, hcharge, hgreatest⟩
    exact ⟨(hmem k).1 hin, hcharge, fun other hother => hgreatest other ((hmem other).2 hother)⟩
  · rintro ⟨hin, hcharge, hgreatest⟩
    exact ⟨(hmem k).2 hin, hcharge, fun other hother => hgreatest other ((hmem other).1 hother)⟩

theorem IsTally.sameFigures (h : IsTally p cs ks t) (h' : IsTally p cs' ks' t')
    (hks : (ks.map fun k => (k.charge, k.number)).Nodup) (hcharges : cs'.Perm cs)
    (hcorrections : ks'.Perm ks) : t'.SameFigures t := by
  have hchanges : (changes ks' cs').Perm (changes ks cs) := by
    have hcurrent : changes ks' cs' = changes ks cs' :=
      List.filterMap_congr fun c _ => by rw [current?_eq_of_perm hks hcorrections]
    rw [hcurrent]
    exact hcharges.filterMap _
  have hgross : t'.gross.value = t.gross.value := by
    rw [h'.gross, h.gross, (hcharges.map _).sum_eq]
  have hfee : t'.fee.value = t.fee.value := by rw [h'.fee, h.fee, (hcharges.map _).sum_eq]
  have hcorrection : t'.correction.value = t.correction.value := by
    rw [h'.correction, h.correction, hchanges.sum_eq]
  refine ⟨h'.payor.trans h.payor.symm, h'.payee.trans h.payee.symm, h'.start.trans h.start.symm,
    h'.stop.trans h.stop.symm, ?_, ?_, hgross, hfee, hcorrection, ?_⟩
  · rw [← UInt32.toNat_inj, h'.charges, h.charges, hcharges.length_eq]
  · rw [← UInt32.toNat_inj, h'.corrections, h.corrections, hchanges.length_eq]
  · rw [h'.net, h.net, hgross, hfee, hcorrection]

end Tally

end Totals

theorem Charge.priced_of_validate {c : Charge} (h : (Record.charge c).validate = .ok ()) :
    Priced c.amount c.fee := priced_of_check (Record.validate_eq_ok.1 h .ranges)

theorem Correction.priced_of_validate {k : Correction}
    (h : (Record.correction k).validate = .ok ()) : Priced k.amount k.fee :=
  priced_of_check (Record.validate_eq_ok.1 h .ranges)

namespace Totals

/-- The totals of any charges, fewer than a counter of 32 bits counts, and of any corrections exist
or one of their amounts does not fit; no counter runs full, and no charge is missing that has been
corrected. If all of them obey the rules and none stands in its list twice, then the totals exist,
are exact and stay the same in any other order. -/
theorem ofPeriod_tally (p : Period) (cs : List Charge) (ks : List Correction)
    (hfew : cs.length < 2 ^ 32) :
    let billed := cs.filter p.bills
    (∀ v, ofPeriod p cs ks = .error v → Overflows v) ∧
      (∀ t, ofPeriod p cs ks = .ok t → t.corrections ≤ t.charges ∧
        t.charges.toNat = billed.length ∧ t.corrections.toNat = (corrected billed ks).length) ∧
      ((gather (byName billed) ks).rows.mapM fun row =>
        ((byName billed).find? row.1).map fun c => (c, row.2)) = some (corrected billed ks) ∧
      ((∀ c ∈ cs, (Record.charge c).validate = .ok ()) →
        (∀ k ∈ ks, (Record.correction k).validate = .ok ()) →
        (cs.map Charge.id).Nodup → (ks.map fun k => (k.charge, k.number)).Nodup →
          (∀ c k, current? ks c = some k ↔ IsLatest ks c k) ∧
          ∃ t, ofPeriod p cs ks = .ok t ∧ IsTally p (cs.filter p.Covers) ks t ∧
            ∀ cs' ks', cs'.Perm cs → ks'.Perm ks →
              ∃ t', ofPeriod p cs' ks' = .ok t' ∧ t'.SameFigures t) := by
  intro billed
  refine ⟨fun v => overflows_of_ofPeriod, fun t ht => ?_, mapM_gather billed ks,
    fun hcs hks hids hnumbers => ?_⟩
  · obtain ⟨hcharges, hcorrections⟩ := counts_of_ofPeriod hfew ht
    refine ⟨UInt32.le_iff_toNat_le.2 ?_, hcharges, hcorrections⟩
    rw [hcharges, hcorrections]
    exact length_corrected_le billed ks
  · have htally : ∀ cs' ks', cs'.Perm cs → ks'.Perm ks →
        ∃ t, ofPeriod p cs' ks' = .ok t ∧ IsTally p (cs'.filter p.Covers) ks' t := by
      intro cs' ks' hcharges hcorrections
      obtain ⟨t, ht, hbill⟩ := ofPeriod_eq (p := p)
        (fun c hc => Charge.priced_of_validate (hcs c (hcharges.mem_iff.1 hc)))
        (fun k hk => Correction.priced_of_validate (hks k (hcorrections.mem_iff.1 hk)))
        ((hcharges.map Charge.id).nodup_iff.2 hids) (hcharges.length_eq ▸ hfew)
      exact ⟨t, ht, hbill.isTally⟩
    obtain ⟨t, ht, hexact⟩ := htally cs ks (.refl cs) (.refl ks)
    refine ⟨fun c k => current?_eq_some_iff hnumbers, t, ht, hexact,
      fun cs' ks' hcharges hcorrections => ?_⟩
    obtain ⟨t', ht', hexact'⟩ := htally cs' ks' hcharges hcorrections
    exact ⟨t', ht', hexact.sameFigures hexact' hnumbers (hcharges.filter _) hcorrections⟩

def passPeriod : Period := ⟨"A", "B", ⟨2024, 5, 1, by decide⟩, ⟨2024, 6, 1, by decide⟩⟩

def pass : Charge where
  id := "C1"
  code := "TB01"
  away := "B"
  home := "A"
  tagSerial := "1"
  tagAgency := "A"
  plate := none
  facility := "F"
  entryPlaza := ""
  entryTime := none
  exitPlaza := "P"
  exitLane := ""
  exitTime := Instant.ofParts? passPeriod.start 0 0
  vehicleClass := 2
  amount := some (.amount 10 0)
  fee := .amount 5000000000000000000000000000 28
  discountPlan := ""
  status := some .posted
  createdAt := none
  updatedAt := none

def repriced (number : UInt32) (amount : Decimal) : Correction where
  charge := "C1"
  number := number
  away := "B"
  home := "A"
  code := "TB01A"
  reason := "I"
  detail := ""
  vehicleClass := 2
  amount := some amount
  fee := .zero
  createdAt := none
  updatedAt := none

def firstPrice : Correction := repriced 1 (.amount 95 1)

def secondPrice : Correction := repriced 2 (.amount 850 2)

theorem ofPeriod_tally_repriced :
    ∃ t, ofPeriod passPeriod [pass] [secondPrice, firstPrice] = .ok t ∧
      t.correction.value = -1 ∧
      ∃ t', ofPeriod passPeriod [pass] [firstPrice, secondPrice] = .ok t' ∧ t'.SameFigures t := by
  obtain ⟨-, -, -, hrules⟩ :=
    ofPeriod_tally passPeriod [pass] [secondPrice, firstPrice] (by decide)
  have hpass : (Record.charge pass).validate = .ok () := by decide +kernel
  have hfirst : (Record.correction firstPrice).validate = .ok () := by decide +kernel
  have hsecond : (Record.correction secondPrice).validate = .ok () := by decide +kernel
  obtain ⟨hlatest, t, ht, htally, hperm⟩ :=
    hrules (by simp [hpass]) (by simp [hfirst, hsecond]) (by decide) (by decide)
  have hcurrent : current? [secondPrice, firstPrice] pass = some secondPrice :=
    (hlatest _ _).2 ⟨by simp, rfl, by decide⟩
  have hcovers : [pass].filter passPeriod.Covers = [pass] := by decide +kernel
  refine ⟨t, ht, ?_, hperm _ _ (.refl _) (.swap _ _ _)⟩
  rw [htally.correction, hcovers, changes]
  simp only [List.filterMap_cons, List.filterMap_nil, hcurrent, Option.map_some]
  norm_num [Correction.net, Charge.net, Charge.gross, secondPrice, repriced, pass,
    Decimal.value_amount 850 2 (by decide) (by decide),
    Decimal.value_amount 10 0 (by decide) (by decide),
    Decimal.value_amount 5000000000000000000000000000 28 (by decide) (by decide), tenTo]

end Totals

end TollClearing
