import TollClearing.Proofs.House.ReadBack
import TollClearing.Proofs.Record.Selection
import TollClearing.Proofs.Totals

/-!
The bill that the clearing house answers is the exact bill of what the ledger holds after a run,
whatever the limit on lists.
-/

set_option autoImplicit false

namespace TollClearing

def Period.scope (P : Period) : Scope := .partition (Key.chargePartition P.payee P.payor)

theorem Period.checkScope_scope (P : Period) : Ledger.checkScope P.scope = .ok () :=
  if_neg (Key.partition_ne_empty "charges" P.payee P.payor)

namespace House

/-- The records of the kind `R` that a scope holds, in ascending order of their keys. -/
def stored (R : Type) [Recorded R] (l : Ledger) (scope : Scope) : List R :=
  (l.table scope).rows.filterMap fun row => (Record.decodeTo R row.2).toOption

theorem stored_of_rows {R : Type} [Recorded R] {l : Ledger} {scope : Scope} (rs : List Record)
    (h : (l.table scope).rows = rs.map fun r => (r.key, r.encode)) :
    stored R l scope = rs.filterMap fun r => (Recorded.ofRecord? r.asRead : Option R) := by
  rw [stored, h, List.filterMap_map]
  simp only [Function.comp_def, (Record.held_encode _).toOption_decodeTo]

theorem accepts_kindSelector {docType : DocType} {fields : List (String × String)}
    (h : (fields.map Prod.fst ++ [Record.docTypeName]).Nodup) (r : Record) :
    (kindSelector docType fields).accepts r.toJson
      = (decide (r.docType = docType) && fields.all fun row => r.shows row.1 row.2) := by
  have hfields : (kindSelector docType fields).fields
      = Table.ofList (fields ++ [(Record.docTypeName, docType.wire)]) := by
    rw [Table.ofList, List.foldl_append]
    rfl
  have hperm : (kindSelector docType fields).fields.rows.Perm
      (fields ++ [(Record.docTypeName, docType.wire)]) := by
    rw [hfields]
    exact Table.perm_rows_ofList (by simpa using h)
  rw [r.accepts_eq_all_shows, hperm.all_eq, List.all_append, Bool.and_comm]
  simp

/-- The kind of a record decides whether it is found. -/
theorem acceptsBytes_kindSelector (docType : DocType) (r : Record) :
    (kindSelector docType []).acceptsBytes r.encode = decide (r.docType = docType) := by
  rw [r.held_encode.acceptsBytes_eq, accepts_kindSelector (by simp)]
  simp

section WellKept

variable {l : Ledger} (hl : WellKept l) {scope : Scope}

include hl

theorem WellKept.exists_of_mem_rows {row : String × ByteArray}
    (hrow : row ∈ (l.table scope).rows) :
    ∃ r : Record, row.2 = r.encode ∧ r.slot = ⟨scope, row.1⟩ ∧ InOrder r :=
  hl ⟨scope, row.1⟩ row.2 (Table.find?_eq_some_iff.2 hrow)

theorem WellKept.found_rows (scope : Scope) {R : Type} [Recorded R] {s : Selector} {keep : R → Bool}
    (hkeep : ∀ r : Record, s.accepts r.toJson = (Recorded.ofRecord? r.asRead).any keep) :
    List.Forall₂ (fun row a => readAs R row.1 row.2 = .ok a)
      ((l.table scope).rows.filter fun row => s.acceptsBytes row.2)
      ((stored R l scope).filter keep) := by
  have hrows := fun row (hrow : row ∈ (l.table scope).rows) => hl.exists_of_mem_rows hrow
  rw [stored]
  generalize (l.table scope).rows = rows at hrows ⊢
  induction rows with
  | nil => exact .nil
  | cons row rows ih =>
    obtain ⟨r, hbytes, -, -⟩ := hrows row List.mem_cons_self
    have hrest := ih fun row' h => hrows row' (List.mem_cons_of_mem row h)
    have hread := r.held_encode.toOption_decodeTo R
    rw [List.filter_cons, List.filterMap_cons, hbytes, r.held_encode.acceptsBytes_eq, hkeep, hread]
    cases hrecord : (Recorded.ofRecord? r.asRead : Option R) with
    | none => exact hrest
    | some a =>
      simp only [Option.any_some, List.filter_cons]
      split
      · exact .cons (hbytes ▸ readAs_of_toOption (hread.trans hrecord) row.1) hrest
      · exact hrest

theorem WellKept.recordsIn_eq {R : Type} [Recorded R]
    (hkind : ∀ r, (Recorded.ofRecord? r : Option R).isSome
      = decide (r.docType = Recorded.docType R))
    (hscope : Ledger.checkScope scope = .ok ()) :
    recordsIn R l scope = .ok (stored R l scope) := by
  have hsearch : search l scope (kindSelector (Recorded.docType R) [])
      = .ok ((l.table scope).rows.filter
          fun row => (kindSelector (Recorded.docType R) []).acceptsBytes row.2) := by
    rw [search, Ledger.query, hscope]
    rfl
  have hkeep : ∀ r : Record, (kindSelector (Recorded.docType R) []).accepts r.toJson
      = (Recorded.ofRecord? r.asRead : Option R).any fun _ => true := by
    intro r
    rw [← r.held_encode.acceptsBytes_eq, acceptsBytes_kindSelector, ← Record.docType_asRead,
      ← hkind]
    cases (Recorded.ofRecord? r.asRead : Option R) <;> rfl
  have hfound := mapM_eq_ok (hl.found_rows scope hkeep)
  rw [List.filter_true] at hfound
  rw [recordsIn, hsearch]
  exact hfound

/-- What a bill is made of. -/
theorem WellKept.recordsIn_period (P : Period) :
    recordsIn Charge l P.scope = .ok (stored Charge l P.scope) ∧
      recordsIn Correction l P.scope = .ok (stored Correction l P.scope) :=
  ⟨hl.recordsIn_eq (fun r => by cases r <;> rfl) P.checkScope_scope,
    hl.recordsIn_eq (fun r => by cases r <;> rfl) P.checkScope_scope⟩

theorem WellKept.exists_of_decodeTo {R : Type} [Recorded R] {row : String × ByteArray} {a : R}
    (hrow : row ∈ (l.table scope).rows) (ha : (Record.decodeTo R row.2).toOption = some a) :
    ∃ r : Record, r.asRead = Recorded.toRecord a ∧ r.slot = ⟨scope, row.1⟩ ∧ InOrder r := by
  obtain ⟨r, hbytes, hslot, horder⟩ := hl.exists_of_mem_rows hrow
  rw [hbytes, r.held_encode.toOption_decodeTo] at ha
  exact ⟨r, Recorded.ofRecord?_eq_some_iff.1 ha, hslot, horder⟩

theorem WellKept.validate_stored {R : Type} [Recorded R] {a : R} (ha : a ∈ stored R l scope) :
    (Recorded.toRecord a).validate = .ok () := by
  obtain ⟨row, hrow, hdecode⟩ := List.mem_filterMap.1 ha
  obtain ⟨r, hread, -, horder⟩ := hl.exists_of_decodeTo hrow hdecode
  exact hread ▸ Record.validate_asRead horder.validate

theorem WellKept.ascending_keys_stored (R : Type) [Recorded R] (scope : Scope) :
    ((stored R l scope).map fun a => (Recorded.toRecord a).key).Pairwise (· < ·) := by
  have hkey : ∀ row ∈ (l.table scope).rows, ∀ a : R,
      (Record.decodeTo R row.2).toOption = some a → (Recorded.toRecord a).key = row.1 := by
    intro row hrow a ha
    obtain ⟨r, hread, hslot, -⟩ := hl.exists_of_decodeTo hrow ha
    rw [← hread]
    exact congrArg Slot.key ((Record.slot_asRead r).trans hslot)
  refine List.pairwise_map.2 (List.pairwise_filterMap.2 ?_)
  refine List.Pairwise.imp_of_mem ?_ (l.table scope).ascending
  intro row row' hrow hrow' hlt a ha a' ha'
  rwa [hkey row hrow a ha, hkey row' hrow' a' ha']

theorem WellKept.nodup_keys_stored (R : Type) [Recorded R] :
    ((stored R l scope).map fun a => (Recorded.toRecord a).key).Nodup := by
  refine (hl.ascending_keys_stored R scope).imp ?_
  rintro key other hlt rfl
  exact String.lt_irrefl key hlt

theorem WellKept.nodup_ids_stored : ((stored Charge l scope).map Charge.id).Nodup := by
  refine List.Nodup.of_map Key.charge ?_
  rw [List.map_map]
  exact hl.nodup_keys_stored Charge

theorem WellKept.priced_charge {c : Charge} (hc : c ∈ stored Charge l scope) :
    Priced c.amount c.fee :=
  Charge.priced_of_check (Record.validate_eq_ok.1 (hl.validate_stored hc) .ranges)

theorem WellKept.priced_correction {k : Correction} (hk : k ∈ stored Correction l scope) :
    Priced k.amount k.fee :=
  Correction.priced_of_check (Record.validate_eq_ok.1 (hl.validate_stored hk) .ranges)

end WellKept

/-- The bill of a period for what a ledger holds. -/
def BillOf (l : Ledger) (P : Period) (t : Totals) : Prop :=
  Totals.IsBill (stored Correction l P.scope) P ((stored Charge l P.scope).filter P.Covers) t

theorem WellKept.total_eq {l : Ledger} (hl : WellKept l) {P : Period} (hparties : P.payor ≠ P.payee)
    (hperiod : P.start < P.stop) (hfew : (stored Charge l P.scope).length < 2 ^ 32) :
    ∃ t, total l P = .ok (.totalled t) ∧ BillOf l P t := by
  obtain ⟨hcharges, hcorrections⟩ := hl.recordsIn_period P
  obtain ⟨t, ht, hbill⟩ := Totals.ofPeriod_eq (p := P) (fun c hc => hl.priced_charge hc)
    (fun k hk => hl.priced_correction hk) hl.nodup_ids_stored (by omega)
  have hdistinct : accepted (Rule.distinct "payorAgencyID" P.payor "payeeAgencyID" P.payee)
      = .ok () := by
    simp [Rule.distinct, Rule.ensure, hparties, accepted]
  have hchecked : accepted (Settlement.checkPeriod (some P.start) (some P.stop)) = .ok () := by
    simp [Settlement.checkPeriod, Rule.ensure, hperiod, accepted]
  refine ⟨t, ?_, hbill⟩
  rw [Period.scope] at hcharges hcorrections ht
  simp only [total, hdistinct, hchecked, hcharges, hcorrections, bind, Except.bind, ht]

theorem request_total (payor payee start stop : String) : ∃ f,
    Function.ofName? "CalculateSettlementTotals" = some f ∧
      f.request [payor, payee, start, stop] = (do
        let start ← Function.date "periodStart" start
        let stop ← Function.date "periodEnd" stop
        .ok (.total ⟨payor, payee, start, stop⟩)) := ⟨_, rfl, rfl⟩

namespace Call

def AsksFor (c : Call) (P : Period) : Prop :=
  c.name = "CalculateSettlementTotals" ∧
    ∃ start stop, c.arguments = [P.payor, P.payee, start, stop] ∧
      Date.ofArgument? start = some P.start ∧ Date.ofArgument? stop = some P.stop

theorem AsksFor.outcome_eq {c : Call} {P : Period} (h : c.AsksFor P) (q : Policy) (l : Ledger) :
    c.outcome q l = total l P := by
  obtain ⟨now, name, arguments⟩ := c
  obtain ⟨rfl, start, stop, rfl, hstart, hstop⟩ := h
  obtain ⟨f, hname, hrequest⟩ := request_total P.payor P.payee start stop
  simp only [Function.date, hstart, hstop, bind, Except.bind] at hrequest
  exact Call.outcome_of_request (c := ⟨now, _, _⟩) hname hrequest

end Call

/-- After every run a call that asks for the bill of a period is answered with the exact bill of
what the ledger holds, whatever the policy. The bills of two parts of the period add up to it. -/
theorem outcome_bill (p : Policy) (calls : List Call) {P : Period} (hparties : P.payor ≠ P.payee)
    (hperiod : P.start < P.stop) (hfew : (stored Charge (run p calls) P.scope).length < 2 ^ 32) :
    ∃ t, BillOf (run p calls) P t ∧
      (∀ (q : Policy) (c : Call), c.AsksFor P → c.outcome q (run p calls) = .ok (.totalled t)) ∧
      ∀ mid, P.start < mid → mid < P.stop → ∀ (q : Policy) (c₁ c₂ : Call),
        c₁.AsksFor { P with stop := mid } → c₂.AsksFor { P with start := mid } →
          ∃ t₁ t₂, c₁.outcome q (run p calls) = .ok (.totalled t₁) ∧
            c₂.outcome q (run p calls) = .ok (.totalled t₂) ∧ t.Splits t₁ t₂ := by
  have hkept := wellKept_run p calls
  obtain ⟨t, ht, hbill⟩ := hkept.total_eq hparties hperiod hfew
  refine ⟨t, hbill, fun q c hc => (hc.outcome_eq q _).trans ht, ?_⟩
  intro mid hstart hstop q c₁ c₂ hc₁ hc₂
  obtain ⟨t₁, ht₁, hbill₁⟩ := hkept.total_eq (P := { P with stop := mid }) hparties hstart hfew
  obtain ⟨t₂, ht₂, hbill₂⟩ := hkept.total_eq (P := { P with start := mid }) hparties hstop hfew
  exact ⟨t₁, t₂, (hc₁.outcome_eq q _).trans ht₁, (hc₂.outcome_eq q _).trans ht₂,
    hbill.splits hbill₁ hbill₂ (Period.perm_filter_covers hstart hstop _)⟩

def tollCharge : Charge where
  id := "C1"
  code := "TB01"
  away := "B"
  home := "A"
  tagSerial := "1"
  tagAgency := "A"
  plate := none
  facility := "F"
  entryPlaza := ""
  entryTime := none
  exitPlaza := "P"
  exitLane := ""
  exitTime := Instant.ofParts? signedStart 0 0
  vehicleClass := 2
  amount := Decimal.ofParts? false 475 2
  fee := (Decimal.ofParts? false 5 2).getD .zero
  discountPlan := ""
  status := some .pending
  createdAt := none
  updatedAt := none

def tollMembers : Json.Members :=
  [("chargeID", .string "C1"), ("recordType", .string "TB01"), ("awayAgencyID", .string "B"),
    ("homeAgencyID", .string "A"), ("tagSerialNumber", .string "1"), ("tagAgencyID", .string "A"),
    ("facilityID", .string "F"), ("exitPlaza", .string "P"),
    ("exitDateTime", .string "2024-01-01T00:00:00Z"), ("vehicleClass", .number (.whole 2)),
    ("amount", .string "4.75"), ("fee", .string "0.05"), ("status", .string "pending")]

theorem ofPayload_tollMembers :
    Record.ofPayload .charge (Json.object tollMembers).compact = .ok (.charge tollCharge) := by
  have hwhole : (Json.Number.whole 2).Exact := Json.Number.exact_natCast (n := 2) (by decide)
  have hshallow : (Json.object tollMembers).Shallow Json.maxDepth := by
    intro m hm
    simp only [tollMembers, List.mem_cons, List.not_mem_nil, or_false] at hm
    rcases hm with rfl | rfl | rfl | rfl | rfl | rfl | rfl | rfl | rfl | rfl | rfl | rfl | rfl <;>
      simp [hwhole]
  rw [Record.ofPayload, Json.parse?_compact hshallow]
  rfl

def pendingToll : Record := (Record.charge tollCharge).stampCreated signedTime

def postedToll : Charge :=
  { tollCharge with status := some .posted, createdAt := signedTime, updatedAt := signedTime }

def createToll : Call := ⟨signedTime, "CreateCharge", [(Json.object tollMembers).compact]⟩

def postToll : Call := ⟨signedTime, "UpdateChargeStatus", ["B", "A", "C1", "posted"]⟩

theorem outcome_createToll :
    createToll.outcome openPolicy .empty = .ok (.stored pendingToll.slot pendingToll) :=
  Call.outcome_create rfl ofPayload_tollMembers

theorem outcome_postToll {p : Policy} {l : Ledger}
    (h : l.find? pendingToll.slot = some pendingToll.encode) :
    postToll.outcome p l = .ok (.stored pendingToll.slot (.charge postedToll)) := by
  obtain ⟨f, hname, hrequest⟩ : ∃ f, Function.ofName? "UpdateChargeStatus" = some f ∧
      f.request ["B", "A", "C1", "posted"] = .ok (.advance pendingToll.slot (.charge .posted)) :=
    ⟨_, rfl, rfl⟩
  have hadvance : advance Charge signedTime l pendingToll.slot ChargeStatus.posted
      = .ok (.stored pendingToll.slot (.charge postedToll)) :=
    advance_slot (a := { tollCharge with createdAt := signedTime, updatedAt := signedTime })
      h rfl rfl rfl
  exact (Call.outcome_of_request (c := postToll) hname hrequest).trans hadvance

theorem run_tollCalls : run openPolicy [createToll, postToll]
    = (Ledger.empty.write pendingToll.slot pendingToll.encode).write pendingToll.slot
        (Record.charge postedToll).encode := by
  rw [run, List.foldl_cons, Call.step_of_ok outcome_createToll, List.foldl_cons, Outcome.apply,
    Call.step_of_ok (outcome_postToll (Ledger.find?_write _ _ _)), List.foldl_nil, Outcome.apply]

def tollPeriod : Period := ⟨"A", "B", signedStart, signedTime.date⟩

def tollTotals : Call :=
  ⟨signedTime, "CalculateSettlementTotals", ["A", "B", tollPeriod.start.text, tollPeriod.stop.text]⟩

theorem tollTotals_asksFor : tollTotals.AsksFor tollPeriod :=
  ⟨rfl, _, _, rfl, Date.ofArgument?_text _, Date.ofArgument?_text _⟩

theorem rows_tollCalls : ((run openPolicy [createToll, postToll]).table tollPeriod.scope).rows
    = [(pendingToll.key, (Record.charge postedToll).encode)] := by
  rw [run_tollCalls, Ledger.table_write, Ledger.table_write]
  rfl

theorem billOf_toll {l : Ledger} {t : Totals}
    (hcharges : stored Charge l tollPeriod.scope = [postedToll])
    (hcorrections : stored Correction l tollPeriod.scope = []) (h : BillOf l tollPeriod t) :
    t.charges = 1 ∧ t.corrections = 0 ∧ t.gross.value = 19 / 4 ∧ t.correction.value = 0 ∧
      t.net.value = 47 / 10 := by
  have hcovered : [postedToll].filter tollPeriod.Covers = [postedToll] := rfl
  have hamount : postedToll.gross = (475 : ℤ) / (100 : ℕ) := rfl
  have hfee : postedToll.fee.value = (5 : ℤ) / (100 : ℕ) := rfl
  have howed : Totals.owed [] postedToll = postedToll.gross - postedToll.fee.value := rfl
  rw [BillOf, hcharges, hcorrections, hcovered] at h
  have hgross : t.gross.value = 19 / 4 := by
    rw [h.gross, List.map_singleton, List.sum_singleton, hamount]
    norm_num
  have hnet : t.net.value = 47 / 10 := by
    rw [h.net, List.map_singleton, List.sum_singleton, howed, hamount, hfee]
    norm_num
  refine ⟨UInt32.toNat_inj.1 h.charges, UInt32.toNat_inj.1 h.corrections, hgross, ?_, hnet⟩
  rw [h.correction, hnet, hgross, h.fee, List.map_singleton, List.sum_singleton, hfee]
  norm_num

theorem outcome_bill_tollCalls : ∃ t : Totals,
    tollTotals.outcome openPolicy (run openPolicy [createToll, postToll]) = .ok (.totalled t) ∧
      t.charges = 1 ∧ t.corrections = 0 ∧ t.net.value = 47 / 10 := by
  have hcharges : stored Charge (run openPolicy [createToll, postToll]) tollPeriod.scope
      = [postedToll] := stored_of_rows [.charge postedToll] rows_tollCalls
  have hcorrections : stored Correction (run openPolicy [createToll, postToll]) tollPeriod.scope
      = [] := stored_of_rows [.charge postedToll] rows_tollCalls
  obtain ⟨t, hbill, houtcome, -⟩ := outcome_bill openPolicy [createToll, postToll] (P := tollPeriod)
    (by decide) (by decide) (by rw [hcharges]; decide)
  obtain ⟨hcount, hcorrected, -, -, hnet⟩ := billOf_toll hcharges hcorrections hbill
  exact ⟨t, houtcome openPolicy tollTotals tollTotals_asksFor, hcount, hcorrected, hnet⟩

end House

end TollClearing
