import TollClearing.Proofs.Rule.Member

/-!
The rules for charges as one description of a charge (`validate_iff_wellFormed`). Its code, which
is read with or without the mark of an adjustment, decides what else has to be told; here it
is compared with the six plain codes.
-/

set_option autoImplicit false

namespace TollClearing

namespace RecordCode

theorem ofWire?_eq_plain_iff {s : String} {kind : ChargeKind} :
    ofWire? s = some ⟨kind, false⟩ ↔ s = kind.wire := by
  rw [@eq_comm _ s]
  refine Iff.trans ?_ (Code.ofWire?_eq_some_iff (α := ChargeKind))
  unfold ofWire?
  cases (Code.ofWire? s : Option ChargeKind) with
  | some other => simp
  | none =>
    simp only [reduceCtorEq, iff_false]
    split
    · simp
    · exact nofun

end RecordCode

namespace Charge

open Rule

def tagCodes : List String := ["TB01", "TC01", "TC02"]

def videoCodes : List String := ["VB01", "VC01", "VC02"]

def entryCodes : List String := ["TC01", "VC01"]

/-- A charge that tells who is owed what by whom, where and when the toll arose, and what its code
asks for besides. -/
structure WellFormed (c : Charge) : Prop where
  names : ∀ name ∈ [c.id, c.away, c.home], IsName name
  parties : c.away ≠ c.home
  places : ∀ place ∈ [c.facility, c.exitPlaza], IsTold place
  exitTime : c.exitTime.isSome
  status : c.status.isSome
  code : c.code ∈ tagCodes ++ videoCodes
  vehicleClass : 1 ≤ c.vehicleClass ∧ c.vehicleClass ≤ 99
  amounts : ∃ amount, c.amount = some amount ∧ IsCents amount ∧ IsCents c.fee ∧
    0 ≤ c.fee.value ∧ c.fee.value ≤ amount.value
  entered : ∀ entry ∈ c.entryTime, ∀ exit ∈ c.exitTime, entry ≤ exit
  tag : c.code ∈ tagCodes → IsTold c.tagSerial ∧ IsTold c.tagAgency
  plate : c.code ∈ videoCodes → ∃ plate, c.plate = some plate ∧ IsTold plate.number
  entry : c.code ∈ entryCodes → IsTold c.entryPlaza ∧ c.entryTime.isSome

section Codes

variable {kind : ChargeKind}

theorem wire_mem_tagCodes_iff : kind.wire ∈ tagCodes ↔ kind.isTagBased = true := by
  cases kind <;> decide

theorem wire_mem_videoCodes_iff : kind.wire ∈ videoCodes ↔ kind.isVideo = true := by
  cases kind <;> decide

theorem wire_mem_entryCodes_iff : kind.wire ∈ entryCodes ↔ kind.requiresEntry = true := by
  cases kind <;> decide

theorem mem_codes_iff {code : String} :
    code ∈ tagCodes ++ videoCodes ↔ ∃ kind : ChargeKind, code = kind.wire := by
  constructor
  · intro h
    simp only [tagCodes, videoCodes, List.cons_append, List.nil_append, List.mem_cons,
      List.not_mem_nil, or_false] at h
    obtain rfl | rfl | rfl | rfl | rfl | rfl := h
    exacts [⟨.tagPoint, rfl⟩, ⟨.tagEntry, rfl⟩, ⟨.tagExit, rfl⟩, ⟨.videoPoint, rfl⟩,
      ⟨.videoEntry, rfl⟩, ⟨.videoExit, rfl⟩]
  · rintro ⟨kind, rfl⟩
    cases kind <;> decide

end Codes

section Checks

variable {c : Charge} {kind : ChargeKind}

/-- The code of an adjustment is known, but it is not for charges. -/
theorem check_codes_iff : c.check .codes = .ok () ↔ c.code ∈ tagCodes ++ videoCodes := by
  rw [mem_codes_iff]
  simp only [check, knownCode, ← RecordCode.ofWire?_eq_plain_iff]
  cases RecordCode.ofWire? c.code with
  | none => simp [bind, Except.bind]
  | some code =>
    obtain ⟨kind, adjustment⟩ := code
    cases adjustment <;> simp [bind, Except.bind]

theorem checkTag_eq_ok_iff : c.checkTag kind = .ok () ↔
    (kind.wire ∈ tagCodes → IsTold c.tagSerial ∧ IsTold c.tagAgency) := by
  rw [wire_mem_tagCodes_iff, checkTag]
  cases kind.isTagBased <;> simp [require_eq_ok_iff]

theorem checkPlate_eq_ok_iff : c.checkPlate kind = .ok () ↔
    (kind.wire ∈ videoCodes → ∃ plate, c.plate = some plate ∧ IsTold plate.number) := by
  rw [wire_mem_videoCodes_iff, checkPlate]
  cases kind.isVideo <;> cases c.plate <;> simp [require_eq_ok_iff]

theorem checkEntry_eq_ok_iff : c.checkEntry kind = .ok () ↔
    (kind.wire ∈ entryCodes → IsTold c.entryPlaza ∧ c.entryTime.isSome) := by
  rw [wire_mem_entryCodes_iff, checkEntry]
  cases kind.requiresEntry <;> simp [require_eq_ok_iff]

theorem check_conditional_iff (h : c.code = kind.wire) : c.check .conditional = .ok () ↔
    (c.code ∈ tagCodes → IsTold c.tagSerial ∧ IsTold c.tagAgency) ∧
      (c.code ∈ videoCodes → ∃ plate, c.plate = some plate ∧ IsTold plate.number) ∧
      (c.code ∈ entryCodes → IsTold c.entryPlaza ∧ c.entryTime.isSome) := by
  have hcode : RecordCode.ofWire? kind.wire = some ⟨kind, false⟩ :=
    RecordCode.ofWire?_eq_plain_iff.2 rfl
  simp only [check, h, hcode, bind_unit_eq_ok, checkTag_eq_ok_iff, checkPlate_eq_ok_iff,
    checkEntry_eq_ok_iff]

theorem check_crossMember_iff {amount : Decimal} (hamount : c.amount = some amount) :
    c.check .crossMember = .ok () ↔ c.away ≠ c.home ∧ c.fee.value ≤ amount.value ∧
      ∀ entry ∈ c.entryTime, ∀ exit ∈ c.exitTime, entry ≤ exit := by
  simp only [check, bind_unit_eq_ok, hamount, distinct_eq_ok_iff, notAbove_eq_ok_iff]
  refine and_congr_right fun _ => and_congr_right fun _ => ?_
  -- without the time of the entry there is nothing to compare
  cases c.entryTime <;> cases c.exitTime <;> simp

theorem inRange_vehicleClass_iff : inRange "vehicleClass" c.vehicleClass.toNat 1 99 = .ok () ↔
    1 ≤ c.vehicleClass ∧ c.vehicleClass ≤ 99 := by
  rw [inRange_eq_ok_iff, UInt8.le_iff_toNat_le, UInt8.le_iff_toNat_le]
  exact_mod_cast Iff.rfl

theorem WellFormed.of_check (h : ∀ stage, c.check stage = .ok ()) : c.WellFormed := by
  have hcode := check_codes_iff.1 (h .codes)
  obtain ⟨kind, hkind⟩ := mem_codes_iff.1 hcode
  obtain ⟨htag, hplate, hentry⟩ := (check_conditional_iff hkind).1 (h .conditional)
  have hrequired := h .required
  have hranges := h .ranges
  simp only [check, bind_unit_eq_ok, requireSome_eq_ok] at hrequired
  obtain ⟨hid, -, haway, hhome, hfacility, hexit, hexitTime, hamount, hstatus⟩ := hrequired
  obtain ⟨amount, hamount⟩ := Option.isSome_iff_exists.1 hamount
  simp only [check, bind_unit_eq_ok, hamount, moneyIfSome, money_eq_ok_iff,
    inRange_vehicleClass_iff] at hranges
  obtain ⟨hid', haway', hhome', hclass, ⟨hcents, -⟩, hfee, hnonneg⟩ := hranges
  obtain ⟨hparties, hle, hentered⟩ := (check_crossMember_iff hamount).1 (h .crossMember)
  have hnames : ∀ name ∈ [c.id, c.away, c.home], IsName name := by
    simp only [List.forall_mem_cons, List.not_mem_nil, false_implies, implies_true, and_true]
    exact ⟨isName_iff.2 ⟨hid, hid'⟩, isName_iff.2 ⟨haway, haway'⟩, isName_iff.2 ⟨hhome, hhome'⟩⟩
  have hplaces : ∀ place ∈ [c.facility, c.exitPlaza], IsTold place := by
    simp only [List.forall_mem_cons, List.not_mem_nil, false_implies, implies_true, and_true]
    exact ⟨require_eq_ok_iff.1 hfacility, require_eq_ok_iff.1 hexit⟩
  exact ⟨hnames, hparties, hplaces, hexitTime, hstatus, hcode, hclass,
    ⟨amount, hamount, hcents, hfee, hnonneg, hle⟩, hentered, htag, hplate, hentry⟩

theorem WellFormed.check_eq_ok (h : c.WellFormed) (stage : Stage) : c.check stage = .ok () := by
  obtain ⟨kind, hkind⟩ := mem_codes_iff.1 h.code
  obtain ⟨amount, hamount, hcents, hfee, hnonneg, hle⟩ := h.amounts
  have hnames := h.names
  have hplaces := h.places
  simp only [List.forall_mem_cons, List.not_mem_nil, false_implies, implies_true, and_true]
    at hnames hplaces
  obtain ⟨hid, haway, hhome⟩ := hnames
  obtain ⟨hfacility, hexit⟩ := hplaces
  cases stage with
  | required =>
    have htold : IsTold c.code := by
      rw [hkind]
      cases kind <;> exact ⟨_, List.mem_cons_self, rfl⟩
    simp only [check, bind_unit_eq_ok, requireSome_eq_ok, hamount, Option.isSome_some, h.exitTime,
      h.status, and_true]
    exact ⟨(isName_iff.1 hid).1, require_eq_ok_iff.2 htold, (isName_iff.1 haway).1,
      (isName_iff.1 hhome).1, require_eq_ok_iff.2 hfacility, require_eq_ok_iff.2 hexit⟩
  | codes => exact check_codes_iff.2 h.code
  | ranges =>
    simp only [check, bind_unit_eq_ok, hamount, moneyIfSome, money_eq_ok_iff,
      inRange_vehicleClass_iff]
    exact ⟨(isName_iff.1 hid).2, (isName_iff.1 haway).2, (isName_iff.1 hhome).2, h.vehicleClass,
      ⟨hcents, hnonneg.trans hle⟩, hfee, hnonneg⟩
  | crossMember => exact (check_crossMember_iff hamount).2 ⟨h.parties, hle, h.entered⟩
  | conditional => exact (check_conditional_iff hkind).2 ⟨h.tag, h.plate, h.entry⟩

theorem validate_iff : (Record.charge c).validate = .ok () ↔ c.WellFormed := by
  rw [Record.validate_eq_ok]
  exact ⟨.of_check, WellFormed.check_eq_ok⟩

theorem WellFormed.exists_net? (h : c.WellFormed) : ∃ amount net, c.amount = some amount ∧
    c.net? = some net ∧ net.value = amount.value - c.fee.value ∧ 0 ≤ net.value := by
  obtain ⟨amount, hamount, hcents, hfee, -, hle⟩ := h.amounts
  obtain ⟨net, hsub, -, hvalue⟩ := hcents.within.sub? hfee.within (by decide)
  have hnet : c.net? = some net := by
    rw [net?, hamount]
    exact hsub
  exact ⟨amount, net, hamount, hnet, hvalue, hvalue ▸ sub_nonneg.2 hle⟩

end Checks

/-- A charge obeys the rules just if it is well formed, and then the amount less the fee is told
exactly and is not negative. -/
theorem validate_iff_wellFormed (c : Charge) :
    ((Record.charge c).validate = .ok () ↔ c.WellFormed) ∧
      ((Record.charge c).validate = .ok () → ∃ amount net, c.amount = some amount ∧
        c.net? = some net ∧ net.value = amount.value - c.fee.value ∧ 0 ≤ net.value) :=
  ⟨validate_iff, fun h => (validate_iff.1 h).exists_net?⟩

def picturedToll : Charge where
  id := "C1"
  code := "VC01"
  away := "B"
  home := "A"
  tagSerial := ""
  tagAgency := ""
  plate := some ⟨"", "", " 7", ""⟩
  facility := "F"
  entryPlaza := "E"
  entryTime := Instant.ofParts? ⟨2015, 6, 30, by decide⟩ 86399 1999999999
  exitPlaza := "P"
  exitLane := ""
  exitTime := Instant.ofParts? ⟨2015, 7, 1, by decide⟩ 0 0
  vehicleClass := 99
  amount := some (.amount 10000000000000000000000000000 28)
  fee := .amount 1 0
  discountPlan := ""
  status := some .pending
  createdAt := none
  updatedAt := none

theorem validate_iff_wellFormed_picturedToll :
    (Record.charge picturedToll).validate = .ok () ∧
      ∃ amount net, picturedToll.amount = some amount ∧ picturedToll.net? = some net ∧
        net.value = amount.value - picturedToll.fee.value ∧ 0 ≤ net.value := by
  have hvalid : (Record.charge picturedToll).validate = .ok () := by decide +kernel
  exact ⟨hvalid, (validate_iff_wellFormed picturedToll).2 hvalid⟩

end Charge

end TollClearing
