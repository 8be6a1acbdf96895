import TollClearing.Proofs.House.ReadBack
import TollClearing.Proofs.Record.Identity

/-!
Look-ups never mistake one record for another: a call for a record finds the one of exactly the
identity that its arguments name, whatever they are, and of two agencies either may be named first.
-/

set_option autoImplicit false

namespace TollClearing

namespace Key

theorem chargePartition_comm (a b : String) : chargePartition a b = chargePartition b a :=
  partition_comm _ a b

theorem settlementPartition_comm (a b : String) :
    settlementPartition a b = settlementPartition b a :=
  partition_comm _ a b

end Key

namespace Identity

theorem checkSlot_slot (i : Identity) : Ledger.checkSlot i.slot = .ok () := by
  have hkey : i.slot.key ≠ "" := by
    obtain ⟨a, as, e⟩ := i.exists_key_eq
    intro h
    have htoList := congrArg String.toList (e.symm.trans h)
    simp [Key.toList_compose] at htoList
  have hname : ∀ domain parties, Key.partitionOf domain parties ≠ "" := by
    intro domain parties
    induction parties with
    | h a b => exact Key.partition_ne_empty domain a b
  cases i <;> simp_all [Ledger.checkSlot, slot, Ledger.checkScope, bind, Except.bind]

end Identity

namespace House

/-- A ledger holds a record if it is read from one of its slots. -/
def Holds (l : Ledger) (r : Record) : Prop :=
  ∃ slot bytes, l.find? slot = some bytes ∧ Record.decode bytes = .ok r

section WellKept

variable {l : Ledger} (hl : WellKept l)

include hl

theorem WellKept.exists_of_holds {r : Record} (h : Holds l r) :
    ∃ s : Record, l.find? r.slot = some s.encode ∧ s.asRead = r ∧ InOrder s := by
  obtain ⟨slot, bytes, hfind, hdecode⟩ := h
  obtain ⟨s, rfl, rfl, horder⟩ := hl slot bytes hfind
  obtain rfl : s.asRead = r := Except.ok.inj (s.held_encode.decode_eq.symm.trans hdecode)
  exact ⟨s, (congrArg l.find? s.slot_asRead).trans hfind, rfl, horder⟩

theorem WellKept.exists_of_find? {i : Identity} {bytes : ByteArray}
    (h : l.find? i.slot = some bytes) :
    ∃ s : Record, bytes = s.encode ∧ s.identity = i ∧ InOrder s := by
  obtain ⟨s, rfl, hslot, horder⟩ := hl i.slot bytes h
  rw [← s.slot_identity] at hslot
  exact ⟨s, rfl, (Identity.slot_inj (Record.plain_identity horder.validate)).1 hslot, horder⟩

theorem WellKept.get_eq_ok_iff {p : Policy} {now : Instant} {i : Identity} {o : Outcome} :
    process p now l (.get i.docType i.slot) = .ok o ↔
      ∃ r, Holds l r ∧ r.identity = i ∧ o = .found r := by
  constructor
  · intro h
    simp only [process, bind_eq_ok] at h
    obtain ⟨bytes, hbytes, r, hread, ho⟩ := h
    have hfind := valueIn_eq_ok hbytes
    obtain ⟨s, rfl, rfl, -⟩ := hl.exists_of_find? hfind
    rw [s.docType_identity, readRecord_encode] at hread
    obtain rfl := Except.ok.inj hread
    exact ⟨_, ⟨_, _, hfind, s.held_encode.decode_eq⟩, s.identity_asRead, (Except.ok.inj ho).symm⟩
  · rintro ⟨r, hr, rfl, rfl⟩
    obtain ⟨s, hfind, rfl, -⟩ := hl.exists_of_holds hr
    rw [Record.slot_asRead] at hfind
    have hget : process p now l (.get s.docType s.slot) = .ok (.found s.asRead) :=
      process_get hfind s.held_encode
    simpa using hget

end WellKept

theorem Function.request_of_length_ne {f : Function} {arguments : List String}
    (h : arguments.length ≠ f.parameters.length) :
    f.request arguments
      = .error (.wrongCount f.name f.parameters.length arguments.length) := by
  rw [request, dif_neg h]

/-- The functions that ask for a record, each with the identity that its arguments name. -/
def gets : List (String × (List String → Option Identity)) :=
  [("GetAgency", fun
      | [id] => some (.agency id)
      | _ => none),
    ("GetTag", fun
      | [issuer, serial] => some (.tag issuer serial)
      | _ => none),
    ("GetCharge", fun
      | [away, home, id] => some (.charge s(away, home) id)
      | _ => none),
    ("GetCorrection", fun
      | [away, home, id, number] =>
        (Text.unsigned? 4294967296 number.toList).map (.correction s(away, home) id)
      | _ => none),
    ("GetReconciliation", fun
      | [away, home, id] => some (.reconciliation s(away, home) id)
      | _ => none),
    ("GetAcknowledgement", fun
      | [id] => some (.acknowledgement id)
      | _ => none),
    ("GetSettlement", fun
      | [payor, payee, id] => some (.settlement s(payor, payee) id)
      | _ => none)]

theorem toOption_number_bind {parameter argument : String} {α : Type} (make : Nat → α) :
    (Function.number parameter argument >>= fun n => Except.ok (make n)).toOption
      = (Text.unsigned? 4294967296 argument.toList).map make := by
  unfold Function.number
  cases Text.unsigned? 4294967296 argument.toList <;> rfl

theorem request_gets {get : String × (List String → Option Identity)} (h : get ∈ gets) :
    ∃ f, Function.ofName? get.1 = some f ∧ ∀ arguments,
      (f.request arguments).toOption
        = (get.2 arguments).map fun i => Request.get i.docType i.slot := by
  simp only [gets, List.mem_cons, List.not_mem_nil, or_false] at h
  rcases h with rfl | rfl | rfl | rfl | rfl | rfl | rfl
  · refine ⟨_, rfl, fun arguments => ?_⟩
    match arguments with
    | [] => rfl
    | [_] => rfl
    | _ :: _ :: _ => rfl
  · refine ⟨_, rfl, fun arguments => ?_⟩
    match arguments with
    | [] => rfl
    | [_] => rfl
    | [_, _] => rfl
    | _ :: _ :: _ :: _ => rfl
  · refine ⟨_, rfl, fun arguments => ?_⟩
    match arguments with
    | [] => rfl
    | [_] => rfl
    | [_, _] => rfl
    | [_, _, _] => rfl
    | _ :: _ :: _ :: _ :: _ => rfl
  · refine ⟨_, rfl, fun arguments => ?_⟩
    match arguments with
    | [] => rfl
    | [_] => rfl
    | [_, _] => rfl
    | [_, _, _] => rfl
    | [away, home, id, number] =>
      rw [Option.map_map]
      exact toOption_number_bind _
    | _ :: _ :: _ :: _ :: _ :: _ => rfl
  · refine ⟨_, rfl, fun arguments => ?_⟩
    match arguments with
    | [] => rfl
    | [_] => rfl
    | [_, _] => rfl
    | [_, _, _] => rfl
    | _ :: _ :: _ :: _ :: _ => rfl
  · refine ⟨_, rfl, fun arguments => ?_⟩
    match arguments with
    | [] => rfl
    | [_] => rfl
    | _ :: _ :: _ => rfl
  · refine ⟨_, rfl, fun arguments => ?_⟩
    match arguments with
    | [] => rfl
    | [_] => rfl
    | [_, _] => rfl
    | [_, _, _] => rfl
    | _ :: _ :: _ :: _ :: _ => rfl

/-- The functions whose first two arguments are two agencies in any order. -/
def pairScoped : List String :=
  ["GetCharge", "UpdateChargeStatus", "QueryChargesByStatus", "QueryChargesByTag", "GetCorrection",
    "QueryCorrectionsByCharge", "GetReconciliation", "QueryReconciliationsByDisposition",
    "GetSettlement", "UpdateSettlementStatus", "QuerySettlementsByStatus"]

theorem Function.request_swap {f : Function} {a b : String} {rest : List String}
    (h : ∀ hab hba, f.read ⟨#[a, b] ++ rest.toArray, hab⟩ = f.read ⟨#[b, a] ++ rest.toArray, hba⟩) :
    f.request (a :: b :: rest) = f.request (b :: a :: rest) := by
  by_cases hlength : (a :: b :: rest).length = f.parameters.length
  · have hlength' : (b :: a :: rest).length = f.parameters.length := hlength
    rw [request, request, dif_pos hlength, dif_pos hlength']
    simpa using h (by simpa using hlength) (by simpa using hlength')
  · rw [request_of_length_ne hlength,
      request_of_length_ne (show (b :: a :: rest).length ≠ _ from hlength)]
    rfl

theorem exists_request_swap {name : String} (h : name ∈ pairScoped) : ∃ f,
    Function.ofName? name = some f ∧
      ∀ a b rest, f.request (a :: b :: rest) = f.request (b :: a :: rest) := by
  simp only [pairScoped, List.mem_cons, List.not_mem_nil, or_false] at h
  rcases h with rfl | rfl | rfl | rfl | rfl | rfl | rfl | rfl | rfl | rfl | rfl <;>
    refine ⟨_, rfl, fun a b rest => Function.request_swap fun _ _ => ?_⟩ <;>
    simp [Function.chargeSlot_comm a b, Function.settlementSlot_comm a b,
      Key.chargePartition_comm a b, Key.settlementPartition_comm a b]

theorem Call.outcome_swap {name : String} (h : name ∈ pairScoped) (p : Policy) (l : Ledger)
    (now : Instant) (a b : String) (rest : List String) :
    (Call.mk now name (a :: b :: rest)).outcome p l
      = (Call.mk now name (b :: a :: rest)).outcome p l := by
  obtain ⟨f, hname, hswap⟩ := exists_request_swap h
  simp only [Call.outcome_eq, invoke, hname, hswap a b rest]

theorem WellKept.outcome_get_iff {l : Ledger} (hl : WellKept l) {p : Policy} {now : Instant}
    {get : String × (List String → Option Identity)} (h : get ∈ gets) {arguments : List String}
    {o : Outcome} :
    (Call.mk now get.1 arguments).outcome p l = .ok o ↔
      ∃ i r, get.2 arguments = some i ∧ Holds l r ∧ r.identity = i ∧ o = .found r := by
  obtain ⟨f, hname, hrequest⟩ := request_gets h
  have hask := hrequest arguments
  cases hi : get.2 arguments with
  | none =>
    cases hmade : f.request arguments with
    | ok request => simp [hi, hmade, Except.toOption] at hask
    | error fault => simp [Call.outcome_of_no_request (c := ⟨now, _, _⟩) hname hmade]
  | some i =>
    cases hmade : f.request arguments with
    | error fault => simp [hi, hmade, Except.toOption] at hask
    | ok request =>
      obtain rfl : request = .get i.docType i.slot := by
        simpa [hi, hmade, Except.toOption] using hask
      have houtcome : (Call.mk now get.1 arguments).outcome p l
          = process p now l (.get i.docType i.slot) := Call.outcome_of_request hname hmade
      rw [houtcome, hl.get_eq_ok_iff]
      constructor
      · rintro ⟨r, hr⟩
        exact ⟨i, r, rfl, hr⟩
      · rintro ⟨j, r, hj, hr⟩
        obtain rfl := Option.some.inj hj
        exact ⟨r, hr⟩

/-- Records that obey the rules share a slot exactly if they have one identity. So after every run a
call for a record succeeds exactly if a record of the identity that its arguments name is held, and
answers this record; and of the two agencies of a pair either may be named first. -/
theorem slots_identify (p : Policy) (calls : List Call) :
    (∀ r s : Record, r.validate = .ok () → s.validate = .ok () →
        (r.slot = s.slot ↔ r.identity = s.identity)) ∧
      (∀ get ∈ gets, ∀ (q : Policy) (now : Instant) (arguments : List String) (o : Outcome),
        (Call.mk now get.1 arguments).outcome q (run p calls) = .ok o ↔
          ∃ i r, get.2 arguments = some i ∧ Holds (run p calls) r ∧ r.identity = i ∧
            o = .found r) ∧
      ∀ name ∈ pairScoped, ∀ (q : Policy) (now : Instant) (a b : String) (rest : List String),
        (Call.mk now name (a :: b :: rest)).outcome q (run p calls)
            = (Call.mk now name (b :: a :: rest)).outcome q (run p calls) ∧
          (Call.mk now name (a :: b :: rest)).step q (run p calls)
            = (Call.mk now name (b :: a :: rest)).step q (run p calls) := by
  refine ⟨fun r s hr _ => Record.slot_eq_iff hr, fun get hget q now arguments o =>
    (wellKept_run p calls).outcome_get_iff hget, fun name hname q now a b rest => ?_⟩
  have houtcome := Call.outcome_swap hname q (run p calls) now a b rest
  exact ⟨houtcome, by rw [Call.step_eq, Call.step_eq, houtcome]⟩

theorem slots_identify_signedBill :
    let swapped := Record.settlement { signedBill with payor := "B", payee := "A" }
    (signedRecord.slot = swapped.slot ↔ signedRecord.identity = swapped.identity) ∧
      (∃ o, (Call.mk signedTime "GetSettlement" ["B", "A", "S1"]).outcome openPolicy
        (run openPolicy [signedCall]) = .ok o) ∧
      (Call.mk signedTime "GetSettlement" ["A", "B", "S1"]).step openPolicy
          (run openPolicy [signedCall])
        = (Call.mk signedTime "GetSettlement" ["B", "A", "S1"]).step openPolicy
          (run openPolicy [signedCall]) := by
  have hfind : (run openPolicy [signedCall]).find? signedRecord.slot
      = some signedRecord.encode := by
    rw [run_signedCall, Ledger.find?_write]
  obtain ⟨hslots, hgets, hswap⟩ := slots_identify openPolicy [signedCall]
  refine ⟨hslots _ _ rfl rfl, ⟨.found signedRecord.asRead, ?_⟩, (hswap _ (by decide) _ _ _ _ _).2⟩
  have hget : gets[6] ∈ gets := List.getElem_mem (by decide)
  exact (hgets _ hget openPolicy signedTime ["B", "A", "S1"] _).2 ⟨_, signedRecord.asRead, rfl,
    ⟨_, _, hfind, signedRecord.held_encode.decode_eq⟩,
    congrArg (Identity.settlement · "S1") Sym2.eq_swap, rfl⟩

end House

end TollClearing
