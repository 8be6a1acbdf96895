import TollClearing.Proofs.House.Listing

/-!
Corrections of a charge are numbered from one on, none is left out, and a query lists them in the
order of their numbers.
-/

set_option autoImplicit false

namespace TollClearing

/-- Numbers in ascending order none of which is left out. -/
theorem eq_range'_of_gapless {ns : List Nat} {first : Nat} (hsorted : ns.Pairwise (· < ·))
    (hfirst : ∀ n ∈ ns, first ≤ n) (hgap : ∀ n ∈ ns, first < n → n - 1 ∈ ns) :
    ns = List.range' first ns.length := by
  induction ns generalizing first with
  | nil => rfl
  | cons m ns ih =>
    obtain ⟨hm, hns⟩ := List.pairwise_cons.1 hsorted
    obtain rfl : m = first := by
      by_contra hne
      have hlt : first < m := Nat.lt_of_le_of_ne (hfirst m List.mem_cons_self) (Ne.symm hne)
      rcases List.mem_cons.1 (hgap m List.mem_cons_self hlt) with heq | hmem
      · omega
      · have := hm _ hmem
        omega
    have hrest : ns = List.range' (m + 1) ns.length := by
      refine ih hns (fun n hn => hm n hn) fun n hn hlt => ?_
      rcases List.mem_cons.1 (hgap n (List.mem_cons_of_mem m hn) (by omega)) with heq | hmem
      · omega
      · exact hmem
    rw [List.length_cons, List.range'_succ, ← hrest]

namespace House

/-- Every correction that is held follows one that is held, if it is not the first. -/
def Numbered (l : Ledger) : Prop :=
  ∀ slot (c : Correction) n, recordAt? l slot = some (.correction c) → c.predecessor? = some n →
    (l.find? (Function.chargeSlot c.away c.home (Key.correction c.charge n))).isSome

theorem isSome_of_requirePredecessor {l : Ledger} {k : Correction} {n : Nat}
    (h : requirePredecessor l k = .ok ()) (hn : k.predecessor? = some n) :
    (l.find? (Function.chargeSlot k.away k.home (Key.correction k.charge n))).isSome := by
  simp only [requirePredecessor, hn, bind_eq_ok] at h
  obtain ⟨value, hvalue, h⟩ := h
  cases value with
  | none => cases h
  | some bytes =>
    rw [lookUp_eq_ok hvalue]
    rfl

theorem requirePredecessor_of_create {p : Policy} {now : Instant} {l : Ledger} {k : Correction}
    {o : Outcome} (h : create p now l (.correction k) = .ok o) :
    requirePredecessor l k = .ok () := by
  obtain ⟨-, -, hreferences, -⟩ := create_eq_ok h
  simp only [checkReferences, bind_eq_ok] at hreferences
  obtain ⟨_, -, hpredecessor⟩ := hreferences
  exact hpredecessor

section Steps

variable {p : Policy} {l : Ledger} (hl : WellKept l)

include hl

theorem WellKept.isSome_find?_step {slot : Slot} (h : (l.find? slot).isSome) (c : Call) :
    ((c.step p l).find? slot).isSome := by
  obtain ⟨bytes, hbytes⟩ := Option.isSome_iff_exists.1 h
  obtain ⟨r, hr⟩ := hl.exists_recordAt? hbytes
  obtain ⟨r', hr', -⟩ := hl.history_step (p := p) hr c
  obtain ⟨bytes', hbytes', -⟩ := Option.bind_eq_some_iff.1 hr'
  exact Option.isSome_iff_exists.2 ⟨bytes', hbytes'⟩

theorem WellKept.recordAt?_of_step {slot : Slot} {bytes : ByteArray} {c : Call} {k : Correction}
    (hfind : l.find? slot = some bytes) (h : recordAt? (c.step p l) slot = some (.correction k)) :
    recordAt? l slot = some (.correction k) := by
  obtain ⟨r, hr⟩ := hl.exists_recordAt? hfind
  obtain ⟨r', hr', hhistory⟩ := hl.history_step hr c
  obtain rfl : r' = .correction k := Option.some.inj (hr'.symm.trans h)
  have hclosed : r.closed = true := by
    have hkind := hhistory.docType_eq
    cases r <;> first | rfl | cases hkind
  rwa [recordAt?, ← hhistory.find?_eq_of_closed hclosed]

/-- A new correction finds the one before it, and whatever is held stays. -/
theorem WellKept.numbered_step (hnumbered : Numbered l) (c : Call) : Numbered (c.step p l) := by
  intro slot k n h hn
  refine hl.isSome_find?_step ?_ c
  cases hfind : l.find? slot with
  | some bytes => exact hnumbered slot k n (hl.recordAt?_of_step hfind h) hn
  | none =>
    obtain ⟨new, o, hcreate, hk⟩ := hl.exists_create_of_new hfind h
    cases new with
    | correction k' =>
      rw [Record.correction.inj hk] at hn ⊢
      have hpredecessor : k'.predecessor? = some n := hn
      have hfound :=
        isSome_of_requirePredecessor (requirePredecessor_of_create hcreate) hpredecessor
      exact hfound
    | _ => cases hk

end Steps

theorem numbered_run (p : Policy) (calls : List Call) : Numbered (run p calls) := by
  induction calls using List.reverseRecOn with
  | nil =>
    intro slot k n h
    rw [run, List.foldl_nil, recordAt?_empty] at h
    cases h
  | append_singleton before c ih =>
    rw [run_append]
    exact (wellKept_run p before).numbered_step ih c

/-- The corrections of a charge that a scope holds, in the order of their keys. -/
def correctionsOf (l : Ledger) (scope : Scope) (id : String) : List Correction :=
  (stored Correction l scope).filter (·.charge = id)

theorem mem_correctionsOf {l : Ledger} {scope : Scope} {id : String} {k : Correction} :
    k ∈ correctionsOf l scope id ↔ k ∈ stored Correction l scope ∧ k.charge = id := by
  rw [correctionsOf, List.mem_filter, decide_eq_true_eq]

def numbersOf (l : Ledger) (scope : Scope) (id : String) : List Nat :=
  (correctionsOf l scope id).map (·.number.toNat)

section Numbers

variable {l : Ledger} (hl : WellKept l) {scope : Scope}

include hl

theorem WellKept.number_mem_range {k : Correction} (h : k ∈ stored Correction l scope) :
    1 ≤ k.number.toNat ∧ k.number.toNat ≤ Correction.maxNumber := by
  have hranges := Record.validate_eq_ok.1 (hl.validate_stored h) .ranges
  simp only [Recorded.toRecord, Record.check, Correction.check, bind_eq_ok] at hranges
  obtain ⟨_, -, _, -, _, -, _, hnumber, -⟩ := hranges
  have hbounds := Rule.ensure_eq_ok.1 hnumber
  rw [Bool.and_eq_true, decide_eq_true_eq, decide_eq_true_eq] at hbounds
  exact ⟨by omega, by omega⟩

theorem WellKept.exists_predecessor (hnumbered : Numbered l) {k : Correction}
    (h : k ∈ stored Correction l scope) (hlater : 1 < k.number.toNat) :
    ∃ k' ∈ stored Correction l scope, k'.charge = k.charge ∧
      k'.number.toNat = k.number.toNat - 1 := by
  obtain ⟨key, hk⟩ := mem_stored_iff.1 h
  have hpredecessor : k.predecessor? = some (k.number.toNat - 1) :=
    if_neg (Nat.not_le_of_lt hlater)
  obtain ⟨bytes, hfind⟩ := Option.isSome_iff_exists.1 (hnumbered _ k _ hk hpredecessor)
  have hidentity : Function.chargeSlot k.away k.home (Key.correction k.charge (k.number.toNat - 1))
      = (Identity.correction s(k.away, k.home) k.charge (k.number.toNat - 1)).slot := rfl
  -- a slot was all that the check looked at; what lies in it is the correction of this number
  rw [hidentity] at hfind
  obtain ⟨r, rfl, hr, -⟩ := hl.exists_of_find? hfind
  have hscope : scope = .partition (Key.chargePartition k.away k.home) :=
    (congrArg Slot.scope (hl.slot_of_recordAt? hk)).symm
  subst hscope
  cases r with
  | correction k' =>
    obtain ⟨-, hcharge, hnumber⟩ := Identity.correction.inj hr
    have hheld : recordAt? l (Identity.correction s(k.away, k.home) k.charge
        (k.number.toNat - 1)).slot = some (Record.correction k').asRead := recordAt?_of_find? hfind
    exact ⟨k'.asRead, mem_stored_iff.2 ⟨_, hheld⟩, hcharge, hnumber⟩
  | _ => cases hr

theorem WellKept.ascending_numbersOf (scope : Scope) (id : String) :
    (numbersOf l scope id).Pairwise (· < ·) := by
  have hkeys : (correctionsOf l scope id).Pairwise fun k k' =>
      Key.correction k.charge k.number.toNat < Key.correction k'.charge k'.number.toNat :=
    (List.pairwise_map.1 (hl.ascending_keys_stored Correction scope)).filter _
  have hmost : Correction.maxNumber < tenTo 3 := by decide
  refine List.pairwise_map.2 (List.Pairwise.imp_of_mem ?_ hkeys)
  intro k k' hk hk' hlt
  obtain ⟨hstored, rfl⟩ := mem_correctionsOf.1 hk
  obtain ⟨hstored', hcharge⟩ := mem_correctionsOf.1 hk'
  rw [hcharge] at hlt
  exact (Key.correction_lt_iff ((hl.number_mem_range hstored).2.trans_lt hmost)
    ((hl.number_mem_range hstored').2.trans_lt hmost)).1 hlt

/-- The numbers of the corrections of one charge are the first ones, each once, in order. -/
theorem WellKept.exists_numbersOf_eq (hnumbered : Numbered l) (scope : Scope) (id : String) :
    ∃ n, n ≤ Correction.maxNumber ∧ numbersOf l scope id = List.range' 1 n := by
  have hbound : ∀ n ∈ numbersOf l scope id, 1 ≤ n ∧ n ≤ Correction.maxNumber := by
    intro n hn
    obtain ⟨k, hk, rfl⟩ := List.mem_map.1 hn
    exact hl.number_mem_range (mem_correctionsOf.1 hk).1
  have hgap : ∀ n ∈ numbersOf l scope id, 1 < n → n - 1 ∈ numbersOf l scope id := by
    intro n hn hlater
    obtain ⟨k, hk, rfl⟩ := List.mem_map.1 hn
    obtain ⟨hstored, hcharge⟩ := mem_correctionsOf.1 hk
    obtain ⟨k', hk', hsame, hnumber⟩ := hl.exists_predecessor hnumbered hstored hlater
    exact List.mem_map.2 ⟨k', mem_correctionsOf.2 ⟨hk', hsame.trans hcharge⟩, hnumber⟩
  have hnumbers := eq_range'_of_gapless (hl.ascending_numbersOf scope id)
    (fun n hn => (hbound n hn).1) hgap
  refine ⟨_, ?_, hnumbers⟩
  by_contra hmany
  have hbeyond : Correction.maxNumber + 1 ∈ numbersOf l scope id := by
    rw [hnumbers, List.mem_range'_1]
    omega
  have := (hbound _ hbeyond).2
  omega

end Numbers

/-- A query for the corrections of a charge looks at the charge that they name. -/
theorem accepts_originalCharge (id : String) (r : Record) :
    (kindSelector .correction [("originalChargeID", id)]).accepts r.toJson
      = (Recorded.ofRecord? r.asRead : Option Correction).any (·.charge = id) := by
  rw [accepts_kindSelector (by simp [Record.docTypeName])]
  cases r with
  | correction k => simp [Record.docType, Record.asRead, Correction.asRead, Recorded.ofRecord?]
  | _ => rfl

theorem WellKept.outcome_corrections {l : Ledger} (hl : WellKept l) (q : Policy) (now : Instant)
    (a b id : String) :
    (Call.mk now "QueryCorrectionsByCharge" [a, b, id]).outcome q l
      = .ok (.listed (((correctionsOf l (.partition (Key.chargePartition a b)) id).take
          q.limit).map .correction)) := by
  have hscope : Ledger.checkScope (.partition (Key.chargePartition a b)) = .ok () :=
    if_neg (Key.partition_ne_empty "charges" a b)
  have hlist : list q l .correction (.partition (Key.chargePartition a b))
      [("originalChargeID", id)] = .ok (.listed (((correctionsOf l
        (.partition (Key.chargePartition a b)) id).take q.limit).map .correction)) :=
    hl.list_eq (R := Correction) (fun _ => rfl) (accepts_originalCharge id) hscope
  obtain ⟨f, hname, hrequest⟩ : ∃ f, Function.ofName? "QueryCorrectionsByCharge" = some f ∧
      f.request [a, b, id] = .ok (.list .correction (.partition (Key.chargePartition a b))
        [("originalChargeID", id)]) := ⟨_, rfl, rfl⟩
  exact (Call.outcome_of_request (c := ⟨now, _, _⟩) hname hrequest).trans hlist

/-- After every run the corrections of a charge between two agencies have the numbers from one on,
each once and none beyond the last one allowed, and the query for them, whichever agency it names
first, lists them in this order, up to the limit. The standard limit cuts off none. -/
theorem corrections_numbered (p : Policy) (calls : List Call) (a b id : String) :
    let scope := Scope.partition (Key.chargePartition a b)
    ∃ n, n ≤ Correction.maxNumber ∧ numbersOf (run p calls) scope id = List.range' 1 n ∧
      (∀ (q : Policy) (now : Instant), ∃ ks,
        (Call.mk now "QueryCorrectionsByCharge" [a, b, id]).outcome q (run p calls)
            = .ok (.listed (ks.map .correction)) ∧
          (Call.mk now "QueryCorrectionsByCharge" [b, a, id]).outcome q (run p calls)
            = .ok (.listed (ks.map .correction)) ∧
          ks = (correctionsOf (run p calls) scope id).take q.limit ∧
          ks.map (·.number.toNat) = List.range' 1 (min n q.limit)) ∧
      (correctionsOf (run p calls) scope id).take Policy.standard.limit
        = correctionsOf (run p calls) scope id := by
  intro scope
  have hkept := wellKept_run p calls
  obtain ⟨n, hn, hnumbers⟩ := hkept.exists_numbersOf_eq (numbered_run p calls) scope id
  refine ⟨n, hn, hnumbers, fun q now => ⟨_, hkept.outcome_corrections q now a b id, ?_, rfl, ?_⟩,
    List.take_of_length_le ?_⟩
  · rw [Call.outcome_swap (by decide), hkept.outcome_corrections]
  · rw [List.map_take]
    change (numbersOf (run p calls) scope id).take q.limit = _
    rw [hnumbers, List.range'_eq_map_range, ← List.map_take, List.take_range, Nat.min_comm,
      ← List.range'_eq_map_range]
  · have hlength : (numbersOf (run p calls) scope id).length = n := by
      rw [hnumbers, List.length_range']
    rw [numbersOf, List.length_map] at hlength
    have hstandard : Correction.maxNumber ≤ Policy.standard.limit := by decide
    omega

end House

end TollClearing
