import TollClearing.Proofs.House.Query

/-!
Faults of calls. After every run a call that is turned down is itself at fault: what it names is
unknown, wrong, missing or already there. None finds the ledger in disorder or a table incomplete,
and no bill of fewer charges than a count of 32 bits holds is too large to be told.
-/

set_option autoImplicit false

namespace TollClearing.House

namespace Fault

/-- The fault lies with what the ledger holds, with a name that was made up for it, or with a
table, and not with the call. -/
def internal : Fault → Bool
  | .unreadable .. | .emptyName _ | .refused (.unknownState ..) => true
  | _ => false

def callerKinds : List String :=
  ["ParseError", "ValidationError", "DuplicateError", "NotFoundError", "InvalidTransitionError",
    "InvalidEnumError", "UnknownFunctionError", "ArgumentError"]

theorem kind_mem_callerKinds {fault : Fault} (h : fault.internal = false) :
    fault.kind ∈ callerKinds := by
  cases fault with
  | rejected v => cases v <;> simp [kind, callerKinds]
  | unreadable key c => cases h
  | emptyName e => cases h
  | _ => simp [kind, callerKinds]

end Fault

section Sound

variable {α β : Type}

/-- A step that yields something of which `P` holds, or is turned down by a fault of the call. -/
inductive Sound (P : α → Prop) : Except Fault α → Prop where
  | ok {a : α} (h : P a) : Sound P (.ok a)
  | error {fault : Fault} (h : fault.internal = false) : Sound P (.error fault)

theorem Sound.bind {P : α → Prop} {Q : β → Prop} {x : Except Fault α} {f : α → Except Fault β}
    (hx : Sound P x) (hf : ∀ a, P a → Sound Q (f a)) : Sound Q (x >>= f) := by
  cases hx with
  | ok h => exact hf _ h
  | error h => exact .error h

theorem Sound.of_eq_ok {P : α → Prop} {x : Except Fault α} {a : α} (h : x = .ok a) (ha : P a) :
    Sound P x := by
  rw [h]
  exact .ok ha

theorem Sound.internal_eq {P : α → Prop} {fault : Fault} (h : Sound P (.error fault)) :
    fault.internal = false := by
  cases h with
  | error h => exact h

end Sound

/-- What the functions ask for: a record of each kind by an identity of this kind, and a state of
this kind. -/
inductive Request.Addressed : Request → Prop where
  | create (r : Record) : Addressed (.create r)
  | get (i : Identity) : Addressed (.get i.docType i.slot)
  | advance (i : Identity) {m : Move} (h : m.docType = i.docType) : Addressed (.advance i.slot m)
  | query (Q : Query) : Addressed Q.request
  | total (P : Period) : Addressed (.total P)

section Requests

open Request

namespace Function

theorem sound_state (R : Type) {σ : Type} [Code σ] [Staged R σ] (argument : String) :
    Sound (fun _ : σ => True) (state R argument) := by
  unfold state
  split
  · exact .ok trivial
  · exact .error rfl

theorem sound_disposition (argument : String) : Sound (fun _ => True) (disposition argument) := by
  unfold disposition
  split
  · exact .ok trivial
  · exact .error rfl

theorem sound_number (parameter argument : String) :
    Sound (fun _ => True) (number parameter argument) := by
  unfold number
  split
  · exact .ok trivial
  · exact .error rfl

theorem sound_date (parameter argument : String) :
    Sound (fun _ => True) (date parameter argument) := by
  unfold date
  split
  · exact .ok trivial
  · exact .error rfl

theorem sound_record (docType : DocType) (argument : String) :
    Sound Addressed (record docType argument) := by
  unfold record
  split
  · exact .ok (.create _)
  · exact .error rfl

theorem sound_read : ∀ f ∈ all, ∀ a, Sound Addressed (f.read a) := by
  simp only [all, agencies, tags, charges, corrections, reconciliations, acknowledgements,
    settlements, createRecord, List.forall_mem_append, List.forall_mem_cons, List.not_mem_nil,
    false_implies, implies_true, and_true, and_assoc]
  exact ⟨fun a => sound_record .agency _,
    fun a => .ok (.get (.agency a[0])),
    fun a => (sound_state Agency _).bind fun s _ => .ok (.advance (.agency a[0]) rfl),
    fun a => (sound_state Agency _).bind fun s _ => .ok (.query (.agenciesIn s)),
    fun a => sound_record .tag _,
    fun a => .ok (.get (.tag a[0] a[1])),
    fun a => (sound_state Tag _).bind fun s _ => .ok (.advance (.tag a[0] a[1]) rfl),
    fun a => .ok (.query (.tagsOf a[0])),
    fun a => (sound_state Tag _).bind fun s _ => .ok (.query (.tagsIn a[0] s)),
    fun a => sound_record .charge _,
    fun a => .ok (.get (.charge s(a[0], a[1]) a[2])),
    fun a => (sound_state Charge _).bind fun s _ => .ok (.advance (.charge s(a[0], a[1]) a[2]) rfl),
    fun a => (sound_state Charge _).bind fun s _ => .ok (.query (.chargesIn s(a[0], a[1]) s)),
    fun a => .ok (.query (.chargesBy s(a[0], a[1]) a[2] a[3])),
    fun a => sound_record .correction _,
    fun a => (sound_number _ _).bind fun n _ => .ok (.get (.correction s(a[0], a[1]) a[2] n)),
    fun a => .ok (.query (.correctionsOf s(a[0], a[1]) a[2])),
    fun a => sound_record .reconciliation _,
    fun a => .ok (.get (.reconciliation s(a[0], a[1]) a[2])),
    fun a => (sound_disposition _).bind fun d _ =>
      .ok (.query (.reconciliationsWith s(a[0], a[1]) d)),
    fun a => sound_record .acknowledgement _,
    fun a => .ok (.get (.acknowledgement a[0])),
    fun a => .ok (.query (.acknowledgementsTo a[0])),
    fun a => sound_record .settlement _,
    fun a => .ok (.get (.settlement s(a[0], a[1]) a[2])),
    fun a => (sound_state Settlement _).bind fun s _ =>
      .ok (.advance (.settlement s(a[0], a[1]) a[2]) rfl),
    fun a => (sound_state Settlement _).bind fun s _ =>
      .ok (.query (.settlementsIn s(a[0], a[1]) s)),
    fun a => (sound_date _ _).bind fun start _ => (sound_date _ _).bind fun stop _ =>
      .ok (.total ⟨a[0], a[1], start, stop⟩)⟩

theorem sound_request {f : Function} (h : f ∈ all) (arguments : List String) :
    Sound Addressed (f.request arguments) := by
  unfold request
  split
  · exact sound_read f h _
  · exact .error rfl

end Function

end Requests

theorem sound_accepted (c : Check) : Sound (fun _ => True) (accepted c) := by
  cases c with
  | ok _ => exact .ok trivial
  | error v => exact .error rfl

theorem sound_requireInitial {R σ : Type} [Code σ] [DecidableEq σ] [Staged R σ] (r : R) :
    Sound (fun _ => True) (requireInitial r) := by
  unfold requireInitial
  cases Staged.status r with
  | none => exact .error rfl
  | some s =>
    dsimp only
    split
    · exact .ok trivial
    · exact .error rfl

theorem sound_checkInitial (r : Record) : Sound (fun _ => True) (checkInitial r) := by
  cases r with
  | charge c => exact sound_requireInitial c
  | settlement s => exact sound_requireInitial s
  | _ => exact .ok trivial

section Lookups

variable {l : Ledger}

theorem sound_lookUp (i : Identity) : Sound (l.find? i.slot = ·) (lookUp l i.slot) :=
  .of_eq_ok (lookUp_eq_find? i.checkSlot_slot) rfl

theorem sound_valueIn (i : Identity) :
    Sound (fun bytes => l.find? i.slot = some bytes) (valueIn l i.slot) := by
  refine (sound_lookUp i).bind fun value hvalue => ?_
  cases value with
  | none => exact .error rfl
  | some bytes => exact .ok hvalue

theorem sound_requireAgency (p : Policy) (id : String) :
    Sound (fun _ => True) (requireAgency p l id) := by
  unfold requireAgency
  split
  · exact (sound_valueIn (.agency id)).bind fun _ _ => .ok trivial
  · exact .ok trivial

theorem sound_requirePredecessor (k : Correction) :
    Sound (fun _ => True) (requirePredecessor l k) := by
  unfold requirePredecessor
  split
  · exact .ok trivial
  · rename_i n _
    refine (sound_lookUp (.correction s(k.away, k.home) k.charge n)).bind fun value _ => ?_
    cases value with
    | some bytes => exact .ok trivial
    | none => exact .error rfl

end Lookups

/-- The table of a kind lists every state of it, those included that none follows. -/
def Exhaustive (R : Type) {σ : Type} [Code σ] [DecidableEq σ] [Staged R σ] : Prop :=
  ∀ s, ((Staged.transitions R).next? s).isSome

theorem exhaustive_agency : Exhaustive Agency := by
  intro s
  cases s <;> rfl

theorem exhaustive_tag : Exhaustive Tag := by
  intro s
  cases s <;> rfl

theorem exhaustive_charge : Exhaustive Charge := by
  intro s
  cases s <;> rfl

theorem exhaustive_settlement : Exhaustive Settlement := by
  intro s
  cases s <;> rfl

section WellKept

variable {l : Ledger} (hl : WellKept l)

include hl

theorem WellKept.sound_readAs {R : Type} [Recorded R] {i : Identity} {bytes : ByteArray}
    (hkind : ∀ r : Record, r.docType = i.docType → ∃ a : R, Recorded.toRecord a = r)
    (hfind : l.find? i.slot = some bytes) (key : String) :
    Sound (fun a : R => (Recorded.toRecord a).validate = .ok ()) (readAs R key bytes) := by
  -- the key tells the kind, so that no record of another one lies here
  obtain ⟨s, rfl, rfl, horder⟩ := hl.exists_of_find? hfind
  obtain ⟨a, ha⟩ := hkind s.asRead (by simp)
  exact .of_eq_ok (readAs_encode (Recorded.ofRecord?_eq_some_iff.2 ha.symm) key)
    (ha ▸ Record.validate_asRead horder.validate)

theorem WellKept.sound_fetch {R : Type} [Recorded R] {i : Identity}
    (hkind : ∀ r : Record, r.docType = i.docType → ∃ a : R, Recorded.toRecord a = r) :
    Sound (fun a : R => (Recorded.toRecord a).validate = .ok ()) (fetch R l i.slot) :=
  (sound_valueIn i).bind fun _ hfind => hl.sound_readAs hkind hfind _

theorem WellKept.sound_requireCharge (id away home : String) :
    Sound (fun _ => True) (requireCharge l id away home) := by
  refine (hl.sound_fetch (i := .charge s(away, home) id)
    fun _ => DocType.exists_toRecord).bind fun c _ => ?_
  split
  · exact .ok trivial
  · exact .error rfl

theorem WellKept.sound_checkReferences (p : Policy) (r : Record) :
    Sound (fun _ => True) (checkReferences p l r) := by
  cases r with
  | tag t =>
    refine (sound_requireAgency p _).bind fun _ _ => ?_
    split
    · exact .ok trivial
    · exact sound_requireAgency p _
  | charge c => exact (sound_requireAgency p _).bind fun _ _ => sound_requireAgency p _
  | settlement s => exact (sound_requireAgency p _).bind fun _ _ => sound_requireAgency p _
  | correction k =>
    exact (hl.sound_requireCharge _ _ _).bind fun _ _ => sound_requirePredecessor k
  | reconciliation r => exact hl.sound_requireCharge _ _ _
  | _ => exact .ok trivial

variable (p : Policy) (now : Instant)

theorem WellKept.sound_insert (r : Record) : Sound (fun _ => True) (insert p now l r) := by
  rw [insert, ← r.slot_identity]
  refine (sound_lookUp r.identity).bind fun value _ => ?_
  cases value with
  | some bytes => exact .error rfl
  | none => exact (hl.sound_checkReferences p r).bind fun _ _ => .ok trivial

theorem WellKept.sound_supersede (r : Reconciliation) :
    Sound (fun _ => True) (supersede p now l r) := by
  refine (sound_lookUp (Record.reconciliation r).identity).bind fun value hfind => ?_
  cases value with
  | none => exact hl.sound_insert p now _
  | some bytes =>
    refine (hl.sound_readAs (fun _ => DocType.exists_toRecord) hfind _).bind fun first _ => ?_
    split
    · exact .error rfl
    · exact (hl.sound_checkReferences p _).bind fun _ _ => .ok trivial

theorem WellKept.sound_create (r : Record) : Sound (fun _ => True) (create p now l r) := by
  refine (sound_accepted _).bind fun _ _ => (sound_checkInitial r).bind fun _ _ => ?_
  split
  · exact hl.sound_supersede p now _
  · exact hl.sound_insert p now _

theorem WellKept.sound_get (i : Identity) :
    Sound (fun _ => True) (process p now l (.get i.docType i.slot)) := by
  refine (sound_valueIn i).bind fun bytes hfind => ?_
  obtain ⟨s, rfl, rfl, -⟩ := hl.exists_of_find? hfind
  rw [s.docType_identity, readRecord_encode]
  exact .ok trivial

theorem WellKept.sound_advance {R σ : Type} [Code σ] [DecidableEq σ] [Staged R σ] {i : Identity}
    (hkind : ∀ r : Record, r.docType = i.docType → ∃ a : R, Recorded.toRecord a = r)
    (hset : ∀ a : R, (Recorded.toRecord a).StatusSet → (Staged.status a).isSome)
    (hlisted : Exhaustive R) (target : σ) :
    Sound (fun _ => True) (advance R now l i.slot target) := by
  refine (hl.sound_fetch hkind).bind fun a ha => ?_
  obtain ⟨source, hsource⟩ := Option.isSome_iff_exists.1 (hset a (Record.statusSet_of_validate ha))
  obtain ⟨targets, htargets⟩ := Option.isSome_iff_exists.1 (hlisted source)
  by_cases hallowed : targets.contains target
  · simp only [hsource, Transitions.check, htargets, hallowed, if_true]
    exact .ok trivial
  · simp only [hsource, Transitions.check, htargets, hallowed]
    exact .error rfl

theorem WellKept.sound_process_advance {i : Identity} {m : Move} (h : m.docType = i.docType) :
    Sound (fun _ => True) (process p now l (.advance i.slot m)) := by
  cases m with
  | agency s =>
    exact hl.sound_advance now (fun _ hr => DocType.exists_toRecord (hr.trans h.symm))
      (fun _ => id) exhaustive_agency s
  | tag s =>
    exact hl.sound_advance now (fun _ hr => DocType.exists_toRecord (hr.trans h.symm))
      (fun _ => id) exhaustive_tag s
  | charge s =>
    exact hl.sound_advance now (fun _ hr => DocType.exists_toRecord (hr.trans h.symm))
      (fun _ => id) exhaustive_charge s
  | settlement s =>
    exact hl.sound_advance now (fun _ hr => DocType.exists_toRecord (hr.trans h.symm))
      (fun _ => id) exhaustive_settlement s

theorem WellKept.sound_total (P : Period) : Sound (fun _ => True) (total l P) := by
  refine (sound_accepted _).bind fun _ _ => (sound_accepted _).bind fun _ _ => ?_
  obtain ⟨hcharges, hcorrections⟩ := hl.recordsIn_period P
  refine Sound.bind (.of_eq_ok hcharges rfl) fun charges _ => ?_
  refine Sound.bind (.of_eq_ok hcorrections rfl) fun corrections _ => ?_
  split
  · exact .ok trivial
  · exact .error rfl

theorem WellKept.sound_process {request : Request} (h : request.Addressed) :
    Sound (fun _ => True) (process p now l request) := by
  cases h with
  | create r => exact hl.sound_create p now r
  | get i => exact hl.sound_get p now i
  | advance i h => exact hl.sound_process_advance p now h
  | query Q =>
    obtain ⟨rs, hlisted, -⟩ := hl.process_query p now Q
    exact .of_eq_ok hlisted trivial
  | total P => exact hl.sound_total P

theorem WellKept.sound_outcome (c : Call) : Sound (fun _ => True) (c.outcome p l) := by
  rw [Call.outcome_eq, invoke]
  split
  · exact .error rfl
  · rename_i f hname
    exact (f.sound_request (mem_all_of_ofName? hname) c.arguments).bind
      fun _ h => hl.sound_process p c.now h

/-- A bill of few enough charges is not too large to be told. -/
theorem WellKept.total_ne_unrepresentable {P : Period}
    (hfew : (stored Charge l P.scope).length < 2 ^ 32) (member : String) :
    total l P ≠ .error (rejection member .unrepresentable) := by
  intro h
  -- the parties and the period are checked first, and what is wrong with them is told otherwise
  by_cases hparties : P.payor = P.payee
  · simp [total, accepted, Rule.distinct, Rule.ensure, hparties, bind, Except.bind,
      rejection] at h
  · by_cases hperiod : P.start < P.stop
    · obtain ⟨t, ht, -⟩ := hl.total_eq hparties hperiod hfew
      cases ht.symm.trans h
    · simp [total, accepted, Rule.distinct, Rule.ensure, Settlement.checkPeriod, hparties, hperiod,
        bind, Except.bind, rejection] at h

end WellKept

/-- A call for a bill names a period, or it is turned down before anything is looked at. -/
theorem outcome_total {c : Call} {payor payee : String} {dates : List String}
    (hname : c.name = "CalculateSettlementTotals")
    (harguments : c.arguments = payor :: payee :: dates) (q : Policy) (l : Ledger) :
    (∃ fault, c.outcome q l = .error fault ∧ ∀ v, fault ≠ .rejected v) ∨
      ∃ start stop, c.outcome q l = total l ⟨payor, payee, start, stop⟩ := by
  obtain ⟨now, name, arguments⟩ := c
  subst hname harguments
  rcases dates with _ | ⟨a, _ | ⟨b, _ | ⟨_, _⟩⟩⟩
  case cons.cons.nil =>
    obtain ⟨f, hname, hrequest⟩ := request_total payor payee a b
    cases hstart : Date.ofArgument? a with
    | none =>
      simp only [Function.date, hstart, bind, Except.bind] at hrequest
      exact .inl ⟨_, Call.outcome_of_no_request hname hrequest, by rintro v ⟨⟩⟩
    | some start =>
      cases hstop : Date.ofArgument? b with
      | none =>
        simp only [Function.date, hstart, hstop, bind, Except.bind] at hrequest
        exact .inl ⟨_, Call.outcome_of_no_request hname hrequest, by rintro v ⟨⟩⟩
      | some stop =>
        exact .inr ⟨start, stop, Call.AsksFor.outcome_eq ⟨rfl, _, _, rfl, hstart, hstop⟩ q l⟩
  -- any other number of dates is turned down before the dates are read
  all_goals exact .inl ⟨_, rfl, by rintro v ⟨⟩⟩

/-- In every ledger that calls lead to, a call that is turned down is so for what it names: the
ledger is never found in disorder, no name that is made up is empty, and no state is unknown to its
table. A bill is never too large to be told while there are fewer charges between its agencies than
32 bits count. -/
theorem faults_of_calls {allowed : Policy → Prop} {l : Ledger} (hl : Reachable allowed l)
    (q : Policy) (c : Call) (fault : Fault) (h : c.outcome q l = .error fault) :
    fault.kind ∈ Fault.callerKinds ∧ (∀ key why, fault ≠ .unreadable key why) ∧
      (∀ e, fault ≠ .emptyName e) ∧
      (∀ subject state, fault ≠ .refused (.unknownState subject state)) ∧
      ∀ payor payee dates, c.name = "CalculateSettlementTotals" →
        c.arguments = payor :: payee :: dates →
        (stored Charge l (.partition (Key.chargePartition payee payor))).length < 2 ^ 32 →
        ∀ member, fault ≠ rejection member .unrepresentable := by
  have hsound := hl.wellKept.sound_outcome q c
  rw [h] at hsound
  have hinternal := hsound.internal_eq
  refine ⟨Fault.kind_mem_callerKinds hinternal, ?_, ?_, ?_, ?_⟩
  · rintro key why rfl
    cases hinternal
  · rintro e rfl
    cases hinternal
  · rintro subject state rfl
    cases hinternal
  · rintro payor payee dates hname harguments hfew member rfl
    obtain ⟨other, hother, hnot⟩ | ⟨start, stop, htotal⟩ :=
      outcome_total hname harguments q l
    · exact hnot _ (Except.error.inj (hother.symm.trans h))
    · exact hl.wellKept.total_ne_unrepresentable (P := ⟨payor, payee, start, stop⟩) hfew member
        (htotal.symm.trans h)

theorem faults_of_calls_reversed :
    let c := Call.mk signedTime "CalculateSettlementTotals"
      ["A", "B", tollPeriod.stop.text, tollPeriod.start.text]
    ∃ fault, c.outcome openPolicy (run openPolicy [createToll, postToll]) = .error fault ∧
      fault.kind ∈ Fault.callerKinds ∧ ∀ member, fault ≠ rejection member .unrepresentable := by
  intro c
  have hcharges : stored Charge (run openPolicy [createToll, postToll]) tollPeriod.scope
      = [postedToll] := stored_of_rows [.charge postedToll] rows_tollCalls
  have hasks : c.AsksFor ⟨"A", "B", tollPeriod.stop, tollPeriod.start⟩ :=
    ⟨rfl, _, _, rfl, Date.ofArgument?_text _, Date.ofArgument?_text _⟩
  have houtcome : c.outcome openPolicy (run openPolicy [createToll, postToll])
      = .error (rejection "periodEnd" .periodReversed) := hasks.outcome_eq _ _
  obtain ⟨hkind, -, -, -, hbill⟩ :=
    faults_of_calls (reachable_run openPolicy [createToll, postToll]) openPolicy c _ houtcome
  refine ⟨_, houtcome, hkind, hbill "A" "B" _ rfl rfl ?_⟩
  have hfew : (stored Charge (run openPolicy [createToll, postToll]) tollPeriod.scope).length
      < 2 ^ 32 := by
    rw [hcharges]
    decide
  exact hfew

end TollClearing.House
