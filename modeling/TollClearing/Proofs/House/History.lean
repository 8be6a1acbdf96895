import TollClearing.Proofs.House.Update

/-!
The history of a record. Between two points of a run it keeps everything but its state and the time
of its last write, and its state follows the table, one step for each update that has succeeded.
-/

set_option autoImplicit false

namespace TollClearing

open House

namespace Record

/-- The record without its state and the time of its last write. -/
def lasting : Record → Record
  | .agency a => .agency { a with status := none, updatedAt := none }
  | .tag t => .tag { t with status := none, updatedAt := none }
  | .charge c => .charge { c with status := none, updatedAt := none }
  | .correction c => .correction { c with updatedAt := none }
  | .reconciliation r => .reconciliation { r with updatedAt := none }
  | .acknowledgement a => .acknowledgement { a with updatedAt := none }
  | .settlement s => .settlement { s with status := none, updatedAt := none }

@[simp] theorem lasting_moved (r : Record) (m : Move) : (r.moved m).lasting = r.lasting := by
  cases m <;> cases r <;> rfl

@[simp] theorem lasting_stampUpdated (r : Record) (now : Instant) :
    (r.stampUpdated now).lasting = r.lasting := by
  cases r <;> rfl

@[simp] theorem docType_withTimes (r : Record) (created updated : Option Instant) :
    (r.withTimes created updated).docType = r.docType := by
  cases r <;> rfl

@[simp] theorem docType_stampUpdated (r : Record) (now : Instant) :
    (r.stampUpdated now).docType = r.docType := r.docType_withTimes _ _

@[simp] theorem state?_stampUpdated (r : Record) (now : Instant) :
    (r.stampUpdated now).state? = r.state? := r.state?_withTimes _ _

@[simp] theorem asRead_asRead (r : Record) : r.asRead.asRead = r.asRead := by
  cases r <;> simp [asRead, Charge.asRead, Correction.asRead, Reconciliation.asRead,
    Settlement.asRead, Function.comp_def]

theorem asRead_moved (r : Record) (m : Move) : (r.moved m).asRead = r.asRead.moved m := by
  cases m <;> cases r <;> rfl

theorem asRead_stampUpdated (r : Record) (now : Instant) :
    (r.stampUpdated now).asRead = r.asRead.stampUpdated now := by
  cases r <;> rfl

theorem docType_of_state? {r : Record} {s : Move} (h : r.state? = some s) :
    s.docType = r.docType := by
  cases r <;> simp only [state?, Option.map_eq_some_iff, reduceCtorEq] at h <;>
    obtain ⟨state, -, rfl⟩ := h <;> rfl

/-- The record can change no more: it is in a final state, or of a kind without changes. -/
def closed : Record → Bool
  | .charge c => c.status = some .settled ∨ c.status = some .rejected
  | .settlement s => s.status = some .paid ∨ s.status = some .cancelled
  | .correction _ | .acknowledgement _ => true
  | .agency _ | .tag _ | .reconciliation _ => false

end Record

namespace House

theorem Move.docType_of_leadsTo {s m : Move} (h : s.leadsTo m = true) :
    m.docType = s.docType := by
  cases s <;> cases m <;> first | rfl | cases h

theorem Move.eq_of_isInitial {s : Move} (h : s.isInitial = true) :
    (s.docType = .charge → s = .charge .pending) ∧
      (s.docType = .settlement → s = .settlement .draft) := by
  cases s with
  | charge state => cases state <;> first | exact ⟨fun _ => rfl, nofun⟩ | cases h
  | settlement state => cases state <;> first | exact ⟨nofun, fun _ => rfl⟩ | cases h
  | agency state => exact ⟨nofun, nofun⟩
  | tag state => exact ⟨nofun, nofun⟩

theorem Move.eq_accepted_of_leadsTo_paid {s : Move}
    (h : s.leadsTo (.settlement .paid) = true) : s = .settlement .accepted := by
  cases s with
  | settlement state => cases state <;> first | rfl | cases h
  | _ => cases h

/-- A path along the tables from one state to another. -/
inductive Move.Path : Move → List Move → Move → Prop where
  | nil (s : Move) : Path s [] s
  | cons {s m t : Move} {moves : List Move} (h : s.leadsTo m = true) (rest : Path m moves t) :
    Path s (m :: moves) t

theorem Move.Path.append {s m t : Move} {moves more : List Move} (h : Path s moves m)
    (h' : Path m more t) : Path s (moves ++ more) t := by
  induction h with
  | nil s => exact h'
  | cons hleads _ ih => exact .cons hleads (ih h')

def recordAt? (l : Ledger) (slot : Slot) : Option Record :=
  (l.find? slot).bind fun bytes => (Record.decode bytes).toOption

/-- The state to which a call moves the record of a slot, if it is an update of this record and
succeeds. -/
def Call.move? (p : Policy) (l : Ledger) (slot : Slot) (c : Call) : Option Move :=
  match c.update?, c.outcome p l with
  | some (i, code), .ok _ => if i.slot = slot then Move.ofCode? i.docType code else none
  | _, _ => none

/-- The states to which calls move the record of a slot one after another. -/
def movesIn (p : Policy) (slot : Slot) : Ledger → List Call → List Move
  | _, [] => []
  | l, c :: calls => (c.move? p l slot).toList ++ movesIn p slot (c.step p l) calls

/-- What becomes of the record of a slot, `r` in one ledger and `r'` in a later one. -/
structure History (slot : Slot) (l l' : Ledger) (moves : List Move) (r r' : Record) : Prop where
  docType_eq : r'.docType = r.docType
  lasting_eq : r.docType ≠ .reconciliation → r'.lasting = r.lasting
  path : r.docType.staged = true →
    ∃ s s', r.state? = some s ∧ r'.state? = some s' ∧ Move.Path s moves s'
  moves_eq_nil : r.docType.staged = false → moves = []
  find?_eq : r.docType ≠ .reconciliation → moves = [] → l'.find? slot = l.find? slot

theorem History.trans {slot : Slot} {l l' l'' : Ledger} {moves more : List Move} {r r' r'' : Record}
    (h : History slot l l' moves r r') (h' : History slot l' l'' more r' r'') :
    History slot l l'' (moves ++ more) r r'' where
  docType_eq := h'.docType_eq.trans h.docType_eq
  lasting_eq hkind := (h'.lasting_eq (h.docType_eq ▸ hkind)).trans (h.lasting_eq hkind)
  path hstaged := by
    obtain ⟨s, t, hs, ht, hpath⟩ := h.path hstaged
    obtain ⟨t', u, ht', hu, hmore⟩ := h'.path (h.docType_eq ▸ hstaged)
    obtain rfl : t = t' := Option.some.inj (ht.symm.trans ht')
    exact ⟨s, u, hs, hu, hpath.append hmore⟩
  moves_eq_nil hstaged := by
    rw [h.moves_eq_nil hstaged, h'.moves_eq_nil (h.docType_eq ▸ hstaged)]
    rfl
  find?_eq hkind hmoves := by
    obtain ⟨hnone, hnone'⟩ := List.append_eq_nil_iff.1 hmoves
    exact (h'.find?_eq (h.docType_eq ▸ hkind) hnone').trans (h.find?_eq hkind hnone)

theorem recordAt?_empty (slot : Slot) : recordAt? .empty slot = none := by
  obtain ⟨scope, key⟩ := slot
  cases scope <;> rfl

theorem recordAt?_of_find? {l : Ledger} {slot : Slot} {r : Record}
    (h : l.find? slot = some r.encode) : recordAt? l slot = some r.asRead := by
  rw [recordAt?, h, Option.bind_some, r.held_encode.decode_eq]
  rfl

theorem recordAt?_write (l : Ledger) (slot : Slot) (r : Record) :
    recordAt? (l.write slot r.encode) slot = some r.asRead :=
  recordAt?_of_find? (Ledger.find?_write l slot r.encode)

theorem holds_of_recordAt? {l : Ledger} {slot : Slot} {r : Record} (h : recordAt? l slot = some r) :
    Holds l r := by
  obtain ⟨bytes, hfind, hdecode⟩ := Option.bind_eq_some_iff.1 h
  cases hread : Record.decode bytes with
  | error m => simp [hread, Except.toOption] at hdecode
  | ok found =>
    rw [hread] at hdecode
    exact ⟨slot, bytes, hfind, hread.trans (congrArg Except.ok (Option.some.inj hdecode))⟩

theorem WellKept.exists_of_recordAt? {l : Ledger} (hl : WellKept l) {slot : Slot} {r : Record}
    (h : recordAt? l slot = some r) :
    ∃ s : Record, l.find? slot = some s.encode ∧ s.asRead = r ∧ s.slot = slot ∧ InOrder s := by
  obtain ⟨bytes, hfind, hdecode⟩ := Option.bind_eq_some_iff.1 h
  obtain ⟨s, rfl, hslot, horder⟩ := hl slot bytes hfind
  rw [s.held_encode.decode_eq] at hdecode
  exact ⟨s, hfind, Option.some.inj hdecode, hslot, horder⟩

theorem WellKept.slot_of_recordAt? {l : Ledger} (hl : WellKept l) {slot : Slot} {r : Record}
    (h : recordAt? l slot = some r) : r.slot = slot := by
  obtain ⟨s, -, rfl, hslot, -⟩ := hl.exists_of_recordAt? h
  exact s.slot_asRead.trans hslot

theorem WellKept.identity_of_recordAt? {l : Ledger} (hl : WellKept l) {i : Identity} {r : Record}
    (h : recordAt? l i.slot = some r) : r.identity = i := by
  obtain ⟨s, -, rfl, hslot, horder⟩ := hl.exists_of_recordAt? h
  rw [s.identity_asRead]
  exact (Identity.slot_inj (Record.plain_identity horder.validate)).1 (s.slot_identity.trans hslot)

theorem WellKept.exists_recordAt? {l : Ledger} (hl : WellKept l) {slot : Slot} {bytes : ByteArray}
    (h : l.find? slot = some bytes) : ∃ r, recordAt? l slot = some r := by
  obtain ⟨s, rfl, rfl, -⟩ := hl slot bytes h
  exact ⟨s.asRead, recordAt?_of_find? h⟩

theorem WellKept.history_of_find?_eq {l l' : Ledger} (hl : WellKept l) {slot : Slot} {r : Record}
    (h : recordAt? l slot = some r) (hfind : l'.find? slot = l.find? slot) :
    recordAt? l' slot = some r ∧ History slot l l' [] r r := by
  obtain ⟨s, -, rfl, -, horder⟩ := hl.exists_of_recordAt? h
  refine ⟨by rwa [recordAt?, hfind], rfl, fun _ => rfl, fun hstaged => ?_, fun _ => rfl,
    fun _ _ => hfind⟩
  obtain ⟨state, hstate⟩ :=
    Record.exists_state (Record.validate_asRead horder.validate) hstaged
  exact ⟨state, state, hstate, hstate, .nil state⟩

def Request.move? (slot : Slot) : Request → Option Move
  | .advance target m => if target = slot then some m else none
  | _ => none

theorem Call.move?_of_error {p : Policy} {l : Ledger} {c : Call} {fault : Fault}
    (h : c.outcome p l = .error fault) (slot : Slot) : c.move? p l slot = none := by
  unfold move?
  rw [h]
  cases c.update? <;> rfl

theorem Call.move?_of_request {p : Policy} {l : Ledger} {c : Call} {f : Function}
    {request : Request} {o : Outcome} (hname : Function.ofName? c.name = some f)
    (hrequest : f.request c.arguments = .ok request) (houtcome : c.outcome p l = .ok o)
    (slot : Slot) : c.move? p l slot = request.move? slot := by
  cases hupdate : c.update? with
  | none =>
    have hmove : c.move? p l slot = none := by rw [move?, hupdate]
    rw [hmove]
    cases request with
    | advance target m =>
      obtain ⟨i, code, hsome⟩ := exists_update_of_advance hname hrequest
      simp [hupdate] at hsome
    | _ => rfl
  | some named =>
    obtain ⟨i, code⟩ := named
    obtain ⟨f', hname', hmade, -⟩ := request_update hupdate
    obtain rfl : f = f' := Option.some.inj (hname.symm.trans hname')
    rw [hrequest] at hmade
    obtain ⟨m, hcode, rfl⟩ := Option.map_eq_some_iff.1 hmade.symm
    simp [move?, hupdate, houtcome, hcode, Request.move?]

section Steps

variable {p : Policy} {now : Instant} {l : Ledger} {slot : Slot} {r : Record} {o : Outcome}

theorem WellKept.history_create (hl : WellKept l) (h : recordAt? l slot = some r) {new : Record}
    (hcreate : create p now l new = .ok o) :
    ∃ r', recordAt? (o.apply l) slot = some r' ∧ History slot l (o.apply l) [] r r' := by
  obtain ⟨-, -, -, created, hplaced, rfl⟩ := create_eq_ok hcreate
  rw [Outcome.apply]
  by_cases hslot : slot = new.slot
  · subst hslot
    -- the slot is taken, so a reconciliation supersedes one, and all but the kind may change
    obtain ⟨s, hfind, rfl, -, -⟩ := hl.exists_of_recordAt? h
    have hwritten := recordAt?_write l new.slot (new.withTimes (some created) (some now))
    cases hplaced with
    | free hfree => cases hfind.symm.trans hfree
    | superseding _ hbytes hfirst _ =>
      obtain rfl := Option.some.inj (hfind.symm.trans hbytes)
      have hs : s.asRead.docType = .reconciliation := by rw [s.held_encode.eq_toRecord hfirst]; rfl
      refine ⟨_, hwritten, ?_, fun hother => absurd hs hother, fun hstaged => ?_, fun _ => rfl,
        fun hother => absurd hs hother⟩
      · rw [hs]
        rfl
      · simp [hs, DocType.staged] at hstaged
  · exact ⟨r, hl.history_of_find?_eq h (Ledger.find?_write_of_ne hslot)⟩

theorem WellKept.history_advance (hl : WellKept l) (h : recordAt? l slot = some r) {target : Slot}
    {m : Move} (hadvance : process p now l (.advance target m) = .ok o) :
    ∃ r', recordAt? (o.apply l) slot = some r' ∧
      History slot l (o.apply l) ((Request.advance target m).move? slot).toList r r' := by
  obtain ⟨s, hfind, hslot, horder, rfl⟩ := process_advance hl hadvance
  rw [Outcome.apply]
  by_cases htarget : target = slot
  · subst htarget hslot
    obtain rfl : s.asRead = r := Option.some.inj ((recordAt?_of_find? hfind).symm.trans h)
    obtain ⟨state, hstate, hleads⟩ := process_advance_source hfind hadvance
    have hkind : m.docType = s.asRead.docType :=
      (Move.docType_of_leadsTo hleads).trans (Record.docType_of_state? hstate)
    have hstaged : s.asRead.docType.staged = true := hkind ▸ m.staged_docType
    have hwritten := recordAt?_write l s.slot ((s.asRead.moved m).stampUpdated now)
    rw [Record.asRead_stampUpdated, Record.asRead_moved, Record.asRead_asRead] at hwritten
    rw [Request.move?, if_pos rfl]
    refine ⟨_, hwritten, by simp, by simp, fun _ => ⟨state, m, hstate, ?_, .cons hleads (.nil m)⟩,
      fun hother => ?_, fun _ hnone => ?_⟩
    · rw [Record.state?_stampUpdated, Record.state?_moved hkind]
    · exact absurd (hother.symm.trans hstaged) (by decide)
    · simp at hnone
  · rw [Request.move?, if_neg htarget]
    exact ⟨r, hl.history_of_find?_eq h (Ledger.find?_write_of_ne (Ne.symm htarget))⟩

/-- A call keeps the record of a slot, or an update moves it one step along its table; a
reconciliation may be put in the place of another. -/
theorem WellKept.history_step (hl : WellKept l) (h : recordAt? l slot = some r) (c : Call) :
    ∃ r', recordAt? (c.step p l) slot = some r' ∧
      History slot l (c.step p l) (c.move? p l slot).toList r r' := by
  cases houtcome : c.outcome p l with
  | error fault =>
    rw [Call.step_of_error houtcome, Call.move?_of_error houtcome]
    exact ⟨r, hl.history_of_find?_eq h rfl⟩
  | ok o =>
    obtain ⟨f, request, hname, hrequest, hprocess⟩ := Call.outcome_eq_ok houtcome
    rw [Call.step_of_ok houtcome, Call.move?_of_request hname hrequest houtcome]
    cases request with
    | create new => exact hl.history_create h hprocess
    | advance target m => exact hl.history_advance h hprocess
    | _ =>
      rw [apply_of_not_stored (process_reads rfl hprocess)]
      exact ⟨r, hl.history_of_find?_eq h rfl⟩

end Steps

theorem WellKept.history_foldl {p : Policy} {l : Ledger} (hl : WellKept l) {slot : Slot}
    {r : Record} (h : recordAt? l slot = some r) (calls : List Call) :
    ∃ r', recordAt? (calls.foldl (Call.step p) l) slot = some r' ∧
      History slot l (calls.foldl (Call.step p) l) (movesIn p slot l calls) r r' := by
  induction calls generalizing l r with
  | nil => exact ⟨r, hl.history_of_find?_eq h rfl⟩
  | cons c calls ih =>
    obtain ⟨r', hr', hfirst⟩ := hl.history_step h c
    obtain ⟨r'', hr'', hrest⟩ := ih (hl.step c) hr'
    exact ⟨r'', hr'', hfirst.trans hrest⟩

theorem not_leadsTo_of_closed {r : Record} {s m : Move} (h : r.closed = true)
    (hs : r.state? = some s) : s.leadsTo m = false := by
  cases r with
  | charge c =>
    obtain ⟨state, hstatus, rfl⟩ := Option.map_eq_some_iff.1 hs
    obtain rfl | rfl : state = .settled ∨ state = .rejected := by
      simpa [Record.closed, hstatus] using h
    all_goals cases m <;> rfl
  | settlement b =>
    obtain ⟨state, hstatus, rfl⟩ := Option.map_eq_some_iff.1 hs
    obtain rfl | rfl : state = .paid ∨ state = .cancelled := by
      simpa [Record.closed, hstatus] using h
    all_goals cases m <;> rfl
  | correction c => cases hs
  | acknowledgement a => cases hs
  | _ => cases h

/-- A closed record keeps its bytes. -/
theorem History.find?_eq_of_closed {slot : Slot} {l l' : Ledger} {moves : List Move} {r r' : Record}
    (h : History slot l l' moves r r') (hclosed : r.closed = true) :
    l'.find? slot = l.find? slot := by
  have hkind : r.docType ≠ .reconciliation := by
    cases r <;> simp_all [Record.docType, Record.closed]
  refine h.find?_eq hkind ?_
  cases hstaged : r.docType.staged with
  | false => exact h.moves_eq_nil hstaged
  | true =>
    obtain ⟨s, s', hs, -, hpath⟩ := h.path hstaged
    cases hpath with
    | nil => rfl
    | cons hleads _ => rw [not_leadsTo_of_closed hclosed hs] at hleads; cases hleads

theorem isInitial_of_requireInitial {R σ : Type} [Code σ] [DecidableEq σ] [Staged R σ] {a : R}
    {s : σ} (h : requireInitial a = .ok ()) (hs : Staged.status a = some s) :
    (Staged.transitions R).isInitial s = true := by
  simp only [requireInitial, hs] at h
  split at h
  · assumption
  · cases h

theorem isInitial_of_create {p : Policy} {now : Instant} {l : Ledger} {r : Record} {o : Outcome}
    {s : Move} (h : create p now l r = .ok o) (hs : r.state? = some s) : s.isInitial = true := by
  obtain ⟨-, hinitial, -⟩ := create_eq_ok h
  cases r <;> simp only [Record.state?, Option.map_eq_some_iff, reduceCtorEq] at hs <;>
    obtain ⟨state, hstatus, rfl⟩ := hs
  case agency => cases state <;> rfl
  case tag => cases state <;> rfl
  case charge => exact isInitial_of_requireInitial hinitial hstatus
  case settlement => exact isInitial_of_requireInitial hinitial hstatus

/-- What becomes of a slot in a call: it is left alone, its record moves to another state, or a new
record is created in it. -/
theorem WellKept.find?_step {p : Policy} {l : Ledger} (hl : WellKept l) (c : Call) (slot : Slot) :
    (c.step p l).find? slot = l.find? slot ∨
      (∃ (r : Record) (s m : Move), l.find? slot = some r.encode ∧ r.state? = some s ∧
        s.leadsTo m = true ∧
        (c.step p l).find? slot = some ((r.asRead.moved m).stampUpdated c.now).encode) ∨
      ∃ (new : Record) (created : Instant), new.slot = slot ∧
        create p c.now l new = .ok (.stored slot (new.withTimes (some created) (some c.now))) ∧
        Placed p c.now l new created ∧
        (c.step p l).find? slot = some (new.withTimes (some created) (some c.now)).encode := by
  cases houtcome : c.outcome p l with
  | error fault => exact .inl (by rw [Call.step_of_error houtcome])
  | ok o =>
    obtain ⟨f, request, -, -, hprocess⟩ := Call.outcome_eq_ok houtcome
    rw [Call.step_of_ok houtcome]
    cases request with
    | create new =>
      obtain ⟨-, -, -, created, hplaced, rfl⟩ := create_eq_ok hprocess
      rw [Outcome.apply]
      by_cases hslot : slot = new.slot
      · subst hslot
        exact .inr (.inr ⟨new, created, rfl, hprocess, hplaced, Ledger.find?_write ..⟩)
      · exact .inl (Ledger.find?_write_of_ne hslot)
    | advance target m =>
      obtain ⟨r, hfind, -, -, rfl⟩ := process_advance hl hprocess
      obtain ⟨s, hs, hleads⟩ := process_advance_source hfind hprocess
      rw [Outcome.apply]
      by_cases hslot : slot = target
      · subst hslot
        rw [Record.state?_asRead] at hs
        exact .inr (.inl ⟨r, s, m, hfind, hs, hleads, Ledger.find?_write ..⟩)
      · exact .inl (Ledger.find?_write_of_ne hslot)
    | _ => exact .inl (by rw [apply_of_not_stored (process_reads rfl hprocess)])

theorem WellKept.exists_create_of_new {p : Policy} {l : Ledger} (hl : WellKept l) {slot : Slot}
    {c : Call} {r : Record} (hnone : l.find? slot = none)
    (h : recordAt? (c.step p l) slot = some r) :
    ∃ new o, create p c.now l new = .ok o ∧
      r = (new.withTimes (some c.now) (some c.now)).asRead := by
  obtain hsame | ⟨_, _, _, hfind, -⟩ | ⟨new, created, rfl, hcreate, hplaced, hnew⟩ :=
    hl.find?_step (p := p) c slot
  · rw [recordAt?, hsame, hnone] at h
    cases h
  · cases hnone.symm.trans hfind
  · obtain rfl := Option.some.inj (h.symm.trans (recordAt?_of_find? hnew))
    cases hplaced with
    | free _ => exact ⟨new, _, hcreate, rfl⟩
    | superseding _ hbytes _ _ => cases hnone.symm.trans hbytes

theorem WellKept.isInitial_of_new {p : Policy} {l : Ledger} (hl : WellKept l) {slot : Slot}
    {c : Call} {r : Record} {s : Move} (hnone : l.find? slot = none)
    (h : recordAt? (c.step p l) slot = some r) (hs : r.state? = some s) : s.isInitial = true := by
  obtain ⟨new, o, hcreate, rfl⟩ := hl.exists_create_of_new hnone h
  rw [Record.state?_asRead, Record.state?_withTimes] at hs
  exact isInitial_of_create hcreate hs

theorem run_append (p : Policy) (before between : List Call) :
    run p (before ++ between) = between.foldl (Call.step p) (run p before) :=
  List.foldl_append

theorem run_snoc (p : Policy) (before : List Call) (c : Call) :
    run p (before ++ [c]) = c.step p (run p before) :=
  run_append p before [c]

theorem exists_source {p : Policy} {calls : List Call} {slot : Slot} {r : Record} {s : Move}
    (h : recordAt? (run p calls) slot = some r) (hs : r.state? = some s)
    (hlater : s.isInitial = false) :
    ∃ earlier later r' s', calls = earlier ++ later ∧
      recordAt? (run p earlier) slot = some r' ∧ r'.state? = some s' ∧ s'.leadsTo s = true := by
  induction calls using List.reverseRecOn generalizing r with
  | nil =>
    rw [run, List.foldl_nil, recordAt?_empty] at h
    cases h
  | append_singleton before c ih =>
    rw [run_append] at h
    have hkept := wellKept_run p before
    cases hfind : (run p before).find? slot with
    | none => simp [hkept.isInitial_of_new hfind h hs] at hlater
    | some bytes =>
      obtain ⟨old, hold⟩ := hkept.exists_recordAt? hfind
      obtain ⟨r', hr', hhistory⟩ := hkept.history_step hold c
      obtain rfl : r' = r := Option.some.inj (hr'.symm.trans h)
      have hstaged : old.docType.staged = true := by
        rw [← hhistory.docType_eq, ← Record.docType_of_state? hs, s.staged_docType]
      obtain ⟨source, target, hsource, htarget, hpath⟩ := hhistory.path hstaged
      obtain rfl : s = target := Option.some.inj (hs.symm.trans htarget)
      -- the last call is either the step that led here, or not a move at all
      cases hmove : c.move? p (run p before) slot with
      | none =>
        rw [hmove] at hpath
        cases hpath
        obtain ⟨earlier, later, r', s', rfl, hfound⟩ := ih hold hsource
        exact ⟨earlier, later ++ [c], r', s', List.append_assoc .., hfound⟩
      | some m =>
        rw [hmove] at hpath
        obtain _ | ⟨hleads, _ | _⟩ := hpath
        exact ⟨before, [c], old, source, rfl, hold, hsource, hleads⟩

theorem WellKept.recordAt?_update {p : Policy} {l : Ledger} (hl : WellKept l) {c : Call}
    {i : Identity} {code : String} {m s : Move} {r : Record} (h : c.update? = some (i, code))
    (hcode : Move.ofCode? i.docType code = some m) (hr : recordAt? l i.slot = some r)
    (hs : r.state? = some s) (hleads : s.leadsTo m = true) :
    recordAt? (c.step p l) i.slot = some ((r.moved m).stampUpdated c.now) := by
  obtain ⟨s', hs', -, hmoved⟩ := ((hl.outcome_update (p := p) h).2 m hcode).2 r
    (holds_of_recordAt? hr) (hl.identity_of_recordAt? hr)
  obtain rfl : s = s' := Option.some.inj (hs.symm.trans hs')
  obtain ⟨old, -, rfl, -⟩ := hl.exists_of_recordAt? hr
  rw [Call.step_of_ok (hmoved hleads), Outcome.apply, recordAt?_write, Record.asRead_stampUpdated,
    Record.asRead_moved, Record.asRead_asRead]

/-- Records live by their tables. A slot that is taken stays taken, by a record of the same kind
that changes in nothing but its state and the time of its last write; its state goes along the
table, one step for each update that has succeeded, from an initial one on, and a record that is
closed keeps its bytes. After every run an update succeeds exactly if it names a known state, the
record is there and the table lists the step, and tells the first of these that fails. -/
theorem history_run (p : Policy) :
    (∀ (before between : List Call) (slot : Slot) (bytes : ByteArray),
        (run p before).find? slot = some bytes →
          ∃ r r', recordAt? (run p before) slot = some r ∧
            recordAt? (run p (before ++ between)) slot = some r' ∧
            History slot (run p before) (run p (before ++ between))
              (movesIn p slot (run p before) between) r r' ∧
            (r.closed = true → (run p (before ++ between)).find? slot = some bytes)) ∧
      (∀ (before : List Call) (c : Call) (slot : Slot) (r : Record) (s : Move),
        (run p before).find? slot = none → recordAt? (run p (before ++ [c])) slot = some r →
          r.state? = some s → s.isInitial = true ∧
            (s.docType = .charge → s = .charge .pending) ∧
            (s.docType = .settlement → s = .settlement .draft)) ∧
      (∀ (calls : List Call) (slot : Slot) (r : Record),
        recordAt? (run p calls) slot = some r → r.state? = some (.settlement .paid) →
          ∃ earlier later r', calls = earlier ++ later ∧
            recordAt? (run p earlier) slot = some r' ∧
            r'.state? = some (.settlement .accepted)) ∧
      ∀ (calls : List Call) (c : Call) (i : Identity) (code : String),
        c.update? = some (i, code) →
          ((∃ o, c.outcome p (run p calls) = .ok o) ↔ Granted (run p calls) i code) ∧
          ∀ fault, c.outcome p (run p calls) = .error fault →
            Lacking (run p calls) i code fault.kind := by
  refine ⟨fun before between slot bytes hfind => ?_, fun before c slot r s hnone h hs => ?_,
    fun calls slot r h hs => ?_, fun calls c i code h => ?_⟩
  · have hkept := wellKept_run p before
    obtain ⟨r, hr⟩ := hkept.exists_recordAt? hfind
    obtain ⟨r', hr', hhistory⟩ := hkept.history_foldl (p := p) hr between
    rw [← run_append] at hr' hhistory
    exact ⟨r, r', hr, hr', hhistory, fun hclosed =>
      (hhistory.find?_eq_of_closed hclosed).trans hfind⟩
  · rw [run_append] at h
    have hinitial := (wellKept_run p before).isInitial_of_new hnone h hs
    exact ⟨hinitial, Move.eq_of_isInitial hinitial⟩
  · obtain ⟨earlier, later, r', s', rfl, hr', hs', hleads⟩ := exists_source h hs rfl
    obtain rfl := Move.eq_accepted_of_leadsTo_paid hleads
    exact ⟨earlier, later, r', rfl, hr', hs'⟩
  · exact (wellKept_run p calls).outcome_update_iff h

def moveBill (code : String) : Call :=
  ⟨signedTime, "UpdateSettlementStatus", ["B", "A", "S1", code]⟩

def billIn (s : SettlementStatus) : Record := signedRecord.asRead.moved (.settlement s)

theorem update?_moveBill (code : String) :
    (moveBill code).update? = some (signedRecord.identity, code) :=
  congrArg (fun parties => some (Identity.settlement parties "S1", code)) Sym2.eq_swap

theorem recordAt?_moveBill (before : List Call) (code : String) {source target : SettlementStatus}
    (hcode : Move.ofCode? .settlement code = some (.settlement target))
    (hleads : (Move.settlement source).leadsTo (.settlement target) = true)
    (h : recordAt? (run openPolicy before) signedRecord.slot = some (billIn source)) :
    recordAt? (run openPolicy (before ++ [moveBill code])) signedRecord.slot
      = some (billIn target) := by
  rw [run_append]
  exact (wellKept_run openPolicy before).recordAt?_update (update?_moveBill code) hcode h rfl hleads

def payCalls : List Call :=
  [signedCall, moveBill "submitted", moveBill "accepted", moveBill "paid"]

theorem recordAt?_signedCall :
    recordAt? (run openPolicy [signedCall]) signedRecord.slot = some (billIn .draft) := by
  rw [run_signedCall, recordAt?_write]
  rfl

theorem recordAt?_payCalls :
    recordAt? (run openPolicy payCalls) signedRecord.slot = some (billIn .paid) :=
  recordAt?_moveBill [signedCall, moveBill "submitted", moveBill "accepted"] "paid" rfl rfl
    (recordAt?_moveBill [signedCall, moveBill "submitted"] "accepted" rfl rfl
      (recordAt?_moveBill [signedCall] "submitted" rfl rfl recordAt?_signedCall))

theorem history_run_payCalls :
    (∃ r', recordAt? (run openPolicy (payCalls ++ [moveBill "draft"])) signedRecord.slot = some r' ∧
        r'.lasting = (billIn .paid).lasting) ∧
      (run openPolicy (payCalls ++ [moveBill "draft"])).find? signedRecord.slot
        = (run openPolicy payCalls).find? signedRecord.slot ∧
      (billIn .draft).state? = some (.settlement .draft) ∧
      (∃ earlier later r', payCalls = earlier ++ later ∧
        recordAt? (run openPolicy earlier) signedRecord.slot = some r' ∧
        r'.state? = some (.settlement .accepted)) ∧
      (∃ o, (moveBill "submitted").outcome openPolicy (run openPolicy [signedCall]) = .ok o) ∧
      Lacking (run openPolicy []) signedRecord.identity "paid" "NotFoundError" := by
  obtain ⟨hhistory, hfirst, hpaid, hupdate⟩ := history_run openPolicy
  obtain ⟨bytes, hbytes, -⟩ := Option.bind_eq_some_iff.1 recordAt?_payCalls
  obtain ⟨r, r', hr, hr', hlater, hclosed⟩ :=
    hhistory payCalls [moveBill "draft"] signedRecord.slot bytes hbytes
  obtain rfl : billIn .paid = r := Option.some.inj (recordAt?_payCalls.symm.trans hr)
  have hinitial := hfirst [] signedCall signedRecord.slot (billIn .draft) (.settlement .draft)
    rfl recordAt?_signedCall rfl
  have hdraft : Holds (run openPolicy [signedCall]) (billIn .draft) :=
    holds_of_recordAt? recordAt?_signedCall
  refine ⟨⟨r', hr', hlater.lasting_eq (by decide)⟩, (hclosed (by decide)).trans hbytes.symm,
    congrArg some (hinitial.2.2 rfl), hpaid payCalls signedRecord.slot _ recordAt?_payCalls rfl,
    (hupdate [signedCall] _ _ _ (update?_moveBill "submitted")).1.2
      ⟨_, _, _, rfl, hdraft, rfl, rfl, rfl⟩,
    (hupdate [] _ _ _ (update?_moveBill "paid")).2 _ rfl⟩

end House

end TollClearing
