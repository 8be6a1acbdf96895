import TollClearing.Proofs.House.Outcome
import TollClearing.Proofs.Rule.Record

/-!
What a request that succeeds has found in the ledger, and what it puts there. All that is proved of
runs rests on `process_stored`: whatever is stored is a stamped record that obeys the rules, in
its own slot.
-/

set_option autoImplicit false

namespace TollClearing

def Record.moved : House.Move → Record → Record
  | .agency s, .agency a => .agency { a with status := some s }
  | .tag s, .tag t => .tag { t with status := some s }
  | .charge s, .charge c => .charge { c with status := some s }
  | .settlement s, .settlement b => .settlement { b with status := some s }
  | _, r => r

namespace Record

variable (m : House.Move) (r : Record)

@[simp] theorem slot_moved : (r.moved m).slot = r.slot := by cases m <;> cases r <;> rfl

@[simp] theorem docType_moved : (r.moved m).docType = r.docType := by cases m <;> cases r <;> rfl

@[simp] theorem createdAt_moved : (r.moved m).createdAt = r.createdAt := by
  cases m <;> cases r <;> rfl

variable {m r}

theorem validate_moved (h : r.validate = .ok ()) : (r.moved m).validate = .ok () := by
  rw [validate_eq_ok] at h ⊢
  intro s
  cases m with
  | agency status => cases r <;> first | exact h s | exact Agency.check_withStatus status (h s)
  | tag status => cases r <;> first | exact h s | exact Tag.check_withStatus status (h s)
  | charge status => cases r <;> first | exact h s | exact Charge.check_withStatus status (h s)
  | settlement status =>
    cases r <;> first | exact h s | exact Settlement.check_withStatus status (h s)

theorem validate_foldl_moved (moves : List House.Move) (h : r.validate = .ok ()) :
    (moves.foldl (fun r m => r.moved m) r).validate = .ok () := by
  induction moves generalizing r with
  | nil => exact h
  | cons m moves ih => exact ih (validate_moved h)

variable (r) (created updated : Option Instant)

@[simp] theorem slot_withTimes : (r.withTimes created updated).slot = r.slot := by cases r <;> rfl

@[simp] theorem createdAt_withTimes : (r.withTimes created updated).createdAt = created := by
  cases r <;> rfl

@[simp] theorem updatedAt_withTimes : (r.withTimes created updated).updatedAt = updated := by
  cases r <;> rfl

end Record

namespace House

/-- A record as the clearing house keeps it: it obeys the rules and has both its times. -/
structure InOrder (r : Record) : Prop where
  validate : r.validate = .ok ()
  createdAt : r.createdAt.isSome
  updatedAt : r.updatedAt.isSome

/-- Every value of the ledger is the text of a record in order, in its own slot. -/
def WellKept (l : Ledger) : Prop :=
  ∀ slot bytes, l.find? slot = some bytes →
    ∃ r : Record, bytes = r.encode ∧ r.slot = slot ∧ InOrder r

section Lookups

variable {l : Ledger} {slot : Slot}

theorem lookUp_eq_ok {value : Option ByteArray} (h : lookUp l slot = .ok value) :
    l.find? slot = value := by
  unfold lookUp at h
  split at h
  · rename_i found hget
    obtain rfl := Except.ok.inj h
    simp only [Ledger.get, bind_eq_ok] at hget
    obtain ⟨_, -, hfound⟩ := hget
    exact Except.ok.inj hfound
  · simp at h

theorem valueIn_eq_ok {bytes : ByteArray} (h : valueIn l slot = .ok bytes) :
    l.find? slot = some bytes := by
  simp only [valueIn, bind_eq_ok] at h
  obtain ⟨value, hvalue, h⟩ := h
  cases value with
  | none => simp at h
  | some found =>
    rw [lookUp_eq_ok hvalue]
    exact congrArg some (Except.ok.inj h)

theorem readAs_eq_ok {R : Type} [Recorded R] {key : String} {bytes : ByteArray} {r : R}
    (h : readAs R key bytes = .ok r) : Record.decodeTo R bytes = .ok r := by
  unfold readAs at h
  split at h
  · rename_i found hread
    rw [hread, Except.ok.inj h]
  · simp at h

theorem fetch_eq_ok {R : Type} [Recorded R] {r : R} (h : fetch R l slot = .ok r) :
    ∃ bytes, l.find? slot = some bytes ∧ Record.decodeTo R bytes = .ok r := by
  simp only [fetch, bind_eq_ok] at h
  obtain ⟨bytes, hbytes, h⟩ := h
  exact ⟨bytes, valueIn_eq_ok hbytes, readAs_eq_ok h⟩

end Lookups

theorem accepted_eq_ok {c : Check} (h : accepted c = .ok ()) : c = .ok () := by
  unfold accepted at h
  split at h
  · rfl
  · simp at h

section Writes

variable {p : Policy} {now : Instant} {l : Ledger} {o : Outcome}

theorem insert_eq_ok {r : Record} (h : insert p now l r = .ok o) :
    l.find? r.slot = none ∧ checkReferences p l r = .ok () ∧
      o = .stored r.slot (r.stampCreated now) := by
  simp only [insert, bind_eq_ok] at h
  obtain ⟨value, hvalue, h⟩ := h
  cases value with
  | some found => simp at h
  | none =>
    simp only [bind_eq_ok] at h
    obtain ⟨_, hreferences, h⟩ := h
    exact ⟨lookUp_eq_ok hvalue, hreferences, (Except.ok.inj h).symm⟩

/-- How a new record comes to be stored, and the time that it takes for that of its creation: in a
free slot, or, if it is a reconciliation, in the place of one that has been resubmitted less
often. -/
inductive Placed (p : Policy) (now : Instant) (l : Ledger) : Record → Instant → Prop where
  | free {r : Record} (hfind : l.find? r.slot = none) : Placed p now l r now
  | superseding {r first : Reconciliation} {bytes : ByteArray}
    (hpolicy : p.resubmission = .supersede)
    (hfind : l.find? (Record.reconciliation r).slot = some bytes)
    (hfirst : Record.decodeTo Reconciliation bytes = .ok first)
    (hmore : first.resubmissions < r.resubmissions) :
    Placed p now l (.reconciliation r) (first.createdAt.getD now)

theorem supersede_eq_ok {r : Reconciliation} (hpolicy : p.resubmission = .supersede)
    (h : supersede p now l r = .ok o) : checkReferences p l (.reconciliation r) = .ok () ∧
      ∃ created, Placed p now l (.reconciliation r) created ∧
        o = .stored (Record.reconciliation r).slot
          ((Record.reconciliation r).withTimes (some created) (some now)) := by
  simp only [supersede, bind_eq_ok] at h
  obtain ⟨value, hvalue, h⟩ := h
  cases value with
  | none =>
    obtain ⟨hfind, hreferences, ho⟩ := insert_eq_ok h
    exact ⟨hreferences, now, .free hfind, ho⟩
  | some bytes =>
    simp only [bind_eq_ok] at h
    obtain ⟨first, hfirst, h⟩ := h
    split at h
    · simp at h
    · rename_i hmore
      simp only [bind_eq_ok] at h
      obtain ⟨_, hreferences, h⟩ := h
      exact ⟨hreferences, _, .superseding hpolicy (lookUp_eq_ok hvalue) (readAs_eq_ok hfirst)
        (UInt32.not_le.1 hmore), (Except.ok.inj h).symm⟩

theorem create_eq_ok {r : Record} (h : create p now l r = .ok o) :
    r.validate = .ok () ∧ checkInitial r = .ok () ∧ checkReferences p l r = .ok () ∧
      ∃ created, Placed p now l r created ∧
        o = .stored r.slot (r.withTimes (some created) (some now)) := by
  simp only [create, bind_eq_ok] at h
  obtain ⟨_, hvalid, _, hinitial, h⟩ := h
  refine ⟨accepted_eq_ok hvalid, hinitial, ?_⟩
  split at h
  · exact supersede_eq_ok ‹_› h
  · obtain ⟨hfind, hreferences, ho⟩ := insert_eq_ok h
    exact ⟨hreferences, now, .free hfind, ho⟩

theorem advance_eq_ok {R σ : Type} [Code σ] [DecidableEq σ] [Staged R σ] {slot : Slot} {target : σ}
    (h : advance R now l slot target = .ok o) :
    ∃ r source, fetch R l slot = .ok r ∧ Staged.status r = some source ∧
      (Staged.transitions R).allows source target = true ∧
      o = .stored slot ((Recorded.toRecord (Staged.withStatus target r)).stampUpdated now) := by
  simp only [advance, bind_eq_ok] at h
  obtain ⟨r, hfetch, h⟩ := h
  split at h
  · simp at h
  · rename_i source hstatus
    split at h
    · simp at h
    · rename_i hcheck
      exact ⟨r, source, hfetch, hstatus, Transitions.check_eq_ok_iff _ |>.1 hcheck,
        (Except.ok.inj h).symm⟩

theorem advance_stored {R σ : Type} [Code σ] [DecidableEq σ] [Staged R σ] {slot : Slot}
    {target : σ} {m : Move}
    (hm : ∀ a : R, Recorded.toRecord (Staged.withStatus target a) = (Recorded.toRecord a).moved m)
    (hl : WellKept l) (h : advance R now l slot target = .ok o) :
    ∃ r : Record, l.find? slot = some r.encode ∧ r.slot = slot ∧ InOrder r ∧
      o = .stored slot ((r.asRead.moved m).stampUpdated now) := by
  obtain ⟨a, source, hfetch, -, -, rfl⟩ := advance_eq_ok h
  obtain ⟨bytes, hfind, hdecode⟩ := fetch_eq_ok hfetch
  obtain ⟨r, rfl, hslot, horder⟩ := hl slot bytes hfind
  rw [hm, ← r.held_encode.eq_toRecord hdecode]
  exact ⟨r, hfind, hslot, horder, rfl⟩

theorem process_advance {slot : Slot} {m : Move} (hl : WellKept l)
    (h : process p now l (.advance slot m) = .ok o) :
    ∃ r : Record, l.find? slot = some r.encode ∧ r.slot = slot ∧ InOrder r ∧
      o = .stored slot ((r.asRead.moved m).stampUpdated now) := by
  cases m with
  | agency s => exact advance_stored (fun _ => rfl) hl h
  | tag s => exact advance_stored (fun _ => rfl) hl h
  | charge s => exact advance_stored (fun _ => rfl) hl h
  | settlement s => exact advance_stored (fun _ => rfl) hl h

theorem process_reads {request : Request} (hreads : request.writes = false)
    (h : process p now l request = .ok o) : ∀ slot r, o ≠ .stored slot r := by
  rintro slot r rfl
  cases request with
  | create r' => simp [Request.writes] at hreads
  | advance slot' m => simp [Request.writes] at hreads
  | get docType slot' =>
    simp only [process, bind_eq_ok] at h
    obtain ⟨_, -, _, -, h⟩ := h
    simp at h
  | list docType scope fields =>
    simp only [process, list, bind_eq_ok] at h
    obtain ⟨_, -, _, -, h⟩ := h
    simp at h
  | total period =>
    simp only [process, total, bind_eq_ok] at h
    obtain ⟨_, -, _, -, _, -, _, -, h⟩ := h
    split at h <;> simp at h

theorem process_writes {request : Request} (hwrites : request.writes = true)
    (h : process p now l request = .ok o) : ∃ slot r, o = .stored slot r := by
  cases request with
  | create r =>
    obtain ⟨-, -, -, created, -, rfl⟩ := create_eq_ok h
    exact ⟨_, _, rfl⟩
  | advance slot m =>
    cases m with
    | agency s =>
      obtain ⟨_, _, -, -, -, rfl⟩ := advance_eq_ok h
      exact ⟨_, _, rfl⟩
    | tag s =>
      obtain ⟨_, _, -, -, -, rfl⟩ := advance_eq_ok h
      exact ⟨_, _, rfl⟩
    | charge s =>
      obtain ⟨_, _, -, -, -, rfl⟩ := advance_eq_ok h
      exact ⟨_, _, rfl⟩
    | settlement s =>
      obtain ⟨_, _, -, -, -, rfl⟩ := advance_eq_ok h
      exact ⟨_, _, rfl⟩
  | _ => simp [Request.writes] at hwrites

/-- What is stored is in order and lies in its own slot. -/
theorem process_stored {request : Request} {slot : Slot} {r : Record} (hl : WellKept l)
    (h : process p now l request = .ok (.stored slot r)) : r.slot = slot ∧ InOrder r := by
  cases request with
  | create r' =>
    obtain ⟨hvalid, -, -, created, -, e⟩ := create_eq_ok h
    obtain ⟨rfl, rfl⟩ := Outcome.stored.inj e
    exact ⟨by simp, by simpa using hvalid, by simp, by simp⟩
  | advance slot' m =>
    obtain ⟨r', -, hslot, horder, e⟩ := process_advance hl h
    obtain ⟨rfl, rfl⟩ := Outcome.stored.inj e
    refine ⟨by simpa [Record.stampUpdated] using hslot, ?_, ?_, by simp [Record.stampUpdated]⟩
    · have hvalid := Record.validate_moved (m := m) (Record.validate_asRead horder.validate)
      simpa [Record.stampUpdated] using hvalid
    · simpa [Record.stampUpdated] using horder.createdAt
  | get _ _ => exact absurd rfl (process_reads rfl h slot r)
  | list _ _ _ => exact absurd rfl (process_reads rfl h slot r)
  | total _ => exact absurd rfl (process_reads rfl h slot r)

end Writes

end House

end TollClearing
