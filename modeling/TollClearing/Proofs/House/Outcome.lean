import TollClearing.House.Operation
import TollClearing.Proofs.Except

/-!
What a call comes to as a function of the ledger, without the ledger that it leaves. The operations
act on a ledger in place; `Transaction.comesTo_invoke` states that they answer what this function
says, and that they leave what the outcome puts there, or after a fault the ledger as it was.
-/

set_option autoImplicit false

namespace TollClearing.House

def insert (p : Policy) (now : Instant) (l : Ledger) (r : Record) : Except Fault Outcome := do
  match ← lookUp l r.slot with
  | some _ => .error (.present r.key)
  | none =>
    checkReferences p l r
    .ok (.stored r.slot (r.stampCreated now))

def supersede (p : Policy) (now : Instant) (l : Ledger) (r : Reconciliation) :
    Except Fault Outcome := do
  let record := Record.reconciliation r
  match ← lookUp l record.slot with
  | none => insert p now l record
  | some bytes =>
    let first ← readAs Reconciliation record.key bytes
    if r.resubmissions ≤ first.resubmissions then .error (.present record.key)
    else
      checkReferences p l record
      .ok (.stored record.slot (record.withTimes (some (first.createdAt.getD now)) (some now)))

def create (p : Policy) (now : Instant) (l : Ledger) (r : Record) : Except Fault Outcome := do
  accepted r.validate
  checkInitial r
  match r, p.resubmission with
  | .reconciliation r, .supersede => supersede p now l r
  | r, _ => insert p now l r

def advance (R : Type) {σ : Type} [Code σ] [DecidableEq σ] [Staged R σ] (now : Instant) (l : Ledger)
    (slot : Slot) (target : σ) : Except Fault Outcome := do
  let r ← fetch R l slot
  match Staged.status r with
  | none => .error (.unreadable slot.key (.noState (Staged.member R)))
  | some source =>
    match (Staged.transitions R).check source target with
    | .error refusal => .error (.refused refusal)
    | .ok () =>
      .ok (.stored slot ((Recorded.toRecord (Staged.withStatus target r)).stampUpdated now))

def process (p : Policy) (now : Instant) (l : Ledger) : Request → Except Fault Outcome
  | .create r => create p now l r
  | .get docType slot => do
    let r ← readRecord docType slot.key (← valueIn l slot)
    .ok (.found r)
  | .advance slot (.agency s) => advance Agency now l slot s
  | .advance slot (.tag s) => advance Tag now l slot s
  | .advance slot (.charge s) => advance Charge now l slot s
  | .advance slot (.settlement s) => advance Settlement now l slot s
  | .list docType scope fields => list p l docType scope fields
  | .total period => total l period

def invoke (p : Policy) (now : Instant) (l : Ledger) (name : String) (arguments : List String) :
    Except Fault Outcome :=
  match Function.ofName? name with
  | none => .error (.unknownFunction name)
  | some f => do process p now l (← f.request arguments)

def Outcome.apply (l : Ledger) : Outcome → Ledger
  | .stored slot r => l.write slot r.encode
  | .found _ | .listed _ | .totalled _ => l

def leaves (l : Ledger) : Except Fault Outcome → Ledger
  | .ok o => o.apply l
  | .error _ => l

theorem checkSlot_of_lookUp {l : Ledger} {slot : Slot} {value : Option ByteArray}
    (h : lookUp l slot = .ok value) : Ledger.checkSlot slot = .ok () := by
  unfold lookUp at h
  split at h
  · rename_i found hget
    obtain ⟨⟨⟩, hslot, -⟩ := bind_eq_ok.1 hget
    exact hslot
  · simp at h

theorem apply_list {p : Policy} {l : Ledger} {docType : DocType} {scope : Scope}
    {fields : List (String × String)} {o : Outcome} (h : list p l docType scope fields = .ok o) :
    o.apply l = l := by
  simp only [list, bind_eq_ok] at h
  obtain ⟨hits, -, rs, -, ho⟩ := h
  obtain rfl := Except.ok.inj ho
  rfl

theorem apply_total {l : Ledger} {p : Period} {o : Outcome} (h : total l p = .ok o) :
    o.apply l = l := by
  simp only [total, bind_eq_ok] at h
  obtain ⟨_, -, _, -, _, -, _, -, h⟩ := h
  split at h
  · obtain rfl := Except.ok.inj h
    rfl
  · simp at h

namespace Transaction

theorem exec_bind {α β : Type} (t : Transaction α) (next : α → Transaction β) (l : Ledger) :
    (t >>= next).exec l =
      match t.exec l with
      | (.ok a, m) => (next a).exec m
      | (.error fault, m) => (.error fault, m) := by
  have hbind : (t >>= next).exec l = ExceptT.bindCont next (t.exec l).1 (t.exec l).2 := rfl
  rw [hbind]
  rcases t.exec l with ⟨fault | a, m⟩ <;> rfl

theorem exec_get (l : Ledger) : (get : Transaction Ledger).exec l = (.ok l, l) := rfl

theorem exec_reading {α : Type} (look : Ledger → Except Fault α) (l : Ledger) :
    (reading look).exec l = (look l, l) := by
  rw [reading, exec_bind, exec_get]
  dsimp only
  cases look l <;> rfl

theorem exec_store {slot : Slot} (h : Ledger.checkSlot slot = .ok ()) (r : Record) (l : Ledger) :
    (store slot r).exec l = (.ok (.stored slot r), l.write slot r.encode) := by
  have hput : l.put slot r.encode = .ok (l.write slot r.encode) := by
    simp only [Ledger.put, h, bind, Except.bind]
  rw [store, exec_bind, exec_get]
  dsimp only
  rw [hput]
  rfl

/-- Carried out on a ledger the transaction answers `e`, and leaves what `e` does. -/
def ComesTo (t : Transaction Outcome) (l : Ledger) (e : Except Fault Outcome) : Prop :=
  t.exec l = (e, leaves l e)

namespace ComesTo

variable {l : Ledger}

/-- A step that only looks at the ledger does not touch it, also if it fails. -/
theorem reading_bind {α : Type} {look : Ledger → Except Fault α} {next : α → Transaction Outcome}
    {f : α → Except Fault Outcome} (h : ∀ a, look l = .ok a → ComesTo (next a) l (f a)) :
    ComesTo (reading look >>= next) l (look l >>= f) := by
  rw [ComesTo, exec_bind, exec_reading]
  cases hlook : look l with
  | error fault => rfl
  | ok a => exact h a hlook

theorem of_reading {look : Ledger → Except Fault Outcome}
    (h : ∀ o, look l = .ok o → o.apply l = l) : ComesTo (reading look) l (look l) := by
  rw [ComesTo, exec_reading]
  cases hlook : look l with
  | error fault => rfl
  | ok o => exact Prod.ext rfl (h o hlook).symm

theorem of_throw (fault : Fault) : ComesTo (throw fault) l (.error fault) := rfl

theorem of_store {slot : Slot} (h : Ledger.checkSlot slot = .ok ()) (r : Record) :
    ComesTo (store slot r) l (.ok (.stored slot r)) := exec_store h r l

end ComesTo

section

variable (p : Policy) (now : Instant) (l : Ledger)

/-- A new record is put into its slot after all that can fail. -/
theorem comesTo_insert (r : Record) : ComesTo (insert p now r) l (House.insert p now l r) := by
  refine ComesTo.reading_bind fun value hvalue => ?_
  cases value with
  | some bytes => exact .of_throw _
  | none => exact .reading_bind fun _ _ => .of_store (checkSlot_of_lookUp hvalue) _

theorem comesTo_supersede (r : Reconciliation) :
    ComesTo (supersede p now r) l (House.supersede p now l r) := by
  refine ComesTo.reading_bind fun value hvalue => ?_
  cases value with
  | none => exact comesTo_insert p now l _
  | some bytes =>
    refine .reading_bind fun first hfirst => ?_
    split
    · exact .of_throw _
    · exact .reading_bind fun _ _ => .of_store (checkSlot_of_lookUp hvalue) _

theorem comesTo_create (r : Record) : ComesTo (create p now r) l (House.create p now l r) := by
  refine ComesTo.reading_bind fun _ _ => .reading_bind fun _ _ => ?_
  cases r with
  | reconciliation r =>
    cases p.resubmission with
    | strict => exact comesTo_insert p now l _
    | supersede => exact comesTo_supersede p now l r
  | _ => exact comesTo_insert p now l _

theorem comesTo_advance {R σ : Type} [Code σ] [DecidableEq σ] [Staged R σ] (slot : Slot)
    (target : σ) : ComesTo (advance R now slot target) l (House.advance R now l slot target) := by
  refine ComesTo.reading_bind fun r hfetch => ?_
  have hslot : Ledger.checkSlot slot = .ok () := by
    simp only [fetch, valueIn, bind_eq_ok] at hfetch
    obtain ⟨_, ⟨_, hvalue, -⟩, -⟩ := hfetch
    exact checkSlot_of_lookUp hvalue
  cases Staged.status r with
  | none => exact .of_throw _
  | some source =>
    dsimp only
    cases (Staged.transitions R).check source target with
    | error refusal => exact .of_throw _
    | ok done => exact .of_store hslot _

theorem comesTo_process (request : Request) :
    ComesTo (process p now request) l (House.process p now l request) := by
  cases request with
  | create r => exact comesTo_create p now l r
  | get docType slot =>
    refine .of_reading fun o ho => ?_
    obtain ⟨bytes, -, ho⟩ := bind_eq_ok.1 ho
    obtain ⟨r, -, ho⟩ := bind_eq_ok.1 ho
    obtain rfl := Except.ok.inj ho
    rfl
  | advance slot m =>
    cases m with
    | agency s => exact comesTo_advance now l slot s
    | tag s => exact comesTo_advance now l slot s
    | charge s => exact comesTo_advance now l slot s
    | settlement s => exact comesTo_advance now l slot s
  | list docType scope fields => exact .of_reading fun _ => apply_list
  | total period => exact .of_reading fun _ => apply_total

/-- A call answers its outcome or its fault, and leaves what this does: after a fault the ledger is
the one from before. -/
theorem comesTo_invoke (name : String) (arguments : List String) :
    ComesTo (invoke p now name arguments) l (House.invoke p now l name arguments) := by
  unfold invoke House.invoke
  cases Function.ofName? name with
  | none => exact .of_throw _
  | some f => exact .reading_bind fun request _ => comesTo_process p now l request

end

end Transaction

end TollClearing.House
