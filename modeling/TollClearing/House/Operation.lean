import TollClearing.House.Function
import TollClearing.House.Policy
import TollClearing.Rule.Record

/-!
What the clearing house does with a request. A new record has to obey the rules, its slot has to be
free, and what it refers to has to be there, in this order; a record that moves to another state
has to be there, and its lifecycle has to allow the move. All this is asked of the ledger before
anything is put into it.
-/

set_option autoImplicit false

namespace TollClearing.House

def readAs (R : Type) [Recorded R] (key : String) (bytes : ByteArray) : Except Fault R :=
  match Record.decodeTo R bytes with
  | .ok r => .ok r
  | .error m => .error (.unreadable key (.malformed m))

def readRecord (docType : DocType) (key : String) (bytes : ByteArray) : Except Fault Record :=
  match Record.decodeAs docType bytes with
  | .ok r => .ok r
  | .error m => .error (.unreadable key (.malformed m))

def lookUp (l : Ledger) (slot : Slot) : Except Fault (Option ByteArray) :=
  match l.get slot with
  | .ok value => .ok value
  | .error e => .error (.emptyName e)

def search (l : Ledger) (scope : Scope) (s : Selector) : Except Fault (List (String × ByteArray)) :=
  match l.query scope s with
  | .ok hits => .ok hits
  | .error e => .error (.emptyName e)

def valueIn (l : Ledger) (slot : Slot) : Except Fault ByteArray := do
  match ← lookUp l slot with
  | some bytes => .ok bytes
  | none => .error (.missing slot.key)

def fetch (R : Type) [Recorded R] (l : Ledger) (slot : Slot) : Except Fault R := do
  readAs R slot.key (← valueIn l slot)

def accepted (c : Check) : Except Fault Unit :=
  match c with
  | .ok () => .ok ()
  | .error v => .error (.rejected v)

def rejection (member : String) (reason : Reason) : Fault := .rejected (.rejected member reason)

def requireInitial {R σ : Type} [Code σ] [DecidableEq σ] [Staged R σ] (r : R) :
    Except Fault Unit :=
  let transitions := Staged.transitions R
  match Staged.status r with
  | none => .error (rejection (Staged.member R) .required)
  | some s =>
    if transitions.isInitial s then .ok ()
    else
      .error (rejection (Staged.member R)
        (.notInitial transitions.subject (transitions.initial.map Code.wire) (Code.wire s)))

/-- Agencies and tags may be created in every state that their kind has. -/
def checkInitial : Record → Except Fault Unit
  | .charge c => requireInitial c
  | .settlement s => requireInitial s
  | _ => .ok ()

/-- An agency that is named has to be known, unless the policy says otherwise. -/
def requireAgency (p : Policy) (l : Ledger) (id : String) : Except Fault Unit :=
  if p.verify then do
    let _ ← valueIn l ⟨.shared, Key.agency id⟩
    .ok ()
  else .ok ()

/-- The charge that a record in its partition refers to is there and has the same parties. -/
def requireCharge (l : Ledger) (id away home : String) : Except Fault Unit := do
  let c ← fetch Charge l (Function.chargeSlot away home (Key.charge id))
  if c.away = away ∧ c.home = home then .ok ()
  else .error (rejection "awayAgencyID" (.otherParties c.id c.away c.home))

def requirePredecessor (l : Ledger) (c : Correction) : Except Fault Unit :=
  match c.predecessor? with
  | none => .ok ()
  | some n => do
    match ← lookUp l (Function.chargeSlot c.away c.home (Key.correction c.charge n)) with
    | some _ => .ok ()
    | none => .error (rejection "correctionSeqNo" (.predecessorMissing n c.charge))

def checkReferences (p : Policy) (l : Ledger) : Record → Except Fault Unit
  | .tag t => do
    requireAgency p l t.agency
    if t.home = t.agency then .ok () else requireAgency p l t.home
  | .charge c => do
    requireAgency p l c.away
    requireAgency p l c.home
  | .settlement s => do
    requireAgency p l s.payor
    requireAgency p l s.payee
  | .correction c => do
    requireCharge l c.charge c.away c.home
    requirePredecessor l c
  | .reconciliation r => requireCharge l r.charge r.away r.home
  | .agency _ | .acknowledgement _ => .ok ()

def kindSelector (docType : DocType) (fields : List (String × String)) : Selector :=
  (Selector.mk (Table.ofList fields) none).field Record.docTypeName docType.wire

def recordsIn (R : Type) [Recorded R] (l : Ledger) (scope : Scope) : Except Fault (List R) := do
  (← search l scope (kindSelector (Recorded.docType R) [])).mapM fun row => readAs R row.1 row.2

def list (p : Policy) (l : Ledger) (docType : DocType) (scope : Scope)
    (fields : List (String × String)) : Except Fault Outcome := do
  let hits ← search l scope ((kindSelector docType fields).atMost p.limit)
  let rs ← hits.mapM fun row => readRecord docType row.1 row.2
  .ok (.listed rs)

/-- The bill of a period between two agencies. Every charge counts, whatever the policy's limit. -/
def total (l : Ledger) (p : Period) : Except Fault Outcome := do
  accepted (Rule.distinct "payorAgencyID" p.payor "payeeAgencyID" p.payee)
  accepted (Settlement.checkPeriod (some p.start) (some p.stop))
  let scope := Scope.partition (Key.chargePartition p.payee p.payor)
  let charges ← recordsIn Charge l scope
  let corrections ← recordsIn Correction l scope
  match Totals.ofPeriod p charges corrections with
  | .ok t => .ok (.totalled t)
  | .error v => .error (.rejected v)

/-- Steps that act on a ledger in place, one after another. A step that fails ends them, and what
has been put before it stays in the ledger. -/
abbrev Transaction := ExceptT Fault (StateM Ledger)

namespace Transaction

def exec {α : Type} (t : Transaction α) (l : Ledger) : Except Fault α × Ledger := t.run.run l

def reading {α : Type} (look : Ledger → Except Fault α) : Transaction α := do
  match look (← get) with
  | .ok a => pure a
  | .error fault => throw fault

def store (slot : Slot) (r : Record) : Transaction Outcome := do
  match (← get).put slot r.encode with
  | .ok l =>
    set l
    pure (.stored slot r)
  | .error e => throw (.emptyName e)

def insert (p : Policy) (now : Instant) (r : Record) : Transaction Outcome := do
  match ← reading fun l => lookUp l r.slot with
  | some _ => throw (.present r.key)
  | none =>
    reading fun l => checkReferences p l r
    store r.slot (r.stampCreated now)

/-- Puts a reconciliation in the place of one that has been resubmitted less often. The time of the
first one is kept as the time of creation. -/
def supersede (p : Policy) (now : Instant) (r : Reconciliation) : Transaction Outcome := do
  let record := Record.reconciliation r
  match ← reading fun l => lookUp l record.slot with
  | none => insert p now record
  | some bytes =>
    let first ← reading fun _ => readAs Reconciliation record.key bytes
    if r.resubmissions ≤ first.resubmissions then throw (.present record.key)
    else
      reading fun l => checkReferences p l record
      store record.slot (record.withTimes (some (first.createdAt.getD now)) (some now))

def create (p : Policy) (now : Instant) (r : Record) : Transaction Outcome := do
  reading fun _ => accepted r.validate
  reading fun _ => checkInitial r
  match r, p.resubmission with
  | .reconciliation r, .supersede => supersede p now r
  | r, _ => insert p now r

def advance (R : Type) {σ : Type} [Code σ] [DecidableEq σ] [Staged R σ] (now : Instant)
    (slot : Slot) (target : σ) : Transaction Outcome := do
  let r ← reading fun l => fetch R l slot
  match Staged.status r with
  | none => throw (.unreadable slot.key (.noState (Staged.member R)))
  | some source =>
    match (Staged.transitions R).check source target with
    | .error refusal => throw (.refused refusal)
    | .ok () => store slot ((Recorded.toRecord (Staged.withStatus target r)).stampUpdated now)

def process (p : Policy) (now : Instant) : Request → Transaction Outcome
  | .create r => create p now r
  | .get docType slot => reading fun l => do
    let r ← readRecord docType slot.key (← valueIn l slot)
    .ok (.found r)
  | .advance slot (.agency s) => advance Agency now slot s
  | .advance slot (.tag s) => advance Tag now slot s
  | .advance slot (.charge s) => advance Charge now slot s
  | .advance slot (.settlement s) => advance Settlement now slot s
  | .list docType scope fields => reading fun l => list p l docType scope fields
  | .total period => reading fun l => total l period

def invoke (p : Policy) (now : Instant) (name : String) (arguments : List String) :
    Transaction Outcome :=
  match Function.ofName? name with
  | none => throw (.unknownFunction name)
  | some f => do process p now (← reading fun _ => f.request arguments)

end Transaction

end TollClearing.House
