import TollClearing.Command.Run
import TollClearing.Proofs.Command.Disk
import TollClearing.Proofs.House.Alike
import TollClearing.Proofs.House.ReadBack
import TollClearing.Proofs.Ledger.Snapshot

/-!
Lines carried out one after another on one state file come to the same as calls on one ledger that
is never saved. The ledger in the file holds the same records, written anew at every save.
-/

set_option autoImplicit false

namespace TollClearing

open House

theorem Record.Held.exists_ofBytes? {r : Record} {bytes : ByteArray} (h : r.Held bytes) :
    ∃ g, Copy g ∧ Json.ofBytes? bytes = some (g r.toJson) := by
  obtain ⟨g, hg, rfl⟩ := h
  exact ⟨g, hg, Json.ofBytes?_compact (shallow_copy hg r)⟩

theorem Record.Held.rewritten {r : Record} {bytes : ByteArray} (h : r.Held bytes) :
    r.Held (Ledger.valueBytes (Ledger.valueOf bytes)) := by
  obtain ⟨g, hg, hvalue⟩ := h.exists_ofBytes?
  have hcanonical : (g r.toJson).canonical = r.toJson.canonical := by
    rcases hg with rfl | rfl
    · rfl
    · exact Json.canonical_canonical r.toJson
  rw [Ledger.valueOf, hvalue, Option.getD_some, Ledger.valueBytes, hcanonical]
  exact r.held_canonical

namespace Ledger

variable {l m : Ledger}

theorem Alike.rewritten (h : l.Alike m) : l.Alike m.rewritten := by
  intro scope
  rw [table_rewritten]
  exact (h scope).map_right fun a b ⟨r, ha, hb⟩ => ⟨r, ha, hb.rewritten⟩

theorem exists_of_forall₂_right {α β : Type} {R : α → β → Prop} {xs : List α} {ys : List β}
    (h : List.Forall₂ R xs ys) : ∀ b ∈ ys, ∃ a, R a b := by
  induction h with
  | nil => simp
  | cons hab _ ih => exact List.forall_mem_cons.2 ⟨⟨_, hab⟩, ih⟩

theorem Alike.holdsJson (h : l.Alike m) : m.HoldsJson (Json.maxDepth - 3) := by
  intro scope row hrow
  obtain ⟨_, -, r, -, hheld⟩ := exists_of_forall₂_right (h scope) row hrow
  obtain ⟨g, hg, hvalue⟩ := hheld.exists_ofBytes?
  exact ⟨_, hvalue, (hg.shallow r.shallow_toJson).mono (by decide)⟩

/-- A ledger of records has a snapshot, and what is read from it holds the same records. -/
theorem Alike.exists_snapshot (h : l.Alike m) :
    ∃ s n, m.snapshot? = some s ∧ ofSnapshot? s.toUTF8 = some n ∧ l.Alike n := by
  obtain ⟨s, hsnapshot, hread⟩ := ofSnapshot?_snapshot? h.holdsJson
  exact ⟨s, _, hsnapshot, hread, h.rewritten⟩

end Ledger

namespace Command

def callLine (o : Options) (c : Call) : Line := ⟨.invoke c.name c.arguments, o⟩

/-- The disk after lines that make calls one after another. -/
def session (o : Options) (d : Disk) (calls : List Call) : Disk :=
  calls.foldl (fun d c => (runOn c.now d (callLine o c)).1) d

/-- What a line shows of what has come of its call. -/
def shown : Except Fault Outcome → Except Failure String
  | .ok o => .ok o.text
  | .error f => .error (.rejected f)

/-- A disk that differs from `d` in the state file alone, which holds the same records as `l`. -/
def Mirrors (o : Options) (d : Disk) (l : Ledger) (current : Disk) : Prop :=
  (current = d ∧ l.Alike .empty) ∨
    ∃ (s : String) (m : Ledger), current = (d.save o.statePath s.toUTF8).1 ∧
      Ledger.ofSnapshot? s.toUTF8 = some m ∧ l.Alike m

/-- What is assumed of the disk that a session starts on: the state file is not there, it can be
written, and the policy is loaded before and after that. -/
structure Ready (o : Options) (p : Policy) (d : Disk) : Prop where
  absent : d.look o.statePath = none
  policy : loadPolicy o.config (o.config.bind d.look) = .ok p
  saves : ∀ bytes, (d.save o.statePath bytes).2 = true
  policy_saved : ∀ bytes,
    loadPolicy o.config (o.config.bind (d.save o.statePath bytes).1.look) = .ok p

variable {o : Options} {p : Policy} {d current : Disk} {l : Ledger}

theorem Mirrors.exists_open (hready : Ready o p d) (h : Mirrors o d l current) :
    ∃ m, openLedger o.statePath (current.look o.statePath) = .ok m ∧ l.Alike m := by
  obtain ⟨rfl, halike⟩ | ⟨s, m, rfl, hread, halike⟩ := h
  · exact ⟨.empty, by rw [hready.absent]; rfl, halike⟩
  · refine ⟨m, ?_, halike⟩
    rw [Disk.look_save (hready.saves _)]
    simp only [openLedger, hread]

theorem Mirrors.policy (hready : Ready o p d) (h : Mirrors o d l current) :
    loadPolicy o.config (o.config.bind current.look) = .ok p := by
  obtain ⟨rfl, -⟩ | ⟨s, m, rfl, -⟩ := h
  · exact hready.policy
  · exact hready.policy_saved _

theorem Mirrors.save (hready : Ready o p d) (h : Mirrors o d l current) (bytes : ByteArray) :
    current.save o.statePath bytes = d.save o.statePath bytes := by
  obtain ⟨rfl, -⟩ | ⟨s, m, rfl, -⟩ := h
  · rfl
  · exact Disk.save_save (hready.saves _)

/-- A line that calls a function, once the policy and the ledger are there. -/
theorem run_callLine {c : Call} {f : Function} {config state : Option Entry} {m : Ledger}
    (hjson : o.format = some .json) (hname : Function.ofName? c.name = some f)
    (hpolicy : loadPolicy o.config config = .ok p) (hopen : openLedger o.statePath state = .ok m) :
    Command.run c.now (callLine o c) config state =
      match c.outcome p m with
      | .error fault => .error (.rejected fault)
      | .ok outcome =>
        if f.writes then
          match (outcome.apply m).snapshot? with
          | some s => .ok ⟨outcome.text, some s⟩
          | none => .error (.saving o.statePath)
        else .ok ⟨outcome.text, none⟩ := by
  have hexec : (Transaction.invoke p c.now c.name c.arguments).exec m
      = (c.outcome p m, leaves m (c.outcome p m)) := Prod.ext rfl Call.step_eq
  simp only [Command.run, callLine, Command.invoke, hname, hpolicy, hopen, bind, Except.bind, hexec]
  cases c.outcome p m with
  | error fault => rfl
  | ok outcome =>
    have hshown : showAnswer o.outputFormat c.name outcome.toJson = outcome.text := by
      simp only [showAnswer, Options.outputFormat, hjson, Option.getD_some, Outcome.text]
    dsimp only
    exact hshown ▸ rfl

theorem run_callLine_of_unknown {c : Call} {config state : Option Entry}
    (hname : Function.ofName? c.name = none) :
    Command.run c.now (callLine o c) config state
      = .error (.rejected (.unknownFunction c.name)) := by
  simp only [Command.run, callLine, Command.invoke, hname]

section

variable {now : Instant} {line : Line} {answer : String}

theorem runOn_of_error {f : Failure}
    (h : Command.run now line (line.options.config.bind current.look)
      (current.look line.options.statePath) = .error f) :
    runOn now current line = (current, .error f) := by
  rw [runOn, h]

theorem runOn_of_read
    (h : Command.run now line (line.options.config.bind current.look)
      (current.look line.options.statePath) = .ok ⟨answer, none⟩) :
    runOn now current line = (current, .ok answer) := by
  rw [runOn, h]

theorem runOn_of_saved {s : String}
    (h : Command.run now line (line.options.config.bind current.look)
      (current.look line.options.statePath) = .ok ⟨answer, some s⟩)
    (hsave : (current.save line.options.statePath s.toUTF8).2 = true) :
    runOn now current line
      = ((current.save line.options.statePath s.toUTF8).1, .ok answer) := by
  rw [runOn, h]
  simp only
  generalize current.save line.options.statePath s.toUTF8 = saved at hsave
  obtain ⟨after, done⟩ := saved
  obtain rfl : done = true := hsave
  rfl

end

/-- One line shows what its call comes to, and leaves a disk that mirrors the ledger after the
call. -/
theorem Mirrors.runOn (hready : Ready o p d) (hjson : o.format = some .json)
    (h : Mirrors o d l current) (c : Call) :
    (runOn c.now current (callLine o c)).2 = shown (c.outcome p l) ∧
      Mirrors o d (c.step p l) (runOn c.now current (callLine o c)).1 ∧
      (((∃ fault, c.outcome p l = .error fault) ∨
          ∀ f, Function.ofName? c.name = some f → f.writes = false) →
        (runOn c.now current (callLine o c)).1 = current) := by
  cases hname : Function.ofName? c.name with
  | none =>
    have houtcome : c.outcome p l = .error (.unknownFunction c.name) := by
      exact Call.outcome_of_unknown hname
    rw [runOn_of_error (run_callLine_of_unknown hname), houtcome, Call.step_of_error houtcome]
    exact ⟨rfl, h, fun _ => rfl⟩
  | some f =>
    obtain ⟨m, hopen, halike⟩ := h.exists_open hready
    have hrun := run_callLine hjson hname (h.policy hready) hopen
    rw [← outcome_alike halike p c] at hrun
    cases houtcome : c.outcome p l with
    | error fault =>
      simp only [houtcome] at hrun
      rw [runOn_of_error hrun, Call.step_of_error houtcome]
      exact ⟨rfl, h, fun _ => rfl⟩
    | ok outcome =>
      simp only [houtcome] at hrun
      rw [Call.step_of_ok houtcome]
      by_cases hwrites : f.writes = true
      · obtain ⟨s, n, hsnapshot, hread, hafter⟩ := (apply_alike halike outcome).exists_snapshot
        rw [if_pos hwrites, hsnapshot] at hrun
        have hsave : (current.save o.statePath s.toUTF8).2 = true := by
          rw [h.save hready]
          exact hready.saves _
        rw [runOn_of_saved hrun hsave]
        refine ⟨rfl, .inr ⟨s, n, ?_, hread, hafter⟩, ?_⟩
        · exact congrArg Prod.fst (h.save hready _)
        · rintro (⟨_, hfault⟩ | hreads)
          · simp at hfault
          · simp [hreads f rfl] at hwrites
      · rw [if_neg hwrites] at hrun
        have hreads : ∀ g, Function.ofName? c.name = some g → g.writes = false := by
          intro g hg
          obtain rfl := Option.some.inj (hname.symm.trans hg)
          simpa using hwrites
        rw [runOn_of_read hrun, ← Call.step_of_ok houtcome, Call.step_of_reads hreads]
        exact ⟨rfl, h, fun _ => rfl⟩

theorem Mirrors.session (hready : Ready o p d) (hjson : o.format = some .json)
    (calls : List Call) : ∀ {l : Ledger} {current : Disk}, Mirrors o d l current →
      Mirrors o d (calls.foldl (Call.step p) l)
        (calls.foldl (fun d c => (Command.runOn c.now d (callLine o c)).1) current) := by
  induction calls with
  | nil => exact id
  | cons c calls ih => exact fun h => ih (h.runOn hready hjson c).2.1

/-- Every line of a session shows what its call comes to on one ledger that is never saved; a line
that fails, or calls a function that only reads, leaves the disk as it was. -/
theorem session_shows_run (hready : Ready o p d) (hjson : o.format = some .json)
    (calls : List Call) (c : Call) :
    (runOn c.now (session o d calls) (callLine o c)).2 = shown (c.outcome p (House.run p calls)) ∧
      (((∃ fault, c.outcome p (House.run p calls) = .error fault) ∨
          ∀ f, Function.ofName? c.name = some f → f.writes = false) →
        (runOn c.now (session o d calls) (callLine o c)).1 = session o d calls) := by
  have hmirrors : Mirrors o d (House.run p calls) (session o d calls) :=
    Mirrors.session hready hjson calls (.inl ⟨rfl, Ledger.alike_empty⟩)
  obtain ⟨hshown, -, hsame⟩ := hmirrors.runOn hready hjson c
  exact ⟨hshown, hsame⟩

def sampleOptions : Options := ⟨false, some .json, some "s", none⟩

theorem ready_emptyDisk : Ready sampleOptions .standard emptyDisk where
  absent := by
    change emptyDisk.look "s" = none
    rw [Disk.look, parts_s]
    rfl
  policy := rfl
  saves := save_emptyDisk
  policy_saved _ := rfl

def agencyCall : Call :=
  ⟨signedTime, "CreateAgency",
    [(Json.object [("agencyID", .string "A"), ("name", .string "A"), ("consortiumID", .string "W"),
      ("role", .string "both"), ("status", .string "active")]).compact]⟩

def agenciesCall : Call := ⟨signedTime, "QueryAgenciesByStatus", ["active"]⟩

theorem session_shows_run_agenciesCall :
    (runOn signedTime (session sampleOptions emptyDisk [agencyCall])
        (callLine sampleOptions agenciesCall)).2
      = shown (agenciesCall.outcome .standard (House.run .standard [agencyCall])) ∧
    ((∃ fault, agenciesCall.outcome .standard (House.run .standard [agencyCall]) = .error fault) ∨
      (∀ f, Function.ofName? agenciesCall.name = some f → f.writes = false) →
        (runOn signedTime (session sampleOptions emptyDisk [agencyCall])
          (callLine sampleOptions agenciesCall)).1
          = session sampleOptions emptyDisk [agencyCall]) :=
  session_shows_run ready_emptyDisk rfl [agencyCall] agenciesCall

end Command

end TollClearing
