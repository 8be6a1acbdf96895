import TollClearing.Command.Run
import TollClearing.Proofs.Command.Disk
import TollClearing.Proofs.Ledger.Snapshot

/-!
A ledger that is saved in a file and opened again. It is saved if all its values are JSON texts,
but it is opened again only if none of them nests so deep that, with the object around it, it
exceeds what the reader allows (`nested_not_opened`). Then all names are as they were, and every
value is the tree that was saved with its numbers read from their text.
-/

set_option autoImplicit false

namespace TollClearing.Command

open Json Ledger House

/-- Saves a ledger in a file if it has a snapshot. The disk that results, and whether the file has
been written. -/
def saveLedger (d : Disk) (path : String) (l : Ledger) : Disk × Bool :=
  match l.snapshot? with
  | some s => d.save path s.toUTF8
  | none => (d, false)

variable {d : Disk} {path : String} {l m : Ledger}

theorem saveLedger_of_snapshot? {s : String} (h : l.snapshot? = some s) :
    saveLedger d path l = d.save path s.toUTF8 := by rw [saveLedger, h]

/-- A line whose function may change the ledger saves it in this way, and fails if it cannot. -/
theorem runOn_invoke {now : Instant} {o : Options} {name : String} {arguments : List String}
    {f : Function} {p : Policy} {outcome : Outcome} (hname : Function.ofName? name = some f)
    (hwrites : f.writes = true) (hpolicy : loadPolicy o.config (o.config.bind d.look) = .ok p)
    (hopen : openLedger o.statePath (d.look o.statePath) = .ok l)
    (hexec : (Transaction.invoke p now name arguments).exec l = (.ok outcome, m)) :
    runOn now d ⟨.invoke name arguments, o⟩ =
      ((saveLedger d o.statePath m).1,
        bif (saveLedger d o.statePath m).2 then
          .ok (showAnswer o.outputFormat name outcome.toJson)
        else .error (.saving o.statePath)) := by
  cases hsnapshot : m.snapshot? with
  | none =>
    have hrun : Command.run now ⟨.invoke name arguments, o⟩ (o.config.bind d.look)
        (d.look o.statePath) = .error (.saving o.statePath) := by
      simp only [Command.run, Command.invoke, hname, hpolicy, hopen, bind, Except.bind, hexec,
        hwrites, if_true, hsnapshot]
    rw [runOn, saveLedger, hsnapshot]
    simp only [hrun]
    rfl
  | some s =>
    have hrun : Command.run now ⟨.invoke name arguments, o⟩ (o.config.bind d.look)
        (d.look o.statePath) = .ok ⟨showAnswer o.outputFormat name outcome.toJson, some s⟩ := by
      simp only [Command.run, Command.invoke, hname, hpolicy, hopen, bind, Except.bind, hexec,
        hwrites, if_true, hsnapshot]
    rw [runOn, saveLedger, hsnapshot]
    simp only [hrun]
    rcases d.save o.statePath s.toUTF8 with ⟨after, _ | _⟩ <;> rfl

theorem saveLedger_of_not_allJson (h : ¬ l.AllJson) : saveLedger d path l = (d, false) := by
  have hnone : l.snapshot? = none := by
    rwa [← isSome_snapshot?, Option.not_isSome_iff_eq_none] at h
  rw [saveLedger, hnone]

theorem not_allJson_iff :
    ¬ l.AllJson ↔ ∃ slot bytes, l.find? slot = some bytes ∧ Json.ofBytes? bytes = none := by
  simp [AllJson]

section

variable (hdisk : ∀ bytes, (d.save path bytes).2 = true)

include hdisk

theorem saved_iff_allJson : (saveLedger d path l).2 = true ↔ l.AllJson := by
  refine ⟨fun h => ?_, fun h => ?_⟩
  · by_contra hnot
    rw [saveLedger_of_not_allJson hnot] at h
    cases h
  · obtain ⟨s, hs⟩ := Option.isSome_iff_exists.1 (isSome_snapshot?.2 h)
    rw [saveLedger_of_snapshot? hs]
    exact hdisk _

theorem openLedger_saveLedger (h : l.AllJson) :
    openLedger path ((saveLedger d path l).1.look path) = .ok m ↔ l.reloaded? = some m := by
  obtain ⟨s, hs⟩ := Option.isSome_iff_exists.1 (isSome_snapshot?.2 h)
  have hread := ofSnapshot?_of_snapshot? hs
  rw [saveLedger_of_snapshot? hs, Disk.look_save (hdisk _)]
  simp only [openLedger, hread]
  cases l.reloaded? <;> simp

theorem saveLedger_saveLedger (h : l.AllJson) (hm : m.snapshot? = l.snapshot?) :
    saveLedger (saveLedger d path l).1 path m = saveLedger d path l := by
  obtain ⟨s, hs⟩ := Option.isSome_iff_exists.1 (isSome_snapshot?.2 h)
  rw [saveLedger_of_snapshot? (hm.trans hs), saveLedger_of_snapshot? hs,
    Disk.save_save (hdisk _)]

end

/-- Empty arrays inside each other, `n + 1` of them. -/
def brackets : Nat → Json
  | 0 => .array []
  | n + 1 => .array [brackets n]

theorem within_brackets {p : Number → Prop} {depth n : Nat} :
    (brackets n).Within p depth ↔ n < depth := by
  induction n generalizing depth with
  | zero => cases depth <;> simp [brackets, Within]
  | succ n ih => cases depth <;> simp [brackets, Within, ih]

theorem canonical_brackets (n : Nat) : (brackets n).canonical = brackets n := by
  induction n with
  | zero => rfl
  | succ n ih => rw [brackets, canonical_array, List.map_singleton, ih]

def nested (scope : Scope) (n : Nat) : Ledger :=
  Ledger.empty.write ⟨scope, "K"⟩ (brackets n).compact.toUTF8

theorem find?_nested {scope : Scope} {n : Nat} {slot : Slot} {bytes : ByteArray} :
    (nested scope n).find? slot = some bytes ↔
      slot = ⟨scope, "K"⟩ ∧ bytes = (brackets n).compact.toUTF8 := by
  by_cases h : slot = ⟨scope, "K"⟩
  · rw [nested, h, find?_write]
    simp [eq_comm]
  · have hempty : Ledger.empty.find? slot = none := by
      obtain ⟨scope, key⟩ := slot
      cases scope <;> rfl
    rw [nested, find?_write_of_ne h, hempty]
    simp [h]

section

variable {scope : Scope} {n : Nat} (h : n < maxDepth)

include h

theorem ofBytes?_brackets : Json.ofBytes? (brackets n).compact.toUTF8 = some (brackets n) :=
  ofBytes?_compact (within_brackets.2 h)

theorem tree_brackets : tree (brackets n).compact.toUTF8 = brackets n := by
  rw [tree, valueOf, ofBytes?_brackets h, Option.getD_some, canonical_brackets]

theorem allJson_nested : (nested scope n).AllJson := by
  intro slot bytes hfind
  rw [(find?_nested.1 hfind).2, ofBytes?_brackets h]
  rfl

theorem steady_nested (hroom : n < room scope) : (nested scope n).Steady := by
  intro slot bytes hfind
  obtain ⟨rfl, rfl⟩ := find?_nested.1 hfind
  rw [tree_brackets h]
  exact within_brackets.2 hroom

/-- A value that nests too deep is saved, and then the ledger cannot be opened. -/
theorem nested_not_opened (hdisk : ∀ bytes, (d.save path bytes).2 = true)
    (hroom : room scope ≤ n) :
    (saveLedger d path (nested scope n)).2 = true ∧
      ∀ m, openLedger path ((saveLedger d path (nested scope n)).1.look path) ≠ .ok m := by
  have hall : (nested scope n).AllJson := allJson_nested h
  refine ⟨(saved_iff_allJson hdisk).2 hall, fun m hopened => ?_⟩
  have hreloaded := (openLedger_saveLedger hdisk hall).1 hopened
  have hfind : (nested scope n).find? ⟨scope, "K"⟩ = some (brackets n).compact.toUTF8 :=
    find?_nested.2 ⟨rfl, rfl⟩
  have hsome := isSome_reloaded?.1 (Option.isSome_of_eq_some hreloaded) _ _ hfind
  rw [tree_brackets h, within_brackets] at hsome
  exact Nat.not_lt.2 hroom hsome

end

/-- 126 arrays inside each other, in the store that all agencies share. -/
theorem nested_shared_not_opened :
    (saveLedger emptyDisk "s" (nested .shared 125)).2 = true ∧
      ∀ m, openLedger "s" ((saveLedger emptyDisk "s" (nested .shared 125)).1.look "s") ≠ .ok m :=
  nested_not_opened (by decide) save_emptyDisk (by decide)

/-- What becomes of a ledger that is saved and opened again. It is saved just if all its values are
JSON texts. It is opened just if no tree nests too deep and all numbers can be read from their text;
then the names are the same, and every value is the text of its tree read anew. A steady ledger is
opened with the same trees, so that queries find the same keys and the same file is saved again. -/
theorem opened_of_saved (hdisk : ∀ bytes, (d.save path bytes).2 = true) (l : Ledger) :
    let saved := saveLedger d path l
    let opened := openLedger path (saved.1.look path)
    (saved.2 = false ↔ ∃ slot bytes, l.find? slot = some bytes ∧ Json.ofBytes? bytes = none) ∧
    (saved.2 = false → saved.1 = d) ∧
    (saved.2 = true →
      ((∃ m, opened = .ok m) ↔ ∀ slot bytes, l.find? slot = some bytes →
        (tree bytes).Within (fun n => n.reread?.isSome) (room slot.scope)) ∧
      ∀ m, opened = .ok m →
        m.partitions.names = l.partitions.names ∧
        (∀ scope, (m.table scope).names = (l.table scope).names) ∧
        ∀ slot bytes, l.find? slot = some bytes →
          ∃ v, Json.reread? (room slot.scope) (tree bytes) = some v ∧
            m.find? slot = some (valueBytes v)) ∧
    (saved.2 = true → l.Steady →
      ∃ m, opened = .ok m ∧ l.Related SameTree SameTree m ∧
        (∀ scope s, (m.query scope s).map (List.map Prod.fst)
          = (l.query scope s).map (List.map Prod.fst)) ∧
        saveLedger saved.1 path m = saved) := by
  intro saved opened
  have hsaved : saved.2 = true ↔ l.AllJson := saved_iff_allJson hdisk
  refine ⟨?_, ?_, ?_, ?_⟩
  · rw [← Bool.not_eq_true, hsaved, not_allJson_iff]
  · intro hfailed
    have hnot : ¬ l.AllJson := by
      rw [← hsaved, hfailed]
      decide
    exact congrArg Prod.fst (saveLedger_of_not_allJson hnot)
  · intro hwritten
    have hall := hsaved.1 hwritten
    refine ⟨?_, fun m hopened => ?_⟩
    · have hsome : (∃ m, opened = .ok m) ↔ l.reloaded?.isSome := by
        rw [Option.isSome_iff_exists]
        exact exists_congr fun m => openLedger_saveLedger hdisk hall
      rw [hsome, isSome_reloaded?]
    · have hreloaded := (openLedger_saveLedger hdisk hall).1 hopened
      have hrelated := reloaded?_eq_some_iff.1 hreloaded
      exact ⟨hrelated.partitions.names_eq, hrelated.names_eq,
        fun _ _ hfind => exists_find?_reloaded hreloaded hfind⟩
  · intro hwritten hsteady
    have hall := hsaved.1 hwritten
    have hrelated := hsteady.related_rewritten hall
    exact ⟨l.rewritten, (openLedger_saveLedger hdisk hall).2 hsteady.reloaded?_eq, hrelated,
      keys_query_eq hrelated, saveLedger_saveLedger hdisk hall (snapshot?_eq hrelated)⟩

theorem opened_of_saved_nested :
    ∃ m, openLedger "s" ((saveLedger emptyDisk "s" (nested (.partition "P") 123)).1.look "s")
        = .ok m ∧
      (nested (.partition "P") 123).Related SameTree SameTree m ∧
      (∀ scope s, (m.query scope s).map (List.map Prod.fst)
        = ((nested (.partition "P") 123).query scope s).map (List.map Prod.fst)) ∧
      saveLedger (saveLedger emptyDisk "s" (nested (.partition "P") 123)).1 "s" m
        = saveLedger emptyDisk "s" (nested (.partition "P") 123) := by
  have hsaved : (saveLedger emptyDisk "s" (nested (.partition "P") 123)).2 = true :=
    (saved_iff_allJson save_emptyDisk).2 (allJson_nested (by decide))
  have hsteady : (nested (.partition "P") 123).Steady := steady_nested (by decide) (by decide)
  exact (opened_of_saved save_emptyDisk (nested (.partition "P") 123)).2.2.2 hsaved hsteady

end TollClearing.Command
