import TollClearing.Ledger.Snapshot
import TollClearing.Proofs.Ledger.Related

/-!
What is read back from the snapshot of a ledger (`ofSnapshot?_of_snapshot?`): the same names, with
every value written anew in canonical form after its numbers have been read from their text. The
object that holds the ledger takes up some of the depth that the reader allows, so a value can be
saved that nests too deep to be read back.
-/

set_option autoImplicit false

namespace TollClearing

namespace Json

variable {α β : Type}

theorem spread_map (gap last : List Char) (close : Char) (print : β → List Char) (f : α → β)
    (as : List α) :
    spread gap last close print (as.map f) = spread gap last close (print ∘ f) as := by
  induction as with
  | nil => rfl
  | cons a as ih => simp [spread, ih]

theorem spreadObject_map (gap last space : List Char) (print : β → List Char) (f : α → β)
    (ms : List (String × α)) :
    spreadObject gap last space print (ms.map fun m => (m.1, f m.2))
      = spreadObject gap last space (print ∘ f) ms := by
  cases ms with
  | nil => rfl
  | cons m ms =>
    simp only [List.map_cons, spreadObject, spread_map]
    rfl

theorem layOut_object_eq_cons (level : Nat) (ms : Members) :
    layOut level (.object ms) = '\x7b' :: (layOut level (.object ms)).tail := by
  cases ms <;> rfl

theorem readObject_layOut (item : String → List Char → Option (β × List Char)) (level : Nat)
    (toJson : α → Json) (f : String × α → Option β) (ms : List (String × α))
    (hitem : ∀ m ∈ ms, ∀ rest, NumberEnds rest →
      item m.1 (layOut (level + 1) (toJson m.2) ++ rest) = (f m).map fun b => (b, rest))
    (rest : List Char) :
    readObject readString item
        ((layOut level (.object (ms.map fun m => (m.1, toJson m.2)))).tail ++ rest)
      = (ms.mapM (named f)).map fun bs => (bs, rest) := by
  have hread : readObject readString item ((spreadObject (prettyStyle.gap level)
      (prettyStyle.last level) prettyStyle.space (layOut (level + 1) ∘ toJson) ms).tail ++ rest)
      = (ms.mapM (named f)).map fun bs => (bs, rest) :=
    readObject_spread item prettyStyle.isSpace_space (prettyStyle.isSpace_gap level)
      (prettyStyle.isSpace_last level) f ms
      (fun m _ => prettyStyle.solid_print (toJson m.2) (level + 1)) hitem rest
  have hprint := prettyStyle.print_object level (ms.map fun m => (m.1, toJson m.2))
  rw [spreadObject_map] at hprint
  rw [← hread]
  exact congrArg (fun s => readObject readString item (s.tail ++ rest)) hprint

end Json

namespace Ledger

open Json Text

def valueOf (bytes : ByteArray) : Json := (Json.ofBytes? bytes).getD .null

/-- The tree that a value is saved as. -/
def tree (bytes : ByteArray) : Json := (valueOf bytes).canonical

def reread? (depth : Nat) (bytes : ByteArray) : Option ByteArray :=
  (Json.reread? depth (tree bytes)).map valueBytes

def snapshotJson (l : Ledger) : Json :=
  .object [("shared", .object (l.shared.map tree).rows),
    ("partitions", .object (l.partitions.map fun t => .object (t.map tree).rows).rows)]

theorem readTable_layOut (depth : Nat) (t : Table ByteArray) (level : Nat) (rest : List Char) :
    readTable depth (layOut level (.object (t.map tree).rows) ++ rest)
      = (t.mapM? (reread? depth)).map fun t => (t, rest) := by
  have hread := readObject_layOut (fun _ => Json.read depth) level tree
    (fun m => Json.reread? depth (tree m.2)) t.rows
    (fun m _ rest hrest => prettyStyle.read_print depth (tree m.2) (level + 1) hrest) rest
  have hrows : (t.map tree).rows = t.rows.map fun m => (m.1, tree m.2) := rfl
  have hmap : t.mapM? (reread? depth)
      = (t.mapM? fun bytes => Json.reread? depth (tree bytes)).map (Table.map valueBytes) :=
    (Table.map_mapM? _ valueBytes t).symm
  rw [layOut_object_eq_cons, List.cons_append, readTable, hrows, hread, hmap, Table.mapM?,
    Option.map_map, Option.map_map, Option.map_map]
  rfl

theorem readPartitions_layOut (ts : Table (Table ByteArray)) (level : Nat) (rest : List Char) :
    readPartitions
        (layOut level (.object (ts.map fun t => .object (t.map tree).rows).rows) ++ rest)
      = (ts.mapM? fun t => t.mapM? (reread? (maxDepth - 3))).map fun ts => (ts, rest) := by
  have hread := readObject_layOut (fun _ => readTable (maxDepth - 3)) level
    (fun t : Table ByteArray => Json.object (t.map tree).rows)
    (fun part => part.2.mapM? (reread? (maxDepth - 3))) ts.rows
    (fun part _ rest _ => readTable_layOut (maxDepth - 3) part.2 (level + 1) rest) rest
  have hrows : (ts.map fun t => Json.object (t.map tree).rows).rows
      = ts.rows.map fun part => (part.1, .object (part.2.map tree).rows) := rfl
  rw [layOut_object_eq_cons, List.cons_append, readPartitions, hrows, hread, Table.mapM?,
    Option.map_map, Option.map_map]
  rfl

/-- How deep the values of a scope may nest to be read back: two levels of the reader's depth are
taken up by the object that holds the shared values, three by the one that holds the partitions. -/
def room : Scope → Nat
  | .shared => maxDepth - 2
  | .partition _ => maxDepth - 3

def reloaded? (l : Ledger) : Option Ledger := do
  let shared ← l.shared.mapM? (reread? (maxDepth - 2))
  let partitions ← l.partitions.mapM? fun t => t.mapM? (reread? (maxDepth - 3))
  some ⟨shared, partitions⟩

theorem readSnapshot_layOut (l : Ledger) :
    readSnapshot .characters (layOut 0 l.snapshotJson) = l.reloaded?.map fun m => (m, []) := by
  have hparts := readObject_layOut (readPart .characters) 0 id
    (fun m => if m.1 = "shared" then (l.shared.mapM? (reread? (maxDepth - 2))).map .shared
      else (l.partitions.mapM? fun t => t.mapM? (reread? (maxDepth - 3))).map .partitions)
    [("shared", .object (l.shared.map tree).rows),
      ("partitions", .object (l.partitions.map fun t => .object (t.map tree).rows).rows)]
    (by
      intro m hm rest _
      rcases List.mem_pair.1 hm with rfl | rfl
      · simp [readPart, Alphabet.read, readShared, readTable_layOut, Function.comp_def]
      · simp [readPart, Alphabet.read, readPartitions_layOut, Function.comp_def]) []
  simp only [id, List.map_id', List.append_nil] at hparts
  rw [snapshotJson, layOut_object_eq_cons, readSnapshot]
  change (readObject readString (readPart .characters) _ >>= _) = _
  rw [hparts, reloaded?]
  cases l.shared.mapM? (reread? (maxDepth - 2)) with
  | none => rfl
  | some shared =>
    cases (l.partitions.mapM? fun t => t.mapM? (reread? (maxDepth - 3))) <;> rfl

theorem ofSnapshot?_pretty (l : Ledger) :
    ofSnapshot? l.snapshotJson.pretty.toUTF8 = l.reloaded? := by
  have hskip : skipSpace (layOut 0 l.snapshotJson) = layOut 0 l.snapshotJson :=
    skipSpace_print prettyStyle l.snapshotJson 0
  rw [ofSnapshot?, fromUTF8?_toUTF8]
  simp only [readAll, pretty, String.toList_ofList, hskip, readSnapshot_layOut]
  cases l.reloaded? <;> simp

variable {l m : Ledger}

theorem tableJson?_eq {t : Table ByteArray}
    (h : ∀ row ∈ t.rows, (Json.ofBytes? row.2).isSome) :
    tableJson? t = some (.object (t.map tree).rows) := by
  have hrows : (t.mapM? fun bytes => (Json.ofBytes? bytes).map canonical) = some (t.map tree) := by
    refine Table.mapM?_eq_some fun row hrow => ?_
    obtain ⟨v, hv⟩ := Option.isSome_iff_exists.1 (h row hrow)
    rw [tree, valueOf, hv, Option.map_some, Option.getD_some]
  rw [tableJson?, hrows, Option.map_some]

theorem isSome_tableJson? {t : Table ByteArray} :
    (tableJson? t).isSome ↔ ∀ row ∈ t.rows, (Json.ofBytes? row.2).isSome := by
  rw [tableJson?, Option.isSome_map, Table.isSome_mapM?]
  simp

def AllJson (l : Ledger) : Prop :=
  ∀ slot bytes, l.find? slot = some bytes → (Json.ofBytes? bytes).isSome

theorem toJson?_eq (h : l.AllJson) : l.toJson? = some l.snapshotJson := by
  obtain ⟨hshared, hpartitions⟩ :=
    forall_find?_iff (P := fun _ bytes => (Json.ofBytes? bytes).isSome) |>.1 h
  have htables : l.partitions.mapM? tableJson?
      = some (l.partitions.map fun t => .object (t.map tree).rows) :=
    Table.mapM?_eq_some fun part hpart => tableJson?_eq (hpartitions part hpart)
  rw [toJson?, tableJson?_eq hshared, htables]
  rfl

theorem isSome_snapshot? : l.snapshot?.isSome ↔ l.AllJson := by
  refine ⟨fun h => ?_, fun h => by rw [snapshot?, toJson?_eq h]; rfl⟩
  rw [snapshot?, Option.isSome_map, toJson?] at h
  refine (forall_find?_iff (P := fun _ bytes => (Json.ofBytes? bytes).isSome)).2 ?_
  cases hshared : tableJson? l.shared with
  | none => simp [hshared] at h
  | some shared =>
    cases hpartitions : l.partitions.mapM? tableJson? with
    | none => simp [hshared, hpartitions] at h
    | some partitions =>
      refine ⟨isSome_tableJson?.1 (Option.isSome_of_eq_some hshared), fun part hpart => ?_⟩
      exact isSome_tableJson?.1
        (Table.isSome_mapM?.1 (Option.isSome_of_eq_some hpartitions) part hpart)

theorem ofSnapshot?_of_snapshot? {s : String} (h : l.snapshot? = some s) :
    ofSnapshot? s.toUTF8 = l.reloaded? := by
  have hall : l.AllJson := isSome_snapshot?.1 (Option.isSome_of_eq_some h)
  rw [snapshot?, toJson?_eq hall, Option.map_some] at h
  rw [← Option.some.inj h, ofSnapshot?_pretty]

theorem reloaded?_eq_some_iff :
    l.reloaded? = some m ↔ l.Related (fun a b => reread? (maxDepth - 2) a = some b)
      (fun a b => reread? (maxDepth - 3) a = some b) m := by
  have htables : ∀ t u : Table ByteArray, t.mapM? (reread? (maxDepth - 3)) = some u ↔
      t.Related (fun a b => reread? (maxDepth - 3) a = some b) u := fun t u =>
    Table.mapM?_eq_some_iff
  simp only [reloaded?, Option.bind_eq_bind, Option.bind_eq_some_iff, Table.mapM?_eq_some_iff,
    htables, Option.some.injEq]
  constructor
  · rintro ⟨shared, hshared, partitions, hpartitions, rfl⟩
    exact ⟨hshared, hpartitions⟩
  · exact fun h => ⟨m.shared, h.shared, m.partitions, h.partitions, rfl⟩

theorem isSome_reread?_iff {depth : Nat} {bytes : ByteArray} :
    (reread? depth bytes).isSome ↔ (tree bytes).Within (fun n => n.reread?.isSome) depth := by
  rw [reread?, Option.isSome_map, isSome_reread?]

/-- A ledger is read back from its snapshot just if no value nests too deep and all numbers can be
read from their text. -/
theorem isSome_reloaded? :
    l.reloaded?.isSome ↔ ∀ slot bytes, l.find? slot = some bytes →
      (tree bytes).Within (fun n => n.reread?.isSome) (room slot.scope) := by
  simp only [← isSome_reread?_iff]
  rw [forall_find?_iff (P := fun scope bytes => (reread? (room scope) bytes).isSome)]
  have hboth : l.reloaded?.isSome ↔ (l.shared.mapM? (reread? (maxDepth - 2))).isSome ∧
      (l.partitions.mapM? fun t => t.mapM? (reread? (maxDepth - 3))).isSome := by
    rw [reloaded?]
    cases l.shared.mapM? (reread? (maxDepth - 2)) <;>
      cases l.partitions.mapM? fun t => t.mapM? (reread? (maxDepth - 3)) <;> simp
  simp only [hboth, Table.isSome_mapM?]
  rfl

theorem find?_reloaded (h : l.reloaded? = some m) (slot : Slot) :
    m.find? slot = (l.find? slot).bind (reread? (room slot.scope)) := by
  have hrelated := reloaded?_eq_some_iff.1 h
  obtain ⟨scope, key⟩ := slot
  have hrel : Option.Rel (fun a b => reread? (room scope) a = some b) (l.find? ⟨scope, key⟩)
      (m.find? ⟨scope, key⟩) := by
    cases scope with
    | shared => exact hrelated.shared.find? key
    | partition name => exact (hrelated.partition name).find? key
  cases hl : l.find? ⟨scope, key⟩ <;> cases hm : m.find? ⟨scope, key⟩ <;>
    rw [hl, hm] at hrel <;> cases hrel
  · rfl
  · rename_i hread
    exact hread.symm

/-- A value that is read back is the text of its tree with the numbers read anew. -/
theorem exists_find?_reloaded (h : l.reloaded? = some m) {slot : Slot} {bytes : ByteArray}
    (hfind : l.find? slot = some bytes) :
    ∃ v, Json.reread? (room slot.scope) (tree bytes) = some v ∧
      m.find? slot = some (valueBytes v) := by
  have hwithin := isSome_reloaded?.1 (Option.isSome_of_eq_some h) slot bytes hfind
  obtain ⟨v, hv⟩ := Option.isSome_iff_exists.1 (isSome_reread?.2 hwithin)
  refine ⟨v, hv, ?_⟩
  rw [find?_reloaded h, hfind, Option.bind_some, reread?, hv, Option.map_some]

theorem valueBytes_tree (bytes : ByteArray) :
    valueBytes (tree bytes) = valueBytes (valueOf bytes) := by
  rw [valueBytes, tree, canonical_canonical, valueBytes]

def rewritten (l : Ledger) : Ledger :=
  let write bytes := valueBytes (valueOf bytes)
  ⟨l.shared.map write, l.partitions.map fun t => t.map write⟩

theorem table_rewritten (l : Ledger) (scope : Scope) :
    l.rewritten.table scope = (l.table scope).map fun bytes => valueBytes (valueOf bytes) := by
  cases scope with
  | shared => rfl
  | partition name =>
    simp only [table, rewritten, Table.find?_map]
    cases l.partitions.find? name <;> rfl

/-- No value nests too deep to be read back, and every number is read from its text as it is. -/
def Steady (l : Ledger) : Prop :=
  ∀ slot bytes, l.find? slot = some bytes →
    (tree bytes).Within (fun n => n.reread? = some n) (room slot.scope)

theorem room_le_maxDepth (scope : Scope) : room scope ≤ maxDepth := by
  cases scope <;> simp [room]

theorem Steady.reloaded?_eq (h : l.Steady) : l.reloaded? = some l.rewritten := by
  have hreread : ∀ slot bytes, l.find? slot = some bytes →
      reread? (room slot.scope) bytes = some (valueBytes (valueOf bytes)) := by
    intro slot bytes hfind
    rw [reread?, reread?_of_within (h slot bytes hfind), Option.map_some, valueBytes_tree]
  obtain ⟨hshared, hpartitions⟩ := forall_find?_iff
    (P := fun scope bytes => reread? (room scope) bytes = some (valueBytes (valueOf bytes))) |>.1
      hreread
  have hwritten : ∀ (depth : Nat) (t : Table ByteArray),
      (∀ row ∈ t.rows, reread? depth row.2 = some (valueBytes (valueOf row.2))) →
        t.mapM? (reread? depth) = some (t.map fun bytes => valueBytes (valueOf bytes)) :=
    fun depth t h => Table.mapM?_eq_some h
  rw [reloaded?, hwritten (maxDepth - 2) _ hshared,
    Table.mapM?_eq_some fun part hpart => hwritten (maxDepth - 3) _ (hpartitions part hpart)]
  rfl

theorem Steady.sameTree (h : l.Steady) (hall : l.AllJson) {slot : Slot} {bytes : ByteArray}
    (hfind : l.find? slot = some bytes) : SameTree bytes (valueBytes (valueOf bytes)) := by
  obtain ⟨v, hv⟩ := Option.isSome_iff_exists.1 (hall slot bytes hfind)
  have htree : tree bytes = v.canonical := by rw [tree, valueOf, hv, Option.getD_some]
  have hread : Json.ofBytes? (valueBytes (valueOf bytes)) = some (tree bytes) := by
    rw [valueBytes, ofBytes?_compact_eq]
    exact reread?_of_within ((h slot bytes hfind).mono (room_le_maxDepth slot.scope))
  rw [SameTree, hv, hread, Option.map_some, Option.map_some, htree, canonical_canonical]

theorem Steady.related_rewritten (h : l.Steady) (hall : l.AllJson) :
    l.Related SameTree SameTree l.rewritten := by
  obtain ⟨hshared, hpartitions⟩ := forall_find?_iff
    (P := fun _ bytes => SameTree bytes (valueBytes (valueOf bytes))) |>.1
      fun _ _ hfind => h.sameTree hall hfind
  have hrelated : ∀ t : Table ByteArray,
      (∀ row ∈ t.rows, SameTree row.2 (valueBytes (valueOf row.2))) →
        t.Related SameTree (t.map fun bytes => valueBytes (valueOf bytes)) := fun t h =>
    List.forall₂_map_right_iff.2 (List.forall₂_same.2 fun row hrow => ⟨rfl, h row hrow⟩)
  exact ⟨hrelated _ hshared, List.forall₂_map_right_iff.2 (List.forall₂_same.2 fun part hpart =>
    ⟨rfl, hrelated _ (hpartitions part hpart)⟩)⟩

/-- Every value of the ledger is the text of a JSON value that nests `depth` deep at most. -/
def HoldsJson (depth : Nat) (l : Ledger) : Prop :=
  ∀ scope, ∀ row ∈ (l.table scope).rows, ∃ v : Json, Json.ofBytes? row.2 = some v ∧ v.Shallow depth

theorem HoldsJson.exists_shallow {depth : Nat} (h : l.HoldsJson depth) {slot : Slot}
    {bytes : ByteArray} (hfind : l.find? slot = some bytes) :
    ∃ v : Json, Json.ofBytes? bytes = some v ∧ v.Shallow depth :=
  h slot.scope (slot.key, bytes) (Table.find?_eq_some_iff.1 hfind)

theorem HoldsJson.steady (h : l.HoldsJson (maxDepth - 3)) : l.Steady := by
  intro slot bytes hfind
  obtain ⟨v, hv, hshallow⟩ := h.exists_shallow hfind
  have hroom : maxDepth - 3 ≤ room slot.scope := by cases slot.scope <;> simp [room, maxDepth]
  rw [tree, valueOf, hv, Option.getD_some]
  exact ((hshallow.mono hroom).imp fun _ hn => hn.reread?).canonical

/-- A ledger of shallow JSON texts has a snapshot, and is read back from it with its values written
anew. -/
theorem ofSnapshot?_snapshot? (h : l.HoldsJson (maxDepth - 3)) :
    ∃ s, l.snapshot? = some s ∧ ofSnapshot? s.toUTF8 = some l.rewritten := by
  have hall : l.AllJson := fun slot bytes hfind =>
    Option.isSome_iff_exists.2 ((h.exists_shallow hfind).imp fun _ hv => hv.1)
  obtain ⟨s, hs⟩ := Option.isSome_iff_exists.1 (isSome_snapshot?.2 hall)
  exact ⟨s, hs, by rw [ofSnapshot?_of_snapshot? hs, h.steady.reloaded?_eq]⟩

end Ledger

end TollClearing
