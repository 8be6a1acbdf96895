import TollClearing.Proofs.Ledger.Snapshot

/-!
The names of a ledger. No value is put under an empty name, and a partition is listed only once
there is a value in it. A file is read without a look at its names, so that it can bring in an empty
one, or a partition that holds nothing. Nothing else does, and what a query finds under a name that
is not empty can be read back from any ledger.
-/

set_option autoImplicit false

namespace TollClearing.Ledger

open Json

/-- What can be wrong with the names of a ledger. -/
inductive Flaw where
  | emptyKey (scope : Scope)
  | emptyPartition
  | vacant (name : String)

/-- A ledger has a flaw: a key of a scope is empty, the name of a partition is empty, or a partition
is listed that holds nothing. -/
def Has (l : Ledger) : Flaw → Prop
  | .emptyKey scope => "" ∈ (l.table scope).names
  | .emptyPartition => "" ∈ l.partitions.names
  | .vacant name => name ∈ l.partitions.names ∧ (l.table (.partition name)).names = []

variable {l m : Ledger}

theorem not_has_empty (flaw : Flaw) : ¬ empty.Has flaw := by
  cases flaw with
  | emptyKey scope => cases scope <;> exact List.not_mem_nil
  | emptyPartition => exact List.not_mem_nil
  | vacant name => exact fun h => List.not_mem_nil h.1

theorem Related.has_iff {R Q : ByteArray → ByteArray → Prop} (h : l.Related R Q m) (flaw : Flaw) :
    m.Has flaw ↔ l.Has flaw := by
  cases flaw <;> simp only [Has, h.names_eq, h.partitions.names_eq]

theorem checkScope_eq_ok_iff {scope : Scope} :
    checkScope scope = .ok () ↔ scope ≠ .partition "" := by
  cases scope <;> simp [checkScope]

theorem checkSlot_eq_ok_iff {slot : Slot} :
    checkSlot slot = .ok () ↔ slot.scope ≠ .partition "" ∧ slot.key ≠ "" := by
  simp only [checkSlot, bind_unit_eq_ok, checkScope_eq_ok_iff]
  refine and_congr_right fun _ => ?_
  split <;> simp_all

theorem put_eq_ok {slot : Slot} {value : ByteArray} (h : l.put slot value = .ok m) :
    slot.scope ≠ .partition "" ∧ slot.key ≠ "" ∧ m = l.write slot value := by
  obtain ⟨hslot, hm⟩ := bind_unit_eq_ok.1 h
  obtain ⟨hscope, hkey⟩ := checkSlot_eq_ok_iff.1 hslot
  exact ⟨hscope, hkey, (Except.ok.inj hm).symm⟩

theorem mem_names_write {slot : Slot} {value : ByteArray} {scope : Scope} {key : String} :
    key ∈ ((l.write slot value).table scope).names ↔
      ⟨scope, key⟩ = slot ∨ key ∈ (l.table scope).names := by
  obtain ⟨target, name⟩ := slot
  rw [table_write]
  by_cases h : scope = target
  · subst h
    simp [Table.mem_names_insert]
  · simp [h]

theorem mem_partitions_write {slot : Slot} {value : ByteArray} {name : String} :
    name ∈ (l.write slot value).partitions.names ↔
      .partition name = slot.scope ∨ name ∈ l.partitions.names := by
  obtain ⟨target, key⟩ := slot
  cases target with
  | shared => simp [write]
  | partition other => simp [write, Table.mem_names_insert]

/-- A value that is put into a ledger brings no flaw into it. -/
theorem has_of_has_put {slot : Slot} {value : ByteArray} (h : l.put slot value = .ok m)
    {flaw : Flaw} (hflaw : m.Has flaw) : l.Has flaw := by
  obtain ⟨hscope, hkey, rfl⟩ := put_eq_ok h
  cases flaw with
  | emptyKey scope =>
    obtain rfl | hold := mem_names_write.1 hflaw
    · exact absurd rfl hkey
    · exact hold
  | emptyPartition =>
    obtain hnew | hold := mem_partitions_write.1 hflaw
    · exact absurd hnew.symm hscope
    · exact hold
  | vacant name =>
    obtain ⟨hlisted, hnone⟩ := hflaw
    have hother : .partition name ≠ slot.scope := by
      intro hsame
      have hnew : slot.key ∈ ((l.write slot value).table (.partition name)).names :=
        mem_names_write.2 (.inl (hsame ▸ rfl))
      rw [hnone] at hnew
      cases hnew
    refine ⟨(mem_partitions_write.1 hlisted).resolve_left hother, ?_⟩
    rwa [table_write, if_neg hother] at hnone

/-- The ledgers that come from values that are put, from snapshots of such ledgers, and from
files. -/
inductive Reached (file : ByteArray → Prop) : Ledger → Prop where
  | empty : Reached file .empty
  | put {l m : Ledger} {slot : Slot} {value : ByteArray} (h : Reached file l)
    (hput : l.put slot value = .ok m) : Reached file m
  | reload {l m : Ledger} {s : String} (h : Reached file l) (hsave : l.snapshot? = some s)
    (hload : ofSnapshot? s.toUTF8 = some m) : Reached file m
  | load {l : Ledger} {bytes : ByteArray} (hfile : file bytes)
    (hload : ofSnapshot? bytes = some l) : Reached file l

/-- Every flaw comes from a file. -/
theorem Reached.exists_file {file : ByteArray → Prop} (h : Reached file l) {flaw : Flaw}
    (hflaw : l.Has flaw) :
    ∃ bytes m, file bytes ∧ ofSnapshot? bytes = some m ∧ m.Has flaw := by
  induction h with
  | empty => exact absurd hflaw (not_has_empty flaw)
  | put _ hput ih => exact ih (has_of_has_put hput hflaw)
  | reload _ hsave hload ih =>
    rw [ofSnapshot?_of_snapshot? hsave] at hload
    exact ih (((reloaded?_eq_some_iff.1 hload).has_iff flaw).1 hflaw)
  | load hfile hload => exact ⟨_, _, hfile, hload, hflaw⟩

theorem mem_rows_of_mem_select {scope : Scope} {s : Selector} {hit : String × ByteArray}
    (h : hit ∈ l.select scope s) : hit ∈ (l.table scope).rows := by
  rw [select] at h
  split at h
  · exact List.mem_of_mem_filter (List.mem_of_mem_take h)
  · exact List.mem_of_mem_filter h

section Queries

variable {scope : Scope} {s : Selector} {hits : List (String × ByteArray)}
  (h : l.query scope s = .ok hits) {hit : String × ByteArray} (hmem : hit ∈ hits)

include h hmem

theorem find?_of_mem_query : l.find? ⟨scope, hit.1⟩ = some hit.2 := by
  obtain ⟨-, hhits⟩ := bind_unit_eq_ok.1 h
  obtain rfl := Except.ok.inj hhits
  exact Table.find?_eq_some_iff.2 (mem_rows_of_mem_select hmem)

theorem get_of_mem_query :
    l.get ⟨scope, hit.1⟩ = if hit.1 = "" then .error .key else .ok (some hit.2) := by
  obtain ⟨hscope, -⟩ := bind_unit_eq_ok.1 h
  have hfind := find?_of_mem_query h hmem
  by_cases hkey : hit.1 = ""
  · simp only [get, checkSlot, hscope, hkey, bind, Except.bind, if_true]
  · simp only [get, checkSlot, hscope, hkey, hfind, bind, Except.bind, if_false]

end Queries

theorem mem_partitions_of_find? {name key : String} {bytes : ByteArray}
    (h : l.find? ⟨.partition name, key⟩ = some bytes) : name ∈ l.partitions.names := by
  rw [Table.mem_names_iff]
  cases hpart : l.partitions.find? name with
  | none => simp [find?, table, hpart] at h
  | some t => exact ⟨t, rfl⟩

theorem exists_find?_of_names_ne_nil {scope : Scope} (h : (l.table scope).names ≠ []) :
    ∃ key bytes, l.find? ⟨scope, key⟩ = some bytes := by
  obtain ⟨key, hkey⟩ := List.exists_mem_of_ne_nil _ h
  obtain ⟨bytes, hbytes⟩ := Table.mem_names_iff.1 hkey
  exact ⟨key, bytes, hbytes⟩

structure WellNamed (l : Ledger) : Prop where
  key_ne_empty : ∀ slot bytes, l.find? slot = some bytes → slot.key ≠ ""
  partition_ne_empty : ∀ name ∈ l.partitions.names, name ≠ ""
  listed_iff : ∀ name, name ∈ l.partitions.names ↔
    ∃ key bytes, l.find? ⟨.partition name, key⟩ = some bytes
  get_of_query : ∀ scope s hits, l.query scope s = .ok hits → ∀ hit ∈ hits,
    l.get ⟨scope, hit.1⟩ = .ok (some hit.2)

theorem wellNamed_of_no_flaw (h : ∀ flaw, ¬ l.Has flaw) : l.WellNamed := by
  have hkey : ∀ slot bytes, l.find? slot = some bytes → slot.key ≠ "" := by
    rintro ⟨scope, key⟩ bytes hfind rfl
    exact h (.emptyKey scope) (Table.mem_names_iff.2 ⟨bytes, hfind⟩)
  refine ⟨hkey, ?_, fun name => ⟨fun hlisted => ?_, fun ⟨_, _, hfind⟩ =>
    mem_partitions_of_find? hfind⟩, fun scope s hits hquery hit hmem => ?_⟩
  · rintro name hlisted rfl
    exact h .emptyPartition hlisted
  · exact exists_find?_of_names_ne_nil fun hnone => h (.vacant name) ⟨hlisted, hnone⟩
  · have hfind := find?_of_mem_query hquery hmem
    rw [get_of_mem_query hquery hmem, if_neg (hkey _ _ hfind)]

def emptyObject : ByteArray := (Json.object []).compact.toUTF8

theorem ofBytes?_emptyObject : Json.ofBytes? emptyObject = some (.object []) :=
  ofBytes?_compact (List.forall_mem_nil _)

def flawed : Ledger := ⟨Table.empty.insert "" emptyObject, Table.empty.insert "p" .empty⟩

def flawedFile : ByteArray :=
  (Json.object [("shared", .object [("", .object [])]),
    ("partitions", .object [("p", .object [])])]).pretty.toUTF8

theorem ofSnapshot?_flawedFile : ofSnapshot? flawedFile = some flawed := by
  have htree : tree emptyObject = .object [] := by
    rw [tree, valueOf, ofBytes?_emptyObject]
    rfl
  have hsteady : flawed.Steady := by
    refine (forall_find?_iff
      (P := fun scope bytes => (tree bytes).Within (fun n => n.reread? = some n) (room scope))).2
        ⟨fun row hrow => ?_, fun part hpart row hrow => ?_⟩
    · obtain rfl := List.mem_singleton.1 hrow
      rw [htree]
      exact List.forall_mem_nil _
    · obtain rfl := List.mem_singleton.1 hpart
      cases hrow
  have hvalue : valueBytes (valueOf emptyObject) = emptyObject := by
    rw [← valueBytes_tree, htree]
    rfl
  have hrewritten : flawed.rewritten
      = ⟨Table.empty.insert "" (valueBytes (valueOf emptyObject)), flawed.partitions⟩ := rfl
  have hjson : flawed.snapshotJson = .object [("shared", .object [("", tree emptyObject)]),
    ("partitions", .object [("p", .object [])])] := rfl
  rw [htree] at hjson
  rw [flawedFile, ← hjson, ofSnapshot?_pretty, hsteady.reloaded?_eq, hrewritten, hvalue]
  rfl

/-- In a ledger that comes from values that are put, from snapshots and from files, whatever is
wrong with the names comes from a file. If nothing is wrong with those in the files, no name is
empty, exactly the partitions that hold a value are listed, and all that a query finds is read back.
In any case a query finds nothing that cannot be read back but what lies under the empty key. -/
theorem reached_named {file : ByteArray → Prop} (h : Reached file l) :
    (∀ flaw, l.Has flaw → ∃ bytes m, file bytes ∧ ofSnapshot? bytes = some m ∧ m.Has flaw) ∧
      ((∀ bytes m, file bytes → ofSnapshot? bytes = some m → ∀ flaw, ¬ m.Has flaw) →
        l.WellNamed) ∧
      ∀ scope s hits, l.query scope s = .ok hits → ∀ hit ∈ hits,
        l.get ⟨scope, hit.1⟩ = if hit.1 = "" then .error .key else .ok (some hit.2) := by
  refine ⟨fun flaw => h.exists_file, fun hfiles => wellNamed_of_no_flaw fun flaw hflaw => ?_,
    fun scope s hits hquery hit hmem => get_of_mem_query hquery hmem⟩
  obtain ⟨bytes, m, hfile, hload, hm⟩ := h.exists_file hflaw
  exact hfiles bytes m hfile hload flaw hm

theorem reached_named_put :
    (∃ bytes m, bytes = flawedFile ∧ ofSnapshot? bytes = some m ∧ m.Has (.emptyKey .shared)) ∧
      (Ledger.empty.write ⟨.partition "P", "K"⟩ emptyObject).WellNamed := by
  have hshared : flawed.put ⟨.shared, "K"⟩ emptyObject
      = .ok (flawed.write ⟨.shared, "K"⟩ emptyObject) := rfl
  have hpartition : Ledger.empty.put ⟨.partition "P", "K"⟩ emptyObject
      = .ok (Ledger.empty.write ⟨.partition "P", "K"⟩ emptyObject) := rfl
  have hloaded : Reached (· = flawedFile) flawed := .load rfl ofSnapshot?_flawedFile
  have hempty : Reached (fun _ => False) .empty := .empty
  obtain ⟨hfile, -⟩ := reached_named (hloaded.put hshared)
  obtain ⟨-, hnamed, -⟩ := reached_named (hempty.put hpartition)
  exact ⟨hfile (.emptyKey .shared) (mem_names_write.2 (.inr (List.mem_singleton_self _))),
    hnamed fun _ _ h => h.elim⟩

/-- A file is loaded in which a partition holds nothing and a key is empty. The partition is listed,
and the value that a query finds under the empty key cannot be read back. -/
theorem reached_flawed :
    Reached (· = flawedFile) flawed ∧ "p" ∈ flawed.partitions.names ∧
      (∀ key, flawed.find? ⟨.partition "p", key⟩ = none) ∧
      flawed.query .shared .all = .ok [("", emptyObject)] ∧
      flawed.get ⟨.shared, ""⟩ = .error .key := by
  refine ⟨.load rfl ofSnapshot?_flawedFile, List.mem_singleton_self _, fun key => rfl, ?_, rfl⟩
  have haccepted : Selector.all.acceptsBytes emptyObject = true := by
    rw [Selector.acceptsBytes, ofBytes?_emptyObject]
    rfl
  have hselected : flawed.select .shared .all
      = [("", emptyObject)].filter fun row => Selector.all.acceptsBytes row.2 := rfl
  rw [query, hselected, List.filter_singleton, haccepted]
  rfl

end TollClearing.Ledger
