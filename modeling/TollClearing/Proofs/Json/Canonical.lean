import TollClearing.Ledger.Selector
import TollClearing.Proofs.Json.RoundTrip
import TollClearing.Proofs.Table

/-!
Canonical form is reached in one step, nests no deeper, and is not seen by selectors.
-/

set_option autoImplicit false

namespace TollClearing

namespace Json

theorem canonicalItems_eq_map (vs : List Json) : canonicalItems vs = vs.map canonical := by
  induction vs with
  | nil => rfl
  | cons v vs ih => rw [canonicalItems, ih, List.map_cons]

theorem canonicalMembers_eq_map (ms : Members) :
    canonicalMembers ms = ms.map fun m => (m.1, m.2.canonical) := by
  induction ms with
  | nil => rfl
  | cons m ms ih => rw [canonicalMembers, ih, List.map_cons]

theorem canonical_array (vs : List Json) : canonical (.array vs) = .array (vs.map canonical) := by
  rw [canonical, canonicalItems_eq_map]

theorem canonical_object (ms : Members) :
    canonical (.object ms)
      = .object (Table.ofList (ms.map fun m => (m.1, m.2.canonical))).rows := by
  rw [canonical, canonicalMembers_eq_map]

mutual

theorem canonical_canonical : ∀ v : Json, v.canonical.canonical = v.canonical
  | .null => by simp [canonical]
  | .bool _ => by simp [canonical]
  | .number _ => by simp [canonical]
  | .string _ => by simp [canonical]
  | .array vs => by
    rw [canonical, canonical_array]
    exact congrArg array (map_canonical_canonicalItems vs)
  | .object ms => by
    rw [canonical, canonical_object]
    have hrows : ∀ m ∈ (Table.ofList (canonicalMembers ms)).rows, (m.1, m.2.canonical) = m :=
      fun m hm => Prod.ext rfl (canonical_of_mem ms m (Table.mem_of_mem_rows_ofList hm))
    rw [List.map_congr_left hrows, List.map_id', Table.ofList_rows]

theorem map_canonical_canonicalItems : ∀ vs : List Json,
    (canonicalItems vs).map canonical = canonicalItems vs
  | [] => rfl
  | v :: vs => by
    rw [canonicalItems, List.map_cons, canonical_canonical v, map_canonical_canonicalItems vs]

theorem canonical_of_mem : ∀ ms : Members, ∀ m ∈ canonicalMembers ms, m.2.canonical = m.2
  | [], m, h => by simp [canonicalMembers] at h
  | (name, v) :: ms, m, h => by
    rw [canonicalMembers, List.mem_cons] at h
    rcases h with rfl | h
    · exact canonical_canonical v
    · exact canonical_of_mem ms m h

end

theorem Within.canonical {p : Number → Prop} {depth : Nat} {v : Json} (h : Within p depth v) :
    Within p depth v.canonical := by
  induction depth generalizing v with
  | zero => cases v <;> trivial
  | succ depth ih =>
    cases v with
    | array vs =>
      rw [canonical_array]
      intro w hw
      obtain ⟨v, hv, rfl⟩ := List.mem_map.1 hw
      exact ih (h v hv)
    | object ms =>
      rw [canonical_object]
      intro m hm
      obtain ⟨m', hm', rfl⟩ := List.mem_map.1 (Table.mem_of_mem_rows_ofList hm)
      exact ih (h m' hm')
    | _ => simpa [Json.canonical] using h

theorem member?_canonical (name : String) (v : Json) :
    v.canonical.member? name = (v.member? name).map canonical := by
  cases v with
  | object ms =>
    rw [canonical_object, member?, Table.lookup_reverse_rows, Table.find?_ofList,
      ← List.map_reverse, Table.lookup_map, member?]
  | array vs => rw [canonical_array]; rfl
  | _ => simp [canonical, member?]

/-- One object, at whatever depth, has its members in another order. -/
inductive Rearranged : Json → Json → Prop where
  | members {ms ns : Members} (hnodup : (ms.map Prod.fst).Nodup) (hperm : ms.Perm ns) :
      Rearranged (.object ms) (.object ns)
  | item {v w : Json} (h : Rearranged v w) (vs ws : List Json) :
      Rearranged (.array (vs ++ v :: ws)) (.array (vs ++ w :: ws))
  | member {v w : Json} (h : Rearranged v w) (name : String) (ms ns : Members) :
      Rearranged (.object (ms ++ (name, v) :: ns)) (.object (ms ++ (name, w) :: ns))

theorem Rearranged.canonical_eq {v w : Json} (h : v.Rearranged w) : v.canonical = w.canonical := by
  induction h with
  | @members ms ns hnodup hperm =>
    have hnames : ((ms.map fun m => (m.1, m.2.canonical)).map Prod.fst).Nodup := by
      simpa [Function.comp_def] using hnodup
    rw [canonical_object, canonical_object, Table.ofList_eq_of_perm (hperm.map _) hnames]
  | item _ vs ws ih =>
    rw [canonical_array, canonical_array, List.map_append, List.map_append, List.map_cons,
      List.map_cons, ih]
  | member _ name ms ns ih =>
    rw [canonical_object, canonical_object, List.map_append, List.map_append, List.map_cons,
      List.map_cons, ih]

end Json

namespace Selector

theorem isWritten_canonical (text : String) (v : Json) :
    isWritten text v.canonical = isWritten text v := by
  cases v with
  | object ms => rw [Json.canonical_object]; rfl
  | array vs => rw [Json.canonical_array]; rfl
  | _ => simp [Json.canonical]

/-- A selector does not see the order of members. -/
theorem accepts_canonical (s : Selector) (v : Json) : s.accepts v.canonical = s.accepts v := by
  unfold accepts
  congr 1
  funext (name, text)
  simp only [Json.member?_canonical]
  cases v.member? name with
  | none => rfl
  | some w => exact isWritten_canonical text w

end Selector

end TollClearing
