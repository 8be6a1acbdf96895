import TollClearing.Proofs.House.Alike
import TollClearing.Proofs.House.Once
import TollClearing.Proofs.House.Query

/-!
Two agencies are on their own with each other. A call that names two agencies comes to the same
whatever the ledger holds between others, and what it stores lies between the two; so calls that
name different pairs can be made in either order.
-/

set_option autoImplicit false

namespace TollClearing

theorem Table.insert_comm {α : Type} (t : Table α) {name other : String} (h : name ≠ other)
    (a b : α) : (t.insert name a).insert other b = (t.insert other b).insert name a := by
  apply ext_find?
  intro x
  simp only [find?_insert]
  by_cases hname : x = name
  · subst hname
    simp [h]
  · simp [hname]

namespace Ledger

theorem write_comm (l : Ledger) {slot other : Slot} (h : slot.scope ≠ other.scope)
    (a b : ByteArray) : (l.write slot a).write other b = (l.write other b).write slot a := by
  have htable : (l.write slot a).table other.scope = l.table other.scope := by
    rw [table_write, if_neg (Ne.symm h)]
  have htable' : (l.write other b).table slot.scope = l.table slot.scope := by
    rw [table_write, if_neg h]
  rw [write, htable, write.eq_def (l.write other b), htable']
  obtain ⟨scope, key⟩ := slot
  obtain ⟨scope', key'⟩ := other
  cases scope with
  | shared =>
    cases scope' with
    | shared => exact absurd rfl h
    | partition name' => rfl
  | partition name =>
    cases scope' with
    | shared => rfl
    | partition name' =>
      have hname : name ≠ name' := fun e => h (congrArg Scope.partition e)
      simp only [write, Table.insert_comm _ hname]

end Ledger

theorem Scope.pair_eq_of_between_eq {d e : DocType} {parties others : Sym2 String}
    (hplain : ∀ a ∈ parties, Key.IsPlain a)
    (h : between d (some parties) = between e (some others)) : parties = others :=
  Option.some.inj (parties_eq_of_between_eq (fun _ hp => Option.some.inj hp ▸ hplain) h)

namespace House

def bilateralKinds : List DocType := [.charge, .correction, .reconciliation, .settlement]

/-- A call names two agencies: as its first two arguments, in any order, or as the agencies of the
record that it is to create. -/
inductive Call.Concerns (parties : Sym2 String) : Call → Prop where
  | arguments {now : Instant} {name a b : String} {rest : List String}
    (hname : name ∈ "CalculateSettlementTotals" :: pairScoped) (h : s(a, b) = parties) :
    Concerns parties ⟨now, name, a :: b :: rest⟩
  | payload {c : Call} {kind : DocType} (hkind : kind ∈ bilateralKinds)
    (hname : c.name = createName kind) (h : ∀ r, c.Creates r → r.parties? = some parties) :
    Concerns parties c

structure AgreeOn (parties : Sym2 String) (l m : Ledger) : Prop where
  shared : l.shared = m.shared
  between : ∀ r : Record, r.parties? = some parties →
    (l.find? r.slot = some r.encode ↔ m.find? r.slot = some r.encode)

section Requests

variable {parties : Sym2 String}

theorem Function.read_of_request {f : Function} {arguments : List String} {request : Request}
    (h : f.request arguments = .ok request) :
    ∃ hlength, f.read ⟨arguments.toArray, hlength⟩ = .ok request := by
  rw [Function.request] at h
  split at h
  · exact ⟨_, h⟩
  · cases h

theorem request_concerning {name : String}
    (h : name ∈ "CalculateSettlementTotals" :: pairScoped) : ∃ f kind,
      Function.ofName? name = some f ∧ kind ∈ bilateralKinds ∧
        ∀ a b rest request, f.request (a :: b :: rest) = .ok request →
          request.scope = .between kind (some s(a, b)) := by
  simp only [pairScoped, List.mem_cons, List.not_mem_nil, or_false] at h
  rcases h with rfl | rfl | rfl | rfl | rfl | rfl | rfl | rfl | rfl | hsettlement
  · refine ⟨_, .charge, rfl, by decide, fun payor payee rest request h => ?_⟩
    obtain ⟨hlength, h⟩ := Function.read_of_request h
    obtain ⟨start, -, h⟩ := bind_eq_ok.1 h
    obtain ⟨stop, -, h⟩ := bind_eq_ok.1 h
    cases h
    exact congrArg Scope.partition (Key.chargePartition_comm payee payor)
  iterate 8
    refine ⟨_, .charge, rfl, by decide, fun away home rest request h => ?_⟩
    obtain ⟨hlength, h⟩ := Function.read_of_request h
    first
    | cases h; rfl
    | obtain ⟨code, -, h⟩ := bind_eq_ok.1 h
      cases h
      rfl
  rcases hsettlement with rfl | rfl | rfl <;>
    refine ⟨_, .settlement, rfl, by decide, fun payor payee rest request h => ?_⟩ <;>
    obtain ⟨hlength, h⟩ := Function.read_of_request h
  · cases h
    rfl
  all_goals
    obtain ⟨code, -, h⟩ := bind_eq_ok.1 h
    cases h
    rfl

theorem docType_of_ofParts {kind : DocType} {v : Json} {r : Record}
    (h : Record.ofParts kind v = .ok r) : r.docType = kind := by
  have hmap : ∀ {α : Type} {x : Except Misfit α} {f : α → Record},
      x.map f = .ok r → (∀ a, (f a).docType = kind) → r.docType = kind := by
    intro α x f hx hf
    cases x with
    | error m => cases hx
    | ok a => exact Except.ok.inj hx ▸ hf a
  cases kind <;> exact hmap h fun _ => rfl

theorem docType_of_ofPayload {kind : DocType} {payload : String} {r : Record}
    (h : Record.ofPayload kind payload = .ok r) : r.docType = kind := by
  unfold Record.ofPayload at h
  split at h
  · cases h
  · rename_i v _
    obtain ⟨_, -, h⟩ := bind_eq_ok.1 h
    cases hparts : Record.ofParts kind v.canonical with
    | error m =>
      rw [hparts] at h
      cases h
    | ok found =>
      rw [hparts] at h
      exact Except.ok.inj h ▸ docType_of_ofParts hparts

theorem createName_inj {kind other : DocType} (h : createName kind = createName other) :
    kind = other := by
  revert h
  cases kind <;> cases other <;> decide

theorem Call.Creates.unique {c : Call} {r s : Record} (hr : c.Creates r) (hs : c.Creates s) :
    r = s := by
  obtain ⟨hname, payload, harguments, hpayload⟩ := hr
  obtain ⟨hname', payload', harguments', hpayload'⟩ := hs
  obtain rfl := List.singleton_inj.1 (harguments.symm.trans harguments')
  rw [createName_inj (hname.symm.trans hname')] at hpayload
  exact Except.ok.inj (hpayload.symm.trans hpayload')

theorem request_creating {c : Call} {kind : DocType} (hname : c.name = createName kind) : ∃ f,
    Function.ofName? c.name = some f ∧ ∀ request, f.request c.arguments = .ok request →
      ∃ r, request = .create r ∧ c.Creates r := by
  obtain ⟨now, name, arguments⟩ := c
  obtain rfl : name = createName kind := hname
  refine ⟨_, Function.ofName?_createName kind, fun request h => ?_⟩
  obtain ⟨hlength, -⟩ := Function.read_of_request h
  obtain ⟨payload, rfl⟩ : ∃ payload, arguments = [payload] :=
    List.length_eq_one_iff.1 hlength
  rw [request_createRecord, Function.record] at h
  cases hpayload : Record.ofPayload kind payload with
  | error m =>
    rw [hpayload] at h
    cases h
  | ok r =>
    rw [hpayload] at h
    obtain rfl := docType_of_ofPayload hpayload
    exact ⟨r, (Except.ok.inj h).symm, rfl, payload, rfl, hpayload⟩

/-- What a call that names two agencies looks at and may change lies between the two. -/
theorem Call.Concerns.scope_eq {c : Call} (h : c.Concerns parties) {f : Function}
    {request : Request} (hname : Function.ofName? c.name = some f)
    (hrequest : f.request c.arguments = .ok request) :
    ∃ kind ∈ bilateralKinds, request.scope = .between kind (some parties) := by
  cases h with
  | arguments hcall hparties =>
    obtain ⟨g, kind, hg, hkind, hscope⟩ := request_concerning hcall
    obtain rfl : f = g := Option.some.inj (hname.symm.trans hg)
    exact ⟨kind, hkind, hparties ▸ hscope _ _ _ _ hrequest⟩
  | @payload _ kind hkind hcall hparties =>
    obtain ⟨g, hg, hcreate⟩ := request_creating hcall
    obtain rfl : f = g := Option.some.inj (hname.symm.trans hg)
    obtain ⟨r, rfl, hr⟩ := hcreate request hrequest
    obtain rfl : r.docType = kind := createName_inj (hr.1.symm.trans hcall)
    exact ⟨r.docType, hkind, hparties r hr ▸ r.scope_eq_between⟩

end Requests

theorem WellKept.scope_of_stored {p : Policy} {now : Instant} {l : Ledger} (hl : WellKept l)
    {request : Request} {slot : Slot} {r : Record}
    (h : process p now l request = .ok (.stored slot r)) : slot.scope = request.scope := by
  cases request with
  | create new =>
    obtain ⟨-, -, -, created, -, e⟩ := create_eq_ok h
    obtain ⟨rfl, -⟩ := Outcome.stored.inj e
    rfl
  | advance target m =>
    obtain ⟨old, -, -, -, e⟩ := process_advance hl h
    obtain ⟨rfl, -⟩ := Outcome.stored.inj e
    rfl
  | _ => exact absurd rfl (process_reads rfl h slot r)

theorem Call.step_cases (p : Policy) (l : Ledger) (c : Call) :
    (∀ k, c.outcome p k = c.outcome p l → c.step p k = k) ∨
      ∃ slot r, c.outcome p l = .ok (.stored slot r) ∧
        ∀ k, c.outcome p k = c.outcome p l → c.step p k = k.write slot r.encode := by
  cases h : c.outcome p l with
  | error fault => exact .inl fun k hk => step_of_error hk
  | ok o =>
    cases o with
    | stored slot r => exact .inr ⟨slot, r, rfl, fun k hk => step_of_ok hk⟩
    | _ => exact .inl fun k hk => step_of_ok hk

section Agreeing

variable {parties others : Sym2 String} {l m : Ledger}

theorem WellKept.alikeAt (hl : WellKept l) {scope : Scope} (h : l.table scope = m.table scope) :
    l.AlikeAt m scope := by
  rw [Ledger.AlikeAt, ← h]
  refine List.forall₂_same.2 fun row hrow => ⟨rfl, ?_⟩
  obtain ⟨r, hbytes, -⟩ := hl.exists_of_mem_rows hrow
  rw [hbytes]
  exact ⟨r, r.held_encode, r.held_encode⟩

theorem WellKept.exists_between (hl : WellKept l) {kind : DocType} {key : String}
    {bytes : ByteArray} (h : l.find? ⟨.between kind (some parties), key⟩ = some bytes) :
    ∃ r : Record, bytes = r.encode ∧ r.slot = ⟨.between kind (some parties), key⟩ ∧
      r.parties? = some parties := by
  obtain ⟨r, rfl, hslot, horder⟩ := hl _ _ h
  have hscope : r.scope = .between kind (some parties) := congrArg Slot.scope hslot
  rw [Record.scope_eq_between] at hscope
  exact ⟨r, rfl, hslot,
    Scope.parties_eq_of_between_eq (Record.plain_parties horder.validate) hscope⟩

theorem AgreeOn.table_eq (hl : WellKept l) (hm : WellKept m) (h : AgreeOn parties l m)
    (kind : DocType) :
    l.table (.between kind (some parties)) = m.table (.between kind (some parties)) := by
  have hslots : ∀ key, l.find? ⟨.between kind (some parties), key⟩
      = m.find? ⟨.between kind (some parties), key⟩ := by
    intro key
    refine Option.ext fun bytes => ⟨fun hfind => ?_, fun hfind => ?_⟩
    · obtain ⟨r, rfl, hslot, hparties⟩ := hl.exists_between hfind
      rw [← hslot] at hfind ⊢
      exact (h.between r hparties).1 hfind
    · obtain ⟨r, rfl, hslot, hparties⟩ := hm.exists_between hfind
      rw [← hslot] at hfind ⊢
      exact (h.between r hparties).2 hfind
  exact Table.ext_find? hslots

/-- A call that names two agencies comes to the same in ledgers that agree on them. -/
theorem AgreeOn.outcome_eq (hl : WellKept l) (hm : WellKept m) (h : AgreeOn parties l m)
    {c : Call} (hc : c.Concerns parties) (p : Policy) : c.outcome p l = c.outcome p m := by
  have hshared : l.AlikeAt m .shared := hl.alikeAt h.shared
  rw [Call.outcome_eq, Call.outcome_eq]
  unfold invoke
  split
  · rfl
  · rename_i f hname
    cases hrequest : f.request c.arguments with
    | error fault => rfl
    | ok request =>
      obtain ⟨kind, -, hscope⟩ := hc.scope_eq hname hrequest
      refine process_alike hshared p c.now ?_
      rw [hscope]
      exact hl.alikeAt (h.table_eq hl hm kind)

/-- What a call stores that names two agencies lies between the two, and they are agencies whose
names keep the places of pairs apart. -/
theorem WellKept.stored_between (hl : WellKept l) {c : Call} (hc : c.Concerns parties)
    {p : Policy} {slot : Slot} {r : Record} (h : c.outcome p l = .ok (.stored slot r)) :
    (∃ kind ∈ bilateralKinds, slot.scope = .between kind (some parties)) ∧
      ∀ a ∈ parties, Key.IsPlain a := by
  obtain ⟨f, request, hname, hrequest, hprocess⟩ := Call.outcome_eq_ok h
  obtain ⟨kind, hkind, hscope⟩ := hc.scope_eq hname hrequest
  have hslot := (hl.scope_of_stored hprocess).trans hscope
  obtain ⟨rfl, horder⟩ := process_stored hl hprocess
  have hplain := Record.plain_parties horder.validate
  have hbetween : r.scope = .between kind (some parties) := hslot
  rw [Record.scope_eq_between] at hbetween
  rw [Scope.parties_eq_of_between_eq hplain hbetween] at hplain
  exact ⟨⟨kind, hkind, hslot⟩, hplain _ rfl⟩

theorem agreeOn_write (hne : parties ≠ others) (hplain : ∀ a ∈ parties, Key.IsPlain a)
    {slot : Slot} {kind : DocType} (hslot : slot.scope = .between kind (some parties))
    (bytes : ByteArray) : AgreeOn others l (l.write slot bytes) := by
  have hother : ∀ r : Record, r.parties? = some others → r.slot ≠ slot := by
    rintro r hr rfl
    have hscope : r.scope = .between kind (some parties) := hslot
    rw [Record.scope_eq_between, hr] at hscope
    exact hne (Scope.pair_eq_of_between_eq hplain hscope.symm)
  have hshared : l.table .shared = (l.write slot bytes).table .shared := by
    rw [Ledger.table_write, hslot, if_neg nofun]
  exact ⟨hshared, fun r hr => by rw [Ledger.find?_write_of_ne (hother r hr)]⟩

section Pairs

variable (hl : WellKept l) (hne : parties ≠ others) {c c' : Call} (hc : c.Concerns parties)
  (hc' : c'.Concerns others) (p : Policy)

include hl hne hc

theorem WellKept.agreeOn_step : AgreeOn others l (c.step p l) := by
  rcases c.step_cases p l with hsame | ⟨slot, r, ho, hwrite⟩
  · rw [hsame l rfl]
    exact ⟨rfl, fun _ _ => Iff.rfl⟩
  · obtain ⟨⟨kind, -, hslot⟩, hplain⟩ := hl.stored_between hc ho
    rw [hwrite l rfl]
    exact agreeOn_write hne hplain hslot r.encode

include hc'

theorem WellKept.outcome_step : c'.outcome p (c.step p l) = c'.outcome p l :=
  ((hl.agreeOn_step hne hc p).outcome_eq hl (hl.step c) hc' p).symm

theorem WellKept.step_comm : c'.step p (c.step p l) = c.step p (c'.step p l) := by
  have hsecond := hl.outcome_step hne hc hc' p
  have hfirst := hl.outcome_step hne.symm hc' hc p
  rcases c.step_cases p l with hsame | ⟨slot, r, ho, hwrite⟩
  · rw [hsame l rfl, hsame _ hfirst]
  · rcases c'.step_cases p l with hsame | ⟨slot', r', ho', hwrite'⟩
    · rw [hsame l rfl, hsame _ hsecond]
    · obtain ⟨⟨kind, -, hslot⟩, hplain⟩ := hl.stored_between hc ho
      obtain ⟨⟨kind', -, hslot'⟩, -⟩ := hl.stored_between hc' ho'
      have hscopes : slot.scope ≠ slot'.scope := by
        rw [hslot, hslot']
        exact fun hscope => hne (Scope.pair_eq_of_between_eq hplain hscope)
      rw [hwrite' _ hsecond, hwrite _ hfirst, hwrite l rfl, hwrite' l rfl,
        Ledger.write_comm l hscopes]

end Pairs

end Agreeing

/-- In ledgers that calls lead to and that hold the same in the shared store and between two
agencies, a call that names the two comes to the same and writes nothing or the same to the same
slot, which lies between them. So calls that name different pairs come to the same and leave the
same behind in either order. -/
theorem pairs_isolated {allowed : Policy → Prop} {l : Ledger} (hl : Reachable allowed l)
    (p : Policy) :
    (∀ (m : Ledger) (parties : Sym2 String) (c : Call), Reachable allowed m →
        AgreeOn parties l m → c.Concerns parties → c.outcome p l = c.outcome p m ∧
          ((c.step p l = l ∧ c.step p m = m) ∨ ∃ slot bytes,
            (∃ kind ∈ bilateralKinds, slot.scope = .between kind (some parties)) ∧
              c.step p l = l.write slot bytes ∧ c.step p m = m.write slot bytes)) ∧
      ∀ (parties others : Sym2 String) (c c' : Call), parties ≠ others → c.Concerns parties →
        c'.Concerns others → c'.outcome p (c.step p l) = c'.outcome p l ∧
          c.outcome p (c'.step p l) = c.outcome p l ∧
          c'.step p (c.step p l) = c.step p (c'.step p l) := by
  refine ⟨fun m parties c hm hagree hc => ?_, fun parties others c c' hne hc hc' => ?_⟩
  · have hsame := hagree.outcome_eq hl.wellKept hm.wellKept hc p
    refine ⟨hsame, ?_⟩
    rcases c.step_cases p l with hnone | ⟨slot, r, ho, hwrite⟩
    · exact .inl ⟨hnone l rfl, hnone m hsame.symm⟩
    · exact .inr ⟨slot, r.encode, (hl.wellKept.stored_between hc ho).1, hwrite l rfl,
        hwrite m hsame.symm⟩
  · exact ⟨hl.wellKept.outcome_step hne hc hc' p, hl.wellKept.outcome_step hne.symm hc' hc p,
      hl.wellKept.step_comm hne hc hc' p⟩

def farCharge : Charge := { tollCharge with away := "C" }

theorem concerns_createCall (now : Instant) {r : Record} {parties : Sym2 String}
    (hself : r.asRead = r) (hkind : r.docType ∈ bilateralKinds)
    (hparties : r.parties? = some parties) : (createCall now r).Concerns parties := by
  refine .payload hkind rfl fun s hs => ?_
  rw [← (creates_createCall now hself).unique hs]
  exact hparties

theorem pairs_isolated_charges :
    let near := createCall signedTime (.charge tollCharge)
    let far := createCall signedTime (.charge farCharge)
    near.outcome openPolicy .empty = near.outcome openPolicy (far.step openPolicy .empty) ∧
      far.step openPolicy (near.step openPolicy .empty)
        = near.step openPolicy (far.step openPolicy .empty) := by
  have hnear : (createCall signedTime (.charge tollCharge)).Concerns s("B", "A") :=
    concerns_createCall signedTime rfl (by decide) rfl
  have hfar : (createCall signedTime (.charge farCharge)).Concerns s("C", "A") :=
    concerns_createCall signedTime rfl (by decide) rfl
  have hne : s("B", "A") ≠ s("C", "A") := by decide
  have hempty : Reachable (· = openPolicy) .empty := .empty
  obtain ⟨hsame, hcomm⟩ := pairs_isolated hempty openPolicy
  have hagree := wellKept_empty.agreeOn_step hne.symm hfar openPolicy
  exact ⟨(hsame _ _ _ (hempty.step rfl _) hagree hnear).1, (hcomm _ _ _ _ hne hnear hfar).2.2⟩

end House

end TollClearing
