import TollClearing.Proofs.Key
import TollClearing.Proofs.Rule.Record

/-!
What identifies a record. Slots of records that obey the rules are equal exactly when the identities
are, and no other text that a look-up may name reaches the slot of such a record
(`Identity.slot_inj`).
-/

set_option autoImplicit false

namespace TollClearing

theorem Rule.isPlain_of_identifier {member value : String}
    (h : Rule.identifier member value = .ok ()) : Key.IsPlain value := by
  simp only [identifier, bind_eq_ok] at h
  obtain ⟨_, -, _, hseparator, -⟩ := h
  simpa [Key.IsPlain] using ensure_eq_ok.1 hseparator

/-- What a record is asked for by. The two agencies that some kinds lie between stand in no
order. -/
inductive Identity where
  | agency (id : String)
  | tag (issuer serial : String)
  | charge (parties : Sym2 String) (id : String)
  | correction (parties : Sym2 String) (charge : String) (number : Nat)
  | reconciliation (parties : Sym2 String) (charge : String)
  | acknowledgement (id : String)
  | settlement (parties : Sym2 String) (id : String)
  deriving DecidableEq

namespace Identity

def docType : Identity → DocType
  | .agency _ => .agency
  | .tag _ _ => .tag
  | .charge _ _ => .charge
  | .correction _ _ _ => .correction
  | .reconciliation _ _ => .reconciliation
  | .acknowledgement _ => .acknowledgement
  | .settlement _ _ => .settlement

/-- Where a record of this identity lies, whatever the texts are. -/
def slot : Identity → Slot
  | .agency id => ⟨.shared, Key.agency id⟩
  | .tag issuer serial => ⟨.shared, Key.tag issuer serial⟩
  | .charge parties id => ⟨.partition (Key.partitionOf "charges" parties), Key.charge id⟩
  | .correction parties id number =>
    ⟨.partition (Key.partitionOf "charges" parties), Key.correction id number⟩
  | .reconciliation parties id =>
    ⟨.partition (Key.partitionOf "charges" parties), Key.reconciliation id⟩
  | .acknowledgement id => ⟨.shared, Key.acknowledgement id⟩
  | .settlement parties id =>
    ⟨.partition (Key.partitionOf "settlements" parties), Key.settlement id⟩

def Plain : Identity → Prop
  | .agency id | .acknowledgement id => Key.IsPlain id
  | .tag issuer serial => Key.IsPlain issuer ∧ Key.IsPlain serial
  | .charge parties id | .correction parties id _ | .reconciliation parties id
  | .settlement parties id => (∀ a ∈ parties, Key.IsPlain a) ∧ Key.IsPlain id

def keyHead : DocType → String
  | .agency => "AGENCY"
  | .tag => "TAG"
  | .charge => "CHARGE"
  | .correction => "CORR"
  | .reconciliation => "RECON"
  | .acknowledgement => "ACK"
  | .settlement => "SETTLE"

theorem isPlain_keyHead (d : DocType) : Key.IsPlain (keyHead d) := by
  cases d <;> simp [Key.IsPlain, keyHead, Key.separator]

theorem keyHead_inj {d e : DocType} (h : keyHead d = keyHead e) : d = e := by
  revert h
  cases d <;> cases e <;> decide

theorem exists_key_eq (i : Identity) :
    ∃ a as, i.slot.key = Key.compose (keyHead i.docType :: a :: as) := by
  cases i <;> exact ⟨_, _, rfl⟩

/-- The key alone tells the kind. -/
theorem docType_eq_of_key_eq {i j : Identity} (h : i.slot.key = j.slot.key) :
    i.docType = j.docType := by
  obtain ⟨a, as, hi⟩ := i.exists_key_eq
  obtain ⟨b, bs, hj⟩ := j.exists_key_eq
  rw [hi, hj] at h
  exact keyHead_inj ((Key.compose_cons_inj (isPlain_keyHead _) (isPlain_keyHead _)).1 h).1

/-- Two identities share a slot only if they are equal, as long as one of them is plain. -/
theorem slot_inj {i j : Identity} (hi : i.Plain) : i.slot = j.slot ↔ i = j := by
  refine ⟨fun h => ?_, fun h => h ▸ rfl⟩
  have hkey := congrArg Slot.key h
  have hscope := congrArg Slot.scope h
  have hkind := docType_eq_of_key_eq hkey
  have hrest : ∀ {a b as bs}, i.slot.key = Key.compose (keyHead i.docType :: a :: as) →
      j.slot.key = Key.compose (keyHead i.docType :: b :: bs) →
      Key.compose (a :: as) = Key.compose (b :: bs) := by
    intro a b as bs ha hb
    have hhead := isPlain_keyHead i.docType
    exact ((Key.compose_cons_inj hhead hhead).1 (ha.symm.trans (hkey.trans hb))).2
  have hparties : ∀ {domain other ps qs}, i.slot.scope = .partition (Key.partitionOf domain ps) →
      j.slot.scope = .partition (Key.partitionOf other qs) → Key.IsPlain domain →
      Key.IsPlain other → (∀ a ∈ ps, Key.IsPlain a) → ps = qs := by
    intro domain other ps qs hps hqs hdomain hother hplain
    have hname := Scope.partition.inj (hps.symm.trans (hscope.trans hqs))
    exact ((Key.partitionOf_inj hdomain hother hplain).1 hname).2
  cases i <;> cases j <;> cases hkind
  case agency.agency.refl id other =>
    have hid : Key.compose [id] = Key.compose [other] := hrest rfl rfl
    simpa using hid
  case tag.tag.refl issuer serial issuer' serial' =>
    obtain ⟨rfl, rfl⟩ := (Key.compose_pair_inj hi.1 hi.2).1 (hrest rfl rfl)
    rfl
  case acknowledgement.acknowledgement.refl id other =>
    have hid : Key.compose [id] = Key.compose [other] := hrest rfl rfl
    simpa using hid
  case charge.charge.refl ps id qs other =>
    have hid : Key.compose [id] = Key.compose [other] := hrest rfl rfl
    obtain rfl : ps = qs := hparties rfl rfl (by decide) (by decide) hi.1
    simpa using hid
  case correction.correction.refl ps id number qs other number' =>
    obtain rfl : ps = qs := hparties rfl rfl (by decide) (by decide) hi.1
    obtain ⟨rfl, hnumber⟩ := (Key.compose_pair_inj hi.2 (Key.isPlain_ordinal 3 number)).1
      (hrest rfl rfl)
    rw [Key.ordinal_inj.1 hnumber]
  case reconciliation.reconciliation.refl ps id qs other =>
    have hid : Key.compose [id] = Key.compose [other] := hrest rfl rfl
    obtain rfl : ps = qs := hparties rfl rfl (by decide) (by decide) hi.1
    simpa using hid
  case settlement.settlement.refl ps id qs other =>
    have hid : Key.compose [id] = Key.compose [other] := hrest rfl rfl
    obtain rfl : ps = qs := hparties rfl rfl (by decide) (by decide) hi.1
    simpa using hid

end Identity

namespace Record

def identity : Record → Identity
  | .agency a => .agency a.id
  | .tag t => .tag t.agency t.serial
  | .charge c => .charge s(c.away, c.home) c.id
  | .correction c => .correction s(c.away, c.home) c.charge c.number.toNat
  | .reconciliation r => .reconciliation s(r.away, r.home) r.charge
  | .acknowledgement a => .acknowledgement a.id
  | .settlement s => .settlement s(s.payor, s.payee) s.id

@[simp] theorem slot_identity (r : Record) : r.identity.slot = r.slot := by cases r <;> rfl

@[simp] theorem docType_identity (r : Record) : r.identity.docType = r.docType := by cases r <;> rfl

@[simp] theorem identity_asRead (r : Record) : r.asRead.identity = r.identity := by
  cases r <;> rfl

/-- The rules keep the separator out of everything that identifies a record. -/
theorem plain_identity {r : Record} (h : r.validate = .ok ()) : r.identity.Plain := by
  have hranges := validate_eq_ok.1 h .ranges
  cases r with
  | agency a =>
    simp only [check, Agency.check, bind_eq_ok] at hranges
    obtain ⟨_, hid, -⟩ := hranges
    exact Rule.isPlain_of_identifier hid
  | tag t =>
    simp only [check, Tag.check, bind_eq_ok] at hranges
    obtain ⟨_, hserial, _, hagency, -⟩ := hranges
    refine ⟨Rule.isPlain_of_identifier hagency, fun hmem => ?_⟩
    rw [Rule.ensure_eq_ok, Bool.and_eq_true, List.all_eq_true] at hserial
    exact absurd (hserial.2 _ hmem) (by decide)
  | charge c =>
    simp only [check, Charge.check, bind_eq_ok] at hranges
    obtain ⟨_, hid, _, haway, _, hhome, -⟩ := hranges
    exact ⟨Sym2.ball.2 ⟨Rule.isPlain_of_identifier haway, Rule.isPlain_of_identifier hhome⟩,
      Rule.isPlain_of_identifier hid⟩
  | correction c =>
    simp only [check, Correction.check, bind_eq_ok] at hranges
    obtain ⟨_, hid, _, haway, _, hhome, -⟩ := hranges
    exact ⟨Sym2.ball.2 ⟨Rule.isPlain_of_identifier haway, Rule.isPlain_of_identifier hhome⟩,
      Rule.isPlain_of_identifier hid⟩
  | reconciliation r =>
    simp only [check, Reconciliation.check, bind_eq_ok] at hranges
    obtain ⟨_, hid, _, haway, _, hhome, -⟩ := hranges
    exact ⟨Sym2.ball.2 ⟨Rule.isPlain_of_identifier haway, Rule.isPlain_of_identifier hhome⟩,
      Rule.isPlain_of_identifier hid⟩
  | acknowledgement a =>
    simp only [check, Acknowledgement.check, bind_eq_ok] at hranges
    obtain ⟨_, hid, -⟩ := hranges
    exact Rule.isPlain_of_identifier hid
  | settlement s =>
    simp only [check, Settlement.check, bind_eq_ok] at hranges
    obtain ⟨_, hid, _, hpayor, _, hpayee, -⟩ := hranges
    exact ⟨Sym2.ball.2 ⟨Rule.isPlain_of_identifier hpayor, Rule.isPlain_of_identifier hpayee⟩,
      Rule.isPlain_of_identifier hid⟩

theorem slot_eq_iff {r s : Record} (hr : r.validate = .ok ()) :
    r.slot = s.slot ↔ r.identity = s.identity := by
  rw [← slot_identity, ← slot_identity]
  exact Identity.slot_inj (plain_identity hr)

end Record

end TollClearing
