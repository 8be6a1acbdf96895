import TollClearing.Lifecycle
import TollClearing.Proofs.Except
import TollClearing.Proofs.Record.Codec
import TollClearing.Rule.Record

/-!
A record that obeys the rules still does when it has been read back, stamped or moved to another
state: no rule asks for a time of a write, for a certain state, or for the sign of a zero.
-/

set_option autoImplicit false

namespace TollClearing

namespace Rule

@[simp] theorem ensure_eq_ok {condition : Bool} {member : String} {reason : Reason} :
    ensure condition member reason = .ok () ↔ condition = true := by
  cases condition <;> simp [ensure]

@[simp] theorem requireSome_eq_ok {α : Type} {member : String} {value : Option α} :
    requireSome member value = .ok () ↔ value.isSome = true := by
  simp [requireSome]

@[simp] theorem requireSome_map {α β : Type} (f : α → β) (member : String) (value : Option α) :
    requireSome member (value.map f) = requireSome member value := by
  simp [requireSome]

@[simp] theorem cents_asRead (member : String) (a : Decimal) :
    cents member a.asRead = cents member a := by
  simp [cents]

@[simp] theorem money_asRead (member : String) (a : Decimal) :
    money member a.asRead = money member a := by
  simp [money]

@[simp] theorem moneyIfSome_asRead (member : String) (a : Option Decimal) :
    moneyIfSome member (a.map Decimal.asRead) = moneyIfSome member a := by
  cases a <;> simp [moneyIfSome]

theorem asRead_le_asRead {a b : Decimal} : a.asRead ≤ b.asRead ↔ a ≤ b := by
  change a.asRead.units * tenTo b.asRead.scale ≤ b.asRead.units * tenTo a.asRead.scale ↔ _
  simp only [Decimal.units_asRead, Decimal.scale_asRead]
  rfl

@[simp] theorem notAbove_asRead (member : String) (a : Decimal) (boundMember : String)
    (b : Option Decimal) :
    notAbove member a.asRead boundMember (b.map Decimal.asRead)
      = notAbove member a boundMember b := by
  cases b <;> simp [notAbove, asRead_le_asRead]

end Rule

open Rule

namespace Charge

theorem check_asRead (c : Charge) (s : Stage) : c.asRead.check s = c.check s := by
  cases s <;> simp [check, asRead, checkTag, checkPlate, checkEntry]

theorem check_withStatus {c : Charge} {s : Stage} (status : ChargeStatus)
    (h : c.check s = .ok ()) : ({ c with status := some status } : Charge).check s = .ok () := by
  cases s with
  | required => simp_all [check]
  | _ => exact h

end Charge

theorem Correction.check_asRead (c : Correction) (s : Stage) : c.asRead.check s = c.check s := by
  cases s <;> simp [check, asRead]

theorem Reconciliation.check_asRead (r : Reconciliation) (s : Stage) :
    r.asRead.check s = r.check s := by
  cases s <;> simp [check, asRead]

theorem Agency.check_withStatus {a : Agency} {s : Stage} (status : AgencyStatus)
    (h : a.check s = .ok ()) : ({ a with status := some status } : Agency).check s = .ok () := by
  cases s with
  | required => simp_all [check]
  | _ => exact h

theorem Tag.check_withStatus {t : Tag} {s : Stage} (status : TagStatus) (h : t.check s = .ok ()) :
    ({ t with status := some status } : Tag).check s = .ok () := by
  cases s with
  | required => simp_all [check]
  | _ => exact h

namespace Settlement

theorem expectedNet?_asRead (s : Settlement) :
    s.asRead.expectedNet? = s.expectedNet?.map Decimal.asRead := by
  change (s.gross.asRead.sub? s.fee.asRead >>= (·.add? s.correction.asRead)) = _
  rw [Decimal.sub?_asRead, expectedNet?]
  cases s.gross.sub? s.fee with
  | none => rfl
  | some a => exact a.add?_asRead s.correction

theorem checkNet_asRead {s : Settlement} (h : s.checkNet = .ok ()) :
    s.asRead.checkNet = .ok () := by
  unfold checkNet at h ⊢
  rw [expectedNet?_asRead]
  cases he : s.expectedNet? with
  | none => simp [he] at h
  | some expected => simpa [he, Decimal.sameValue, asRead] using h

theorem check_asRead {s : Settlement} {stage : Stage} (h : s.check stage = .ok ()) :
    s.asRead.check stage = .ok () := by
  cases stage with
  | crossMember =>
    simp only [check, bind_eq_ok] at h ⊢
    obtain ⟨_, hparties, _, hperiod, u, hfee, hnet⟩ := h
    refine ⟨(), hparties, (), hperiod, u, ?_, checkNet_asRead hnet⟩
    rw [← hfee]
    exact notAbove_asRead "feeAmount" s.fee "grossAmount" (some s.gross)
  | conditional =>
    have hsame : s.asRead.check .conditional = s.check .conditional := by
      simp only [check, asRead, zeroWithout, Decimal.isZero_asRead]
      rfl
    exact hsame.trans h
  | required => simpa [check, asRead] using h
  | codes => exact h
  | ranges => simpa [check, asRead] using h

theorem check_withStatus {s : Settlement} {stage : Stage} (status : SettlementStatus)
    (h : s.check stage = .ok ()) :
    ({ s with status := some status } : Settlement).check stage = .ok () := by
  cases stage with
  | required => simp_all [check]
  | _ => exact h

end Settlement

namespace Record

theorem validate_eq_ok {r : Record} : r.validate = .ok () ↔ ∀ s, r.check s = .ok () := by
  rw [validate, Stage.run, forM_eq_ok]
  exact ⟨fun h s => h s s.mem_all, fun h s _ => h s⟩

theorem validate_asRead {r : Record} (h : r.validate = .ok ()) : r.asRead.validate = .ok () := by
  rw [validate_eq_ok] at h ⊢
  intro s
  cases r with
  | charge c => exact (c.check_asRead s).trans (h s)
  | correction c => exact (c.check_asRead s).trans (h s)
  | reconciliation r => exact (r.check_asRead s).trans (h s)
  | settlement b => exact Settlement.check_asRead (h s)
  | _ => exact h s

@[simp] theorem validate_withTimes (r : Record) (created updated : Option Instant) :
    (r.withTimes created updated).validate = r.validate := by
  cases r <;> rfl

def StatusSet : Record → Prop
  | .agency a => a.status.isSome
  | .tag t => t.status.isSome
  | .charge c => c.status.isSome
  | .settlement s => s.status.isSome
  | .correction _ | .reconciliation _ | .acknowledgement _ => True

theorem statusSet_of_validate {r : Record} (h : r.validate = .ok ()) : r.StatusSet := by
  have hrequired := validate_eq_ok.1 h .required
  cases r with
  | agency a => simp_all [check, Agency.check, StatusSet]
  | tag t => simp_all [check, Tag.check, StatusSet]
  | charge c => simp_all [check, Charge.check, StatusSet]
  | settlement s => simp_all [check, Settlement.check, StatusSet]
  | _ => trivial

end Record

end TollClearing
