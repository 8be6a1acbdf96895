import Mathlib.Data.Nat.Find
import TollClearing.Proofs.Rule.Record

/-!
The discount plans of a tag. Their check goes through the list once, with the names that it has met,
and reports the first plan that ends before it starts or has the name of an earlier one
(`plans_checked`). So the plans of a tag that obeys the rules are told apart by their names.
-/

set_option autoImplicit false

namespace TollClearing

namespace DiscountPlan

def IsReversed (p : DiscountPlan) : Prop :=
  ∃ start stop, p.start = some start ∧ p.stop = some stop ∧ stop < start

/-- The plan has started by `day` and does not end before it. -/
def Covers (p : DiscountPlan) (day : Date) : Prop :=
  (∃ start, p.start = some start ∧ start ≤ day) ∧ ∀ stop, p.stop = some stop → day ≤ stop

theorem isActiveOn_iff {p : DiscountPlan} {day : Date} :
    p.isActiveOn day = true ↔ p.Covers day := by
  obtain ⟨id, start, stop⟩ := p
  cases start <;> cases stop <;> simp [isActiveOn, Covers]

end DiscountPlan

namespace Tag

open Rule

/-- Plan `i` ends before it starts, or has the name of a plan before it. -/
def FaultAt (ps : List DiscountPlan) (i : ℕ) : Prop :=
  ∃ p, ps[i]? = some p ∧ (p.IsReversed ∨ p.id ∈ (ps.take i).map DiscountPlan.id)

theorem planMember_eq (i : ℕ) (name : String) :
    planMember i name = "discountPlans[" ++ toString i ++ ("]." ++ name) :=
  String.append_assoc

section Step

variable {p : DiscountPlan} {seen : List String}

theorem checkPlans_of_reversed (h : p.IsReversed) (i : ℕ) (ps : List DiscountPlan) :
    checkPlans i seen (p :: ps) = .error (.rejected (planMember i "endDate") .planReversed) := by
  obtain ⟨start, stop, hstart, hstop, hlt⟩ := h
  have hnot : ¬ start ≤ stop := Int.not_le.2 hlt
  simp [checkPlans, hstart, hstop, ensure, hnot, bind, Except.bind]

theorem checkPlans_of_not_reversed (h : ¬ p.IsReversed) (i : ℕ) (ps : List DiscountPlan) :
    checkPlans i seen (p :: ps) = (do
      ensure (!seen.contains p.id) (planMember i "planID") (.planRepeated p.id)
      checkPlans (i + 1) (p.id :: seen) ps) := by
  obtain ⟨id, start, stop⟩ := p
  cases start with
  | none => rfl
  | some start =>
    cases stop with
    | none => rfl
    | some stop =>
      have hle : start ≤ stop := Int.not_lt.1 fun hlt => h ⟨start, stop, rfl, rfl, hlt⟩
      simp only [checkPlans, hle, ensure, decide_true, if_true]
      rfl

theorem checkPlans_of_repeated (h : ¬ p.IsReversed) (hseen : p.id ∈ seen) (i : ℕ)
    (ps : List DiscountPlan) : checkPlans i seen (p :: ps)
      = .error (.rejected (planMember i "planID") (.planRepeated p.id)) := by
  simp [checkPlans_of_not_reversed h, hseen, ensure, bind, Except.bind]

theorem checkPlans_of_new (h : ¬ p.IsReversed) (hseen : p.id ∉ seen) (i : ℕ)
    (ps : List DiscountPlan) :
    checkPlans i seen (p :: ps) = checkPlans (i + 1) (p.id :: seen) ps := by
  simp [checkPlans_of_not_reversed h, hseen, ensure, bind, Except.bind]

end Step

section Run

variable {seen : List String} {ps : List DiscountPlan}

theorem checkPlans_eq_ok_iff {i : ℕ} : checkPlans i seen ps = .ok () ↔
    (∀ p ∈ ps, ¬ p.IsReversed) ∧ (ps.map DiscountPlan.id).Nodup ∧ ∀ p ∈ ps, p.id ∉ seen := by
  induction ps generalizing i seen with
  | nil => simp [checkPlans]
  | cons p ps ih =>
    by_cases hreversed : p.IsReversed
    · simp [checkPlans_of_reversed hreversed, hreversed]
    · by_cases hseen : p.id ∈ seen
      · simp [checkPlans_of_repeated hreversed hseen, hseen]
      · rw [checkPlans_of_new hreversed hseen, ih, List.map_cons, List.nodup_cons,
          List.forall_mem_cons, List.forall_mem_cons]
        have hnew : (∀ q ∈ ps, q.id ∉ p.id :: seen) ↔
            p.id ∉ ps.map DiscountPlan.id ∧ ∀ q ∈ ps, q.id ∉ seen := by
          simp only [List.mem_cons, not_or, List.mem_map, not_exists, not_and]
          exact forall₂_and
        rw [hnew]
        tauto

theorem checkPlans_append {i : ℕ} {before : List DiscountPlan}
    (h : checkPlans i seen before = .ok ()) :
    checkPlans i seen (before ++ ps) = checkPlans (i + before.length)
      ((before.map DiscountPlan.id).reverse ++ seen) ps := by
  induction before generalizing i seen with
  | nil => rfl
  | cons p before ih =>
    obtain ⟨hreversed, -, hseen⟩ := checkPlans_eq_ok_iff.1 h
    have hp := hreversed p List.mem_cons_self
    have hpseen := hseen p List.mem_cons_self
    rw [checkPlans_of_new hp hpseen] at h
    rw [List.cons_append, checkPlans_of_new hp hpseen, ih h, List.length_cons, List.map_cons,
      List.reverse_cons, List.append_assoc, Nat.add_right_comm, Nat.add_assoc]
    rfl

end Run

section Faults

variable {ps : List DiscountPlan} {i : ℕ}

/-- What the check comes to at plan `i`, if the plans before it pass. -/
theorem checkPlans_at {p : DiscountPlan} (hp : ps[i]? = some p)
    (h : checkPlans 0 [] (ps.take i) = .ok ()) (rest : List DiscountPlan) :
    checkPlans 0 [] (ps.take i ++ p :: rest)
      = checkPlans i ((ps.take i).map DiscountPlan.id).reverse (p :: rest) := by
  have hlength : (ps.take i).length = i :=
    List.length_take_of_le (Nat.le_of_lt (List.getElem?_eq_some_iff.1 hp).1)
  rw [checkPlans_append h, hlength, Nat.zero_add, List.append_nil]

theorem checkPlans_take (h : ∀ j < i, ¬ FaultAt ps j) : checkPlans 0 [] (ps.take i) = .ok () := by
  induction i with
  | zero => rfl
  | succ i ih =>
    have hbefore := ih fun j hj => h j (Nat.lt_succ_of_lt hj)
    rw [List.take_add_one]
    cases hp : ps[i]? with
    | none => rwa [Option.toList_none, List.append_nil]
    | some p =>
      have hfault : ¬ (p.IsReversed ∨ p.id ∈ (ps.take i).map DiscountPlan.id) :=
        fun hor => h i (Nat.lt_succ_self i) ⟨p, hp, hor⟩
      rw [not_or, ← List.mem_reverse] at hfault
      rw [Option.toList_some, checkPlans_at hp hbefore, checkPlans_of_new hfault.1 hfault.2]
      rfl

theorem checkPlans_first {p : DiscountPlan} (hp : ps[i]? = some p) (hfault : FaultAt ps i)
    (hfirst : ∀ j < i, ¬ FaultAt ps j) :
    (p.IsReversed →
      checkPlans 0 [] ps = .error (.rejected (planMember i "endDate") .planReversed)) ∧
      (¬ p.IsReversed →
        checkPlans 0 [] ps = .error (.rejected (planMember i "planID") (.planRepeated p.id))) := by
  obtain ⟨hi, rfl⟩ := List.getElem?_eq_some_iff.1 hp
  have hsplit : ps.take i ++ ps[i] :: ps.drop (i + 1) = ps := by
    rw [← List.drop_eq_getElem_cons hi, List.take_append_drop]
  have hcheck := checkPlans_at hp (checkPlans_take hfirst) (ps.drop (i + 1))
  rw [hsplit] at hcheck
  refine ⟨fun hreversed => hcheck.trans (checkPlans_of_reversed hreversed i _),
    fun hreversed => hcheck.trans (checkPlans_of_repeated hreversed ?_ i _)⟩
  obtain ⟨q, hq, hor⟩ := hfault
  obtain rfl := Option.some.inj (hp.symm.trans hq)
  exact List.mem_reverse.2 (hor.resolve_left hreversed)

theorem exists_first_fault (h : checkPlans 0 [] ps ≠ .ok ()) :
    ∃ i, FaultAt ps i ∧ ∀ j < i, ¬ FaultAt ps j := by
  have hfault : ∃ i, FaultAt ps i := by
    by_contra hnone
    have hall := @checkPlans_take ps ps.length fun j _ hj => hnone ⟨j, hj⟩
    rw [List.take_length] at hall
    exact h hall
  classical
  exact ⟨Nat.find hfault, Nat.find_spec hfault, fun j hj => Nat.find_min hfault hj⟩

end Faults

/-- The check of the plans passes just if no plan ends before it starts and no two have one name.
Otherwise it names the first plan that is at fault, and the end of this plan rather than its name.
Of a tag that obeys the rules every day finds the plans that cover it, in order and each under its
own name. -/
theorem plans_checked (t : Tag) :
    (t.check .crossMember = .ok () ↔
        (∀ p ∈ t.plans, ¬ p.IsReversed) ∧ (t.plans.map DiscountPlan.id).Nodup) ∧
      (t.check .crossMember ≠ .ok () → ∃ i p, t.plans[i]? = some p ∧ FaultAt t.plans i ∧
        (∀ j < i, ¬ FaultAt t.plans j) ∧
        (p.IsReversed → t.check .crossMember
          = .error (.rejected s!"discountPlans[{i}].endDate" .planReversed)) ∧
        (¬ p.IsReversed → t.check .crossMember
          = .error (.rejected s!"discountPlans[{i}].planID" (.planRepeated p.id)))) ∧
      ((Record.tag t).validate = .ok () → ∀ day,
        (t.activePlans day).Sublist t.plans ∧
          (∀ p, p ∈ t.activePlans day ↔ p ∈ t.plans ∧ p.Covers day) ∧
          ((t.activePlans day).map DiscountPlan.id).Nodup) := by
  have hiff : t.check .crossMember = .ok () ↔
      (∀ p ∈ t.plans, ¬ p.IsReversed) ∧ (t.plans.map DiscountPlan.id).Nodup := by
    simp [check, checkPlans_eq_ok_iff]
  refine ⟨hiff, fun h => ?_, fun h day => ?_⟩
  · obtain ⟨i, hfault, hfirst⟩ := exists_first_fault h
    obtain ⟨p, hp, -⟩ := id hfault
    obtain ⟨hreversed, hrepeated⟩ := checkPlans_first hp hfault hfirst
    rw [planMember_eq] at hreversed hrepeated
    exact ⟨i, p, hp, hfault, hfirst, hreversed, hrepeated⟩
  · have hnames := (hiff.1 (Record.validate_eq_ok.1 h .crossMember)).2
    have hsub : (t.activePlans day).Sublist t.plans := List.filter_sublist
    refine ⟨hsub, fun p => ?_, hnames.sublist (hsub.map _)⟩
    rw [activePlans, List.mem_filter, DiscountPlan.isActiveOn_iff]

def springDay : Date := ⟨2024, 3, 20, by decide⟩

def summerDay : Date := ⟨2024, 7, 1, by decide⟩

def lastingPlan : DiscountPlan := ⟨"P1", some springDay, none⟩

def reversedPlan : DiscountPlan := ⟨"P1", some summerDay, some springDay⟩

def plannedTag (plans : List DiscountPlan) : Tag where
  serial := "1"
  agency := "A"
  home := "A"
  account := ""
  tagClass := 1
  status := some .valid
  plate := none
  plans := plans
  createdAt := none
  updatedAt := none

theorem plans_checked_reversedPlan :
    let plans := [lastingPlan, reversedPlan, lastingPlan]
    (plannedTag plans).check .crossMember ≠ .ok () ∧
      (∃ i, FaultAt plans i ∧ ∀ j < i, ¬ FaultAt plans j) ∧
      (Record.tag (plannedTag [lastingPlan])).validate = .ok () ∧
      lastingPlan ∈ (plannedTag [lastingPlan]).activePlans summerDay := by
  intro plans
  have hnot : (plannedTag plans).check .crossMember ≠ .ok () := by decide +kernel
  have hvalid : (Record.tag (plannedTag [lastingPlan])).validate = .ok () := by decide +kernel
  have hcovers : lastingPlan.Covers summerDay :=
    DiscountPlan.isActiveOn_iff.1 (by decide +kernel)
  obtain ⟨-, hfirst, -⟩ := plans_checked (plannedTag plans)
  obtain ⟨i, -, -, hfault, hbefore, -⟩ := hfirst hnot
  obtain ⟨-, -, hactive⟩ := plans_checked (plannedTag [lastingPlan])
  obtain ⟨-, hmem, -⟩ := hactive hvalid summerDay
  exact ⟨hnot, ⟨i, hfault, hbefore⟩, hvalid, (hmem _).2 ⟨List.mem_cons_self, hcovers⟩⟩

end Tag

end TollClearing
