import Mathlib.Data.List.Basic
import Mathlib.Data.Sym.Sym2
import TollClearing.Key
import TollClearing.Proofs.Text.Digits

/-!
Names in the store tell their components apart, as long as the components of one of two names hold
no separator. Nothing is asked of the other name, so this holds for look-ups with any text. Keys of
corrections stand in the order of their numbers.
-/

set_option autoImplicit false

namespace TollClearing

open TollClearing.Text

namespace Key

/-- A component that leaves the separators of a name where they are. -/
def IsPlain (s : String) : Prop := separator ∉ s.toList

instance (s : String) : Decidable (IsPlain s) := inferInstanceAs (Decidable (_ ∉ _))

theorem isPlain_ordinal (width n : Nat) : IsPlain (ordinal width n) := by
  intro h
  rw [ordinal, String.toList_ofList] at h
  exact absurd (isDigit_padded width n separator h) (by decide)

theorem ordinal_inj {width m n : Nat} : ordinal width m = ordinal width n ↔ m = n := by
  refine ⟨fun h => ?_, fun h => h ▸ rfl⟩
  rw [← digitsValue_padded width m, String.ofList_injective h, digitsValue_padded]

@[simp] theorem compose_singleton (a : String) : compose [a] = a := String.intercalate_singleton

theorem toList_compose (a b : String) (rest : List String) :
    (compose (a :: b :: rest)).toList
      = a.toList ++ separator :: (compose (b :: rest)).toList := by
  simp [compose, String.intercalate_cons_cons]

theorem takeWhile_append_separator {a : String} (h : IsPlain a) (rest : List Char) :
    (a.toList ++ separator :: rest).takeWhile (· ≠ separator) = a.toList := by
  have ha : ∀ c ∈ a.toList, decide (c ≠ separator) = true := fun c hc =>
    decide_eq_true fun e => h (e ▸ hc)
  rw [List.takeWhile_append_of_pos ha, List.takeWhile_cons_of_neg (by simp), List.append_nil]

/-- The first components of two names are equal if they are plain, and so is what follows them. -/
theorem compose_cons_inj {a b x y : String} {as bs : List String} (ha : IsPlain a)
    (hb : IsPlain b) : compose (a :: x :: as) = compose (b :: y :: bs) ↔
      a = b ∧ compose (x :: as) = compose (y :: bs) := by
  constructor
  · intro h
    have hlist := congrArg String.toList h
    have htake := congrArg (List.takeWhile (· ≠ separator)) hlist
    rw [toList_compose, toList_compose, takeWhile_append_separator ha,
      takeWhile_append_separator hb] at htake
    obtain rfl := String.toList_inj.1 htake
    rw [toList_compose, toList_compose] at hlist
    have hrest := List.append_cancel_left hlist
    exact ⟨rfl, String.toList_inj.1 (List.tail_eq_of_cons_eq hrest)⟩
  · rintro ⟨rfl, h⟩
    rw [← String.toList_inj, toList_compose, toList_compose, h]

theorem compose_pair_inj {a b x y : String} (ha : IsPlain a) (hb : IsPlain b) :
    compose [a, b] = compose [x, y] ↔ a = x ∧ b = y := by
  rw [← String.toList_inj, toList_compose, toList_compose, compose_singleton, compose_singleton]
  constructor
  · intro h
    obtain ⟨hx, -, hy⟩ := (List.append_cons_inj_of_notMem ha hb).1 h
    exact ⟨String.toList_inj.1 hx, String.toList_inj.1 hy⟩
  · rintro ⟨rfl, rfl⟩
    rfl

theorem exists_partition_eq (domain a b : String) :
    ∃ low high, partition domain a b = compose [domain, low, high] ∧ s(low, high) = s(a, b) := by
  unfold partition
  split
  · exact ⟨a, b, rfl, rfl⟩
  · exact ⟨b, a, rfl, Sym2.eq_swap⟩

def partitionOf (domain : String) (parties : Sym2 String) : String :=
  parties.lift ⟨partition domain, partition_comm domain⟩

theorem partitionOf_inj {domain other : String} {parties others : Sym2 String}
    (hdomain : IsPlain domain) (hother : IsPlain other) (hparties : ∀ a ∈ parties, IsPlain a) :
    partitionOf domain parties = partitionOf other others ↔
      domain = other ∧ parties = others := by
  refine ⟨fun h => ?_, by rintro ⟨rfl, rfl⟩; rfl⟩
  induction parties with
  | h a b =>
  induction others with
  | h x y =>
  obtain ⟨low, high, e, hlow⟩ := exists_partition_eq domain a b
  obtain ⟨low', high', e', hlow'⟩ := exists_partition_eq other x y
  have hnames : compose [domain, low, high] = compose [other, low', high'] := e ▸ e' ▸ h
  rw [← hlow, Sym2.ball] at hparties
  obtain ⟨rfl, hrest⟩ := (compose_cons_inj hdomain hother).1 hnames
  obtain ⟨rfl, rfl⟩ := (compose_pair_inj hparties.1 hparties.2).1 hrest
  exact ⟨rfl, hlow.symm.trans hlow'⟩

theorem ordinal_lt {width m n : Nat} (hwidth : 0 < width) (hn : n < tenTo width) (h : m < n) :
    ordinal width m < ordinal width n := by
  have hlength : (padded width m).length = (padded width n).length := by
    rw [length_padded (h.trans hn) hwidth, length_padded hn hwidth]
  rw [String.lt_iff, ordinal, ordinal, String.toList_ofList, String.toList_ofList]
  refine lt_of_digitsValue_lt (isDigit_padded width m) (isDigit_padded width n) hlength ?_
  rwa [digitsValue_padded, digitsValue_padded]

theorem compose_cons_lt {a x y : String} {xs ys : List String}
    (h : compose (x :: xs) < compose (y :: ys)) :
    compose (a :: x :: xs) < compose (a :: y :: ys) := by
  rw [String.lt_iff] at h ⊢
  rw [toList_compose, toList_compose]
  exact List.append_left_lt (List.cons_lt_cons_iff.2 (.inr ⟨rfl, h⟩))

/-- Up to three digits, the keys of corrections stand in the order of the numbers. -/
theorem correction_lt_iff {id : String} {m n : Nat} (hm : m < tenTo 3) (hn : n < tenTo 3) :
    correction id m < correction id n ↔ m < n := by
  have hmono : ∀ {m n : Nat}, n < tenTo 3 → m < n → correction id m < correction id n := by
    intro m n hn h
    have hordinal := ordinal_lt (by decide) hn h
    rw [← compose_singleton (ordinal 3 m), ← compose_singleton (ordinal 3 n)] at hordinal
    exact compose_cons_lt (compose_cons_lt hordinal)
  refine ⟨fun h => ?_, hmono hn⟩
  rcases Nat.lt_trichotomy m n with hlt | rfl | hgt
  · exact hlt
  · exact absurd h (String.lt_irrefl _)
  · exact absurd (hmono hm hgt) (String.lt_asymm h)

end Key

end TollClearing
