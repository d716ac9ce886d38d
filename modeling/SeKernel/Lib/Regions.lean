import Mathlib.Data.List.Perm.Basic
import Mathlib.Data.Set.Card
import Mathlib.Data.Set.Lattice
import Mathlib.Order.CompletePartialOrder
import Mathlib.Order.Interval.Set.Basic
import Mathlib.Order.Interval.Finset.Nat

/-!
# Disjoint regions

A list of pairwise disjoint sets stays so when it is reordered, when a member is cut into disjoint
pieces (`pairwise_replace`) and when members are left out (`List.Pairwise.sublist`). What the list
covers has as many elements as its members together (`ncard_cover`).
-/

namespace Regions

variable {α : Type*} {l l' parts : List (Set α)} {A : Set α}

/-- The order of the regions does not matter. -/
theorem pairwise_perm (hperm : l.Perm l') (h : l.Pairwise Disjoint) : l'.Pairwise Disjoint :=
  (hperm.pairwise_iff fun hd => hd.symm).1 h

/-- A region may be replaced by disjoint pieces of it. -/
theorem pairwise_replace (h : (A :: l).Pairwise Disjoint) (hparts : parts.Pairwise Disjoint)
    (hsub : ∀ P ∈ parts, P ⊆ A) : (parts ++ l).Pairwise Disjoint := by
  obtain ⟨hA, hl⟩ := List.pairwise_cons.1 h
  refine List.pairwise_append.2 ⟨hparts, hl, ?_⟩
  intro P hP B hB
  exact (hA B hB).mono_left (hsub P hP)

/-- The elements of some region. -/
def cover (l : List (Set α)) : Set α := {a | ∃ A ∈ l, a ∈ A}

@[simp] theorem cover_nil : cover ([] : List (Set α)) = ∅ := by
  ext a
  simp [cover]

@[simp] theorem cover_cons (A : Set α) (l : List (Set α)) : cover (A :: l) = A ∪ cover l := by
  ext a
  simp [cover]

@[simp] theorem cover_append (l l' : List (Set α)) : cover (l ++ l') = cover l ∪ cover l' := by
  ext a
  simp [cover, or_and_right, exists_or]

theorem cover_perm (hperm : l.Perm l') : cover l = cover l' := by
  ext a
  simp [cover, hperm.mem_iff]

theorem finite_cover (hfin : ∀ A ∈ l, A.Finite) : (cover l).Finite := by
  induction l with
  | nil => simp
  | cons A l ih =>
    rw [cover_cons]
    exact (hfin A (by simp)).union (ih fun B hB => hfin B (by simp [hB]))

/-- A region apart from all others is apart from what they cover. -/
theorem disjoint_cover (h : ∀ B ∈ l, Disjoint A B) : Disjoint A (cover l) := by
  rw [Set.disjoint_left]
  intro a ha hcover
  obtain ⟨B, hB, haB⟩ := hcover
  exact Set.disjoint_left.1 (h B hB) ha haB

/-- Exchanging a region for pieces that cover it up to a part takes that part away. -/
theorem cover_replace {B : Set α} (h : (A :: l).Pairwise Disjoint) (hparts : cover parts = A \ B)
    (hB : B ⊆ A) : cover (parts ++ l) = cover (A :: l) \ B := by
  have hdisj : Disjoint (cover l) B :=
    (disjoint_cover (List.pairwise_cons.1 h).1).symm.mono_right hB
  rw [cover_append, cover_cons, hparts, Set.union_sdiff_distrib, hdisj.sdiff_eq_left]

/-- Disjoint regions cover as many elements as they have together. -/
theorem ncard_cover (h : l.Pairwise Disjoint) (hfin : ∀ A ∈ l, A.Finite) :
    (cover l).ncard = (l.map Set.ncard).sum := by
  induction l with
  | nil => simp
  | cons A l ih =>
    obtain ⟨hA, hl⟩ := List.pairwise_cons.1 h
    have hlfin : ∀ B ∈ l, B.Finite := fun B hB => hfin B (by simp [hB])
    rw [cover_cons, Set.ncard_union_eq (disjoint_cover hA) (hfin A (by simp)) (finite_cover hlfin),
      List.map_cons, List.sum_cons, ih hl hlfin]

/-- An interval of numbers. -/
theorem ncard_Icc (a b : Nat) : (Set.Icc a b).ncard = b + 1 - a := by
  rw [← Finset.coe_Icc, Set.ncard_coe_finset, Nat.card_Icc]

end Regions
