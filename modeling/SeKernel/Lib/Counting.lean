import Mathlib.Algebra.BigOperators.Group.Finset.Piecewise
import Mathlib.Algebra.Order.BigOperators.Group.Finset
import Mathlib.Data.Fintype.BigOperators
import Mathlib.Algebra.BigOperators.Ring.Finset
import Mathlib.Tactic.Abel

/-!
# Counting over a family

How a sum over a finite family changes when one member changes (`sum_update`), and the number of
members with a property (`count`) as an integer that follows its members' changes.
-/

namespace Counting

variable {ι β M : Type*} [Fintype ι]

/-- The number of members with a property. -/
def count (p : β → Bool) (f : ι → β) : Int := ∑ j, if p (f j) then 1 else 0

theorem count_eq_card (p : β → Bool) (f : ι → β) :
    count p f = (Finset.univ.filter fun j => p (f j)).card := by
  unfold count
  rw [Finset.card_filter]
  push_cast
  rfl

/-- When no more members have `q` than `p`, and `p` implies `q`, then `q` implies `p`. -/
theorem of_count_le {p q : β → Bool} {f : ι → β} (hpq : ∀ j, p (f j) → q (f j))
    (hle : count q f ≤ count p f) (j : ι) (hj : q (f j)) : p (f j) := by
  rw [count_eq_card, count_eq_card] at hle
  have hsub : (Finset.univ.filter fun j => p (f j)) ⊆ Finset.univ.filter fun j => q (f j) :=
    fun k hk => by simpa using hpq k (by simpa using hk)
  have heq := Finset.eq_of_subset_of_card_le hsub (by exact_mod_cast hle)
  have hmem : j ∈ Finset.univ.filter fun j => q (f j) := by simpa using hj
  rw [← heq] at hmem
  simpa using hmem

/-- A member with the property makes the number positive. -/
theorem count_pos {p : β → Bool} {f : ι → β} {j : ι} (hj : p (f j)) : 1 ≤ count p f := by
  rw [count_eq_card]
  exact_mod_cast Finset.card_pos.2 ⟨j, by simpa using hj⟩

variable [DecidableEq ι]

/-- Changing one member changes the sum by that member. -/
theorem sum_update [AddCommMonoid M] (g : ι → β → M) (f : ι → β) (i : ι) (v : β) :
    ∑ j, g j (Function.update f i v j) + g i (f i) = ∑ j, g j (f j) + g i v := by
  have hrest : ∑ j ∈ Finset.univ.erase i, g j (Function.update f i v j) =
      ∑ j ∈ Finset.univ.erase i, g j (f j) :=
    Finset.sum_congr rfl fun j hj => by rw [Function.update_of_ne (Finset.ne_of_mem_erase hj)]
  rw [← Finset.add_sum_erase Finset.univ (fun j => g j (Function.update f i v j))
      (Finset.mem_univ i),
    ← Finset.add_sum_erase Finset.univ (fun j => g j (f j)) (Finset.mem_univ i), hrest,
    Function.update_self]
  abel

/-- The number changes with the member that changes. -/
theorem count_update (p : β → Bool) (f : ι → β) (i : ι) (v : β) :
    count p (Function.update f i v) =
      count p f + (if p v then 1 else 0) - (if p (f i) then 1 else 0) := by
  have h := sum_update (fun _ b => if p b then (1 : Int) else 0) f i v
  unfold count
  omega

/-- Two members with the property make the number at least two. -/
theorem two_le_count {p : β → Bool} {f : ι → β} {i j : ι} (hij : i ≠ j) (hi : p (f i))
    (hj : p (f j)) : 2 ≤ count p f := by
  rw [count_eq_card]
  have hsub : {i, j} ⊆ Finset.univ.filter fun j => p (f j) := by
    intro k hk
    rcases Finset.mem_insert.1 hk with rfl | hk
    · simpa using hi
    · rw [Finset.mem_singleton] at hk
      subst hk
      simpa using hj
  have hcard := Finset.card_le_card hsub
  rw [Finset.card_pair hij] at hcard
  exact_mod_cast hcard

end Counting
