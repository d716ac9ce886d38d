import Mathlib.Data.Nat.Bitwise
import Mathlib.Tactic.Common

/-!
# Masked bit vectors as numbers

A mask that keeps the bits from `k` up to `m` is `2 ^ m - 2 ^ k`; masking with it is rounding down
to a multiple of `2 ^ k` modulo `2 ^ m`. Joining a multiple of `2 ^ k` and an offset below `2 ^ k`
is adding them.
-/

namespace Masks

theorem and_two_pow_sub_two_pow (n : Nat) {k m : Nat} (hkm : k ≤ m) :
    n &&& (2 ^ m - 2 ^ k) = n % 2 ^ m / 2 ^ k * 2 ^ k := by
  have hmask : 2 ^ m - 2 ^ k = (2 ^ (m - k) - 1) <<< k := by
    rw [Nat.shiftLeft_eq, Nat.sub_mul, ← Nat.pow_add, Nat.sub_add_cancel hkm, Nat.one_mul]
  rw [hmask, ← Nat.shiftRight_eq_div_pow, ← Nat.shiftLeft_eq]
  refine Nat.eq_of_testBit_eq fun i => ?_
  simp only [Nat.testBit_and, Nat.testBit_shiftLeft, Nat.testBit_two_pow_sub_one,
    Nat.testBit_shiftRight, Nat.testBit_mod_two_pow]
  by_cases hik : k ≤ i
  · have hlt : i - k < m - k ↔ i < m := by omega
    simp [hik, hlt, Bool.and_comm]
  · simp [hik]

variable {w : Nat}

/-- Masking rounds down. -/
theorem toNat_and_mask (x : BitVec w) {M : BitVec w} {k m : Nat} (hkm : k ≤ m)
    (hM : M.toNat = 2 ^ m - 2 ^ k) : (x &&& M).toNat = x.toNat % 2 ^ m / 2 ^ k * 2 ^ k := by
  rw [BitVec.toNat_and, hM, and_two_pow_sub_two_pow _ hkm]

/-- Joining a base and an offset adds them. -/
theorem toNat_or_offset {x y : BitVec w} {k : Nat} (hx : 2 ^ k ∣ x.toNat) (hy : y.toNat < 2 ^ k) :
    (x ||| y).toNat = x.toNat + y.toNat := by
  obtain ⟨q, hq⟩ := hx
  rw [BitVec.toNat_or, hq, Nat.two_pow_add_eq_or_of_lt hy]

end Masks
