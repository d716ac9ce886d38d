import SeKernel.LinkedList.Refinement

/-!
# Peeking and popping a match

The two calls search alike. `linkedlist_peek_first_match_from_rear` returns `current->data`;
`linkedlist_pop_first_match_from_rear` returns what `__unlink_procedure_of_current` does, which is
an `int`. They agree on the lists whose first match has a pointer in the range of an `int`
(`popAgreesWithPeek_iff`).
-/

namespace SeKernel.LinkedList

open Doubly

/-- The pointer, read as a signed number, is in the range of an `int`. -/
def FitsInt (d : VoidPtr) : Prop := d.toNat ≤ 0x7FFFFFFF ∨ 0xFFFFFFFF80000000 ≤ d.toNat

instance (d : VoidPtr) : Decidable (FitsInt d) :=
  inferInstanceAs (Decidable (d.toNat ≤ 0x7FFFFFFF ∨ 0xFFFFFFFF80000000 ≤ d.toNat))

/-- Both calls return, and they return the same pointer; when nothing matches it is `NULL`, and the
list is as it was. -/
def PopAgreesWithPeek (fuel : Nat) (h : Heap) (l : LinkedlistStructure)
    (xs : List (Addr × VoidPtr)) (matchFn : VoidPtr → VoidPtr → Int) (args : VoidPtr) : Prop :=
  ∃ d l' h', linkedlistPeekFirstMatchFromRear fuel l h matchFn args = .ok d ∧
    linkedlistPopFirstMatchFromRear fuel l h matchFn args = .ok (d, l', h') ∧
    ((∀ e ∈ datas xs, matchFn e args = 0) → d = NULL ∧ l' = l ∧ h' = h)

/-- These are the pointers that survive the way through an `int`. -/
theorem throughInt_eq_iff {d : VoidPtr} : throughInt d = d ↔ FitsInt d := by
  have hd := d.isLt
  -- the sign bit of the low half decides what the high half becomes
  rw [throughInt, ← BitVec.toNat_inj, BitVec.toNat_signExtend, BitVec.msb_eq_decide,
    BitVec.toNat_setWidth, BitVec.toNat_setWidth, FitsInt]
  simp only [decide_eq_true_eq]
  split <;> omega

section

variable {h : Heap} {l : LinkedlistStructure} {xs : List (Addr × VoidPtr)} {fuel : Nat}

/-- On a well-formed list the two calls agree if and only if nothing matches or the first match fits
an `int`. Reference: `linkedlist_pop_first_match_from_rear` (`src/linkedlist.c:129`),
`__unlink_procedure_of_current` (`src/linkedlist.c:157`). -/
theorem popAgreesWithPeek_iff (hr : Represents h l xs) (hfuel : xs.length < fuel)
    (matchFn : VoidPtr → VoidPtr → Int) (args : VoidPtr) :
    PopAgreesWithPeek fuel h l xs matchFn args ↔
      ∀ d, (datas xs).find? (isMatch matchFn args) = some d → FitsInt d := by
  rcases firstMatch_cases matchFn args xs with hno | ⟨ys, a, d, zs, rfl, hno, hd⟩
  · obtain ⟨hpeek, hpop⟩ := firstMatch_none hr hfuel hno
    rw [(find?_isMatch_none hno).1]
    constructor
    · intro _ d hfind
      cases hfind
    · intro _
      exact ⟨NULL, l, h, hpeek, hpop, fun _ => ⟨rfl, rfl, rfl⟩⟩
  · have hpeek := linkedlistPeekFirstMatchFromRear_first hr (walk_lt hfuel) hno hd
    obtain ⟨l', h', hpop, -⟩ := linkedlistPopFirstMatchFromRear_first hr (walk_lt hfuel) hno hd
    rw [(find?_isMatch_first hno hd).1]
    constructor
    · rintro ⟨e, l₁, h₁, hpeek₁, hpop₁, -⟩ _ ⟨⟩
      cases hpeek.symm.trans hpeek₁
      have heq : throughInt d = d :=
        congrArg Prod.fst (Except.ok.inj (hpop.symm.trans hpop₁))
      exact throughInt_eq_iff.1 heq
    · intro hfits
      rw [throughInt_eq_iff.2 (hfits d rfl)] at hpop
      refine ⟨d, l', h', hpeek, hpop, fun hall => absurd (hall d ?_) hd⟩
      simp

end

end SeKernel.LinkedList
