import Mathlib.Tactic.Common

/-!
# Steps, one after the other

A step that may stop with an error, taken `k` times. Runs are cut and joined (`iter_add`), and a
condition may be asked of the states that a run steps from (`Along`).
-/

namespace Iterate

universe u

variable {ε σ τ : Type*}

/-- `k` steps, one after the other, up to the first error. -/
def iter (step : σ → Except ε σ) : Nat → σ → Except ε σ
  | 0, s => .ok s
  | k + 1, s => step s >>= iter step k

/-- Every state from which one of the first `k` steps is taken meets the condition. -/
def Along (step : σ → Except ε σ) (cond : σ → Prop) : Nat → σ → Prop
  | 0, _ => True
  | k + 1, s => cond s ∧ ∀ s', step s = .ok s' → Along step cond k s'

section

variable {step : σ → Except ε σ} {cond : σ → Prop} {k l : Nat} {s s' : σ}

/-- A sequence of two computations returns when the first one returns and then the second one
does. -/
theorem bind_eq_ok {α β : Type u} {x : Except ε α} {f : α → Except ε β} {b : β} :
    (x >>= f) = .ok b ↔ ∃ a, x = .ok a ∧ f a = .ok b := by
  cases x with
  | error e =>
    constructor
    · intro h
      cases h
    · rintro ⟨a, h, -⟩
      cases h
  | ok a =>
    constructor
    · exact fun h => ⟨a, rfl, h⟩
    · rintro ⟨a, h, hf⟩
      cases h
      exact hf

theorem iter_succ_eq_ok :
    iter step (k + 1) s = .ok s' ↔ ∃ s₁, step s = .ok s₁ ∧ iter step k s₁ = .ok s' := bind_eq_ok

/-- A first step that meets the condition and a rest that does. -/
theorem Along.cons (hcond : cond s) (hstep : step s = .ok s') (h : Along step cond k s') :
    Along step cond (k + 1) s := by
  refine ⟨hcond, fun s₁ h₁ => ?_⟩
  rw [hstep] at h₁
  cases h₁
  exact h

@[simp] theorem iter_zero (step : σ → Except ε σ) (s : σ) : iter step 0 s = .ok s := rfl

@[simp] theorem iter_one (step : σ → Except ε σ) (s : σ) : iter step 1 s = step s := by
  show (step s >>= fun s' => .ok s') = step s
  cases step s <;> rfl

theorem iter_succ (step : σ → Except ε σ) (k : Nat) (s : σ) :
    iter step (k + 1) s = step s >>= iter step k := rfl

/-- A run is cut after its first `k` steps. -/
theorem iter_add (step : σ → Except ε σ) (k l : Nat) (s : σ) :
    iter step (k + l) s = iter step k s >>= iter step l := by
  induction k generalizing s with
  | zero =>
    rw [Nat.zero_add]
    rfl
  | succ k ih =>
    rw [Nat.succ_add, iter_succ, iter_succ]
    cases step s with
    | error e => rfl
    | ok s₁ => exact ih s₁

end

end Iterate
