import Mathlib.Tactic.Common
import SeKernel.Lib.Iterate
import SeKernel.Lib.Machine

/-!
# Calls that do not return

A C call of the kernel either returns a value or does not: it leaves the program through `err` of
`<err.h>`, or it does something the C standard leaves undefined. `Outcome α` is the result of such
a call and `Fault` says why there is none. State is passed explicitly, so a function that changes a
structure returns the new one inside its `Outcome`.
-/

namespace SeKernel

/-- Why a call does not return. Reference: `err(1, ..)` ends the program with a message; the other
constructors are the undefined behaviours that the modelled functions can run into. -/
inductive Fault
  /-- `err(eval, msg)`: the program prints the message and exits. -/
  | err (eval : Nat) (msg : String)
  /-- A field of `NULL` is read or written. -/
  | nullDeref
  /-- An object that is not allocated (any more) is read, written or freed. -/
  | dangling
  /-- `free` of a pointer that `malloc` did not return. -/
  | badFree
  /-- A pointer that was never set is followed. -/
  | wildPointer
  /-- An array is indexed outside its bounds. -/
  | outOfBounds
  /-- An integer operation without a result (division by zero, `INT32_MIN / -1`, and where it is not
  taken modulo 2^32 a signed result that is no `int`). -/
  | arith
  /-- A loop of the model was given fewer rounds than the run needs. -/
  | outOfFuel
  /-- A run in which `malloc` answers with an address that is in use; no real run does this. -/
  | mallocInUse
  deriving DecidableEq, Repr

/-- The outcome of a C call. -/
abbrev Outcome := Except Fault

/-- The values of type `int`. -/
abbrev IsInt (value : Int) : Prop := -0x80000000 ≤ value ∧ value < 0x80000000

/-- The value of an expression of type `int`; a value that is no `int` is undefined. -/
def asInt (value : Int) : Outcome Int := if IsInt value then .ok value else .error .arith

theorem asInt_eq_ok {value r : Int} : asInt value = .ok r ↔ IsInt value ∧ value = r := by
  unfold asInt
  by_cases h : IsInt value
  · rw [if_pos h]
    exact ⟨fun heq => ⟨h, Except.ok.inj heq⟩, fun heq => congrArg Except.ok heq.2⟩
  · rw [if_neg h]
    exact ⟨fun heq => (by cases heq), fun heq => absurd heq.1 h⟩

namespace Outcome

variable {α β : Type _}

@[simp] theorem ok_bind (a : α) (f : α → Outcome β) : (Except.ok a >>= f) = f a := rfl

@[simp] theorem error_bind (e : Fault) (f : α → Outcome β) :
    ((Except.error e : Outcome α) >>= f) = Except.error e := rfl

@[simp] theorem pure_eq (a : α) : (pure a : Outcome α) = Except.ok a := rfl

@[simp] theorem throw_eq (e : Fault) : (throw e : Outcome α) = Except.error e := rfl

/-- A sequence of two calls returns when the first one returns and then the second one does. -/
theorem bind_eq_ok {x : Outcome α} {f : α → Outcome β} {b : β} :
    (x >>= f) = .ok b ↔ ∃ a, x = .ok a ∧ f a = .ok b := Iterate.bind_eq_ok

/-- The calls stop with the same fault, or both return and the results are related. -/
def Rel (R : α → β → Prop) : Outcome α → Outcome β → Prop
  | .ok a, .ok b => R a b
  | .error e, .error e' => e = e'
  | _, _ => False

/-- Calls that are related step by step are related. -/
theorem Rel.bind {γ δ : Type _} {R : α → β → Prop} {S : γ → δ → Prop} {x : Outcome α}
    {y : Outcome β} {f : α → Outcome γ} {g : β → Outcome δ} (hx : Rel R x y)
    (hf : ∀ a b, R a b → Rel S (f a) (g b)) : Rel S (x >>= f) (y >>= g) := by
  cases x with
  | ok a =>
    cases y with
    | ok b => exact hf a b hx
    | error e => cases hx
  | error e =>
    cases y with
    | ok b => cases hx
    | error e' => exact hx

/-- A call stops or returns like itself. -/
theorem Rel.refl (x : Outcome α) : Rel Eq x x := by
  cases x <;> rfl

/-- What the second call returns, the first one does up to the relation. -/
theorem Rel.of_ok {R : α → β → Prop} {x : Outcome α} {b : β} (h : Rel R x (.ok b)) :
    ∃ a, x = .ok a ∧ R a b := by
  cases x with
  | ok a => exact ⟨a, rfl, h⟩
  | error e => cases h

theorem Rel.mono {R S : α → β → Prop} {x : Outcome α} {y : Outcome β} (h : Rel R x y)
    (hRS : ∀ a b, R a b → S a b) : Rel S x y := by
  cases x with
  | ok a =>
    cases y with
    | ok b => exact hRS a b h
    | error e => cases h
  | error e =>
    cases y with
    | ok b => cases h
    | error e' => exact h

theorem Rel.map {γ δ : Type _} {R : α → β → Prop} {S : γ → δ → Prop} {x : Outcome α}
    {y : Outcome β} {f : α → γ} {g : β → δ} (h : Rel R x y) (hfg : ∀ a b, R a b → S (f a) (g b)) :
    Rel S (x.map f) (y.map g) := by
  cases x with
  | ok a =>
    cases y with
    | ok b => exact hfg a b h
    | error e => cases h
  | error e =>
    cases y with
    | ok b => cases h
    | error e' => exact h

/-- What the first call returns, the second one does up to the relation. -/
theorem Rel.of_ok_left {R : α → β → Prop} {a : α} {y : Outcome β} (h : Rel R (.ok a) y) :
    ∃ b, y = .ok b ∧ R a b := by
  cases y with
  | ok b => exact ⟨b, rfl, h⟩
  | error e => cases h

/-- What stops the second call stops the first one. -/
theorem Rel.of_error {R : α → β → Prop} {x : Outcome α} {e : Fault} (h : Rel R x (.error e)) :
    x = .error e := by
  cases x with
  | ok a => cases h
  | error e' => exact congrArg Except.error h

/-- Steps that are related from related states, where the second one is taken under a condition, are
related over whole runs. -/
theorem Rel.iter {R : α → β → Prop} {step : α → Outcome α} {step' : β → Outcome β}
    {cond : β → Prop} (hstep : ∀ a b, R a b → cond b → Rel R (step a) (step' b)) {a : α} {b : β}
    {k : Nat} (hR : R a b) (hcond : Iterate.Along step' cond k b) :
    Rel R (Iterate.iter step k a) (Iterate.iter step' k b) := by
  induction k generalizing a b with
  | zero => exact hR
  | succ k ih =>
    rw [Iterate.iter_succ, Iterate.iter_succ]
    have hfirst := hstep a b hR hcond.1
    cases hb : step' b with
    | error e =>
      rw [hb] at hfirst
      rw [hfirst.of_error]
      exact rfl
    | ok b' =>
      rw [hb] at hfirst
      obtain ⟨a', ha, hR'⟩ := hfirst.of_ok
      rw [ha]
      exact ih hR' (hcond.2 b' hb)

/-- The first call stops with the excused fault, or the calls are related. -/
def RelUnless (e : Fault) (R : α → β → Prop) (x : Outcome α) (y : Outcome β) : Prop :=
  x = .error e ∨ Rel R x y

theorem RelUnless.bind {γ δ : Type _} {e : Fault} {R : α → β → Prop} {S : γ → δ → Prop}
    {x : Outcome α} {y : Outcome β} {f : α → Outcome γ} {g : β → Outcome δ} (hx : RelUnless e R x y)
    (hf : ∀ a b, R a b → RelUnless e S (f a) (g b)) : RelUnless e S (x >>= f) (y >>= g) := by
  rcases hx with rfl | hx
  · exact .inl rfl
  · cases x with
    | error e' =>
      cases y with
      | error e'' => exact .inr hx
      | ok b => cases hx
    | ok a =>
      cases y with
      | error e' => cases hx
      | ok b => exact hf a b hx

/-- A run is a first call and the rest. -/
theorem run_cons {ι ο : Type _} (step : ι → α → Outcome (ο × α)) (i : ι) (is : List ι) (a : α) :
    Machine.run step (i :: is) a = do
      let (o, a) ← step i a
      let (os, a) ← Machine.run step is a
      return (o :: os, a) := by
  rw [Machine.run]
  cases step i a with
  | error e => rfl
  | ok r => cases hrest : Machine.run step is r.2 <;> simp [hrest]

/-- Commands that are answered alike from related states, up to the excused fault, are so over whole
runs: `f` translates the commands and `g` the answers. -/
theorem RelUnless.run {ι κ ο ο' : Type _} {e : Fault} {R : α → β → Prop} {valid : ι → Prop}
    {step : ι → α → Outcome (ο × α)} {step' : κ → β → Outcome (ο' × β)} {f : ι → κ} {g : ο' → ο}
    (hstep : ∀ i a b, valid i → R a b →
      RelUnless e (fun x y => x.1 = g y.1 ∧ R x.2 y.2) (step i a) (step' (f i) b))
    {is : List ι} (hvalid : ∀ i ∈ is, valid i) {a : α} {b : β} (hR : R a b) :
    RelUnless e (fun x y => x.1 = y.1.map g ∧ R x.2 y.2) (Machine.run step is a)
      (Machine.run step' (is.map f) b) := by
  induction is generalizing a b with
  | nil => exact .inr ⟨rfl, hR⟩
  | cons i is ih =>
    obtain ⟨hi, his⟩ := List.forall_mem_cons.1 hvalid
    rw [List.map_cons, run_cons, run_cons]
    refine (hstep i a b hi hR).bind fun x y hxy => (ih his hxy.2).bind fun x' y' hrest => .inr ?_
    exact ⟨congrArg₂ List.cons hxy.1 hrest.1, hrest.2⟩

/-- The call does not stop at a field of `NULL`. -/
def NoNull (x : Outcome α) : Prop := x ≠ .error .nullDeref

theorem noNull_ok (a : α) : NoNull (.ok a) := nofun

/-- Neither does a sequence of two calls that do not. -/
theorem NoNull.bind {x : Outcome α} {f : α → Outcome β} (hx : NoNull x)
    (hf : ∀ a, x = .ok a → NoNull (f a)) : NoNull (x >>= f) := by
  cases x with
  | error e =>
    intro h
    cases h
    exact hx rfl
  | ok a => exact hf a rfl

end Outcome

end SeKernel
