import Mathlib.Logic.Function.Basic
import SeKernel.Lib.Iterate

/-!
# Products of machines

A family of machines that share nothing. A turn steps one member, a round gives each member of a
list its turn. Rounds of distinct members are runs of each member alone: they return exactly when
each of these runs does, and then each member is where its own run ends (`rounds_eq_ok_iff`).
-/

namespace Product

open Iterate

variable {ι ε : Type*} {β : ι → Type*} [DecidableEq ι] (step : (x : ι) → β x → Except ε (β x))

/-- Member `x` takes a step. -/
def turn (f : (x : ι) → β x) (x : ι) : Except ε ((x : ι) → β x) :=
  (step x (f x)).map (Function.update f x)

/-- Every member of the list takes a step, in order. -/
def round (xs : List ι) (f : (x : ι) → β x) : Except ε ((x : ι) → β x) := xs.foldlM (turn step) f

variable {step} {f g : (x : ι) → β x} {x : ι} {xs : List ι} {k : Nat}

theorem turn_eq_ok :
    turn step f x = .ok g ↔ ∃ b, step x (f x) = .ok b ∧ g = Function.update f x b := by
  unfold turn
  cases step x (f x) with
  | error e =>
    constructor
    · intro h
      cases h
    · rintro ⟨b, h, -⟩
      cases h
  | ok b =>
    constructor
    · exact fun h => ⟨b, rfl, (Except.ok.inj h).symm⟩
    · rintro ⟨b', h, rfl⟩
      cases h
      rfl

theorem round_cons_eq_ok :
    round step (x :: xs) f = .ok g ↔ ∃ f₁, turn step f x = .ok f₁ ∧ round step xs f₁ = .ok g := by
  unfold round
  rw [List.foldlM_cons]
  exact bind_eq_ok

/-- A round of distinct members steps each of them once and no other. -/
theorem round_eq_ok_iff (hxs : xs.Nodup) :
    round step xs f = .ok g ↔ (∀ x ∈ xs, step x (f x) = .ok (g x)) ∧ ∀ x ∉ xs, g x = f x := by
  induction xs generalizing f with
  | nil =>
    constructor
    · intro h
      cases h
      exact ⟨fun x hx => (List.not_mem_nil hx).elim, fun _ _ => rfl⟩
    · rintro ⟨-, h⟩
      exact congrArg Except.ok (funext fun x => (h x List.not_mem_nil).symm)
  | cons y ys ih =>
    obtain ⟨hy, hys⟩ := List.nodup_cons.1 hxs
    have hne : ∀ x ∈ ys, x ≠ y := fun x hx h => hy (h ▸ hx)
    rw [round_cons_eq_ok]
    constructor
    · rintro ⟨f₁, hturn, hround⟩
      obtain ⟨b, hb, rfl⟩ := turn_eq_ok.1 hturn
      obtain ⟨hin, hout⟩ := (ih hys).1 hround
      refine ⟨fun x hx => ?_, fun x hx => ?_⟩
      · rcases List.mem_cons.1 hx with rfl | hx
        · rw [hout x hy, Function.update_self]
          exact hb
        · rw [← hin x hx, Function.update_of_ne (hne x hx)]
      · obtain ⟨hxy, hx⟩ := List.ne_and_not_mem_of_not_mem_cons hx
        rw [hout x hx, Function.update_of_ne hxy]
    · rintro ⟨hin, hout⟩
      refine ⟨_, turn_eq_ok.2 ⟨g y, hin y List.mem_cons_self, rfl⟩, (ih hys).2 ⟨?_, ?_⟩⟩
      · intro x hx
        rw [Function.update_of_ne (hne x hx)]
        exact hin x (List.mem_cons_of_mem y hx)
      · intro x hx
        by_cases hxy : x = y
        · subst hxy
          rw [Function.update_self]
        · rw [Function.update_of_ne hxy]
          exact hout x fun hmem => (List.mem_cons.1 hmem).elim hxy hx

/-- Results for the members of the list, and the other members as they are. -/
theorem exists_family {result : (x : ι) → Except ε (β x)} (h : ∀ x ∈ xs, ∃ b, result x = .ok b) :
    ∃ g : (x : ι) → β x, (∀ x ∈ xs, result x = .ok (g x)) ∧ ∀ x ∉ xs, g x = f x := by
  have hmember : ∀ x, ∃ b, (x ∈ xs → result x = .ok b) ∧ (x ∉ xs → b = f x) := by
    intro x
    by_cases hx : x ∈ xs
    · obtain ⟨b, hb⟩ := h x hx
      exact ⟨b, fun _ => hb, fun hout => absurd hx hout⟩
    · exact ⟨f x, fun hin => absurd hin hx, fun _ => rfl⟩
  choose g hg using hmember
  exact ⟨g, fun x => (hg x).1, fun x => (hg x).2⟩

/-- A round returns when each of its members' steps does. -/
theorem round_total (hxs : xs.Nodup) (h : ∀ x ∈ xs, ∃ b, step x (f x) = .ok b) :
    ∃ g, round step xs f = .ok g := by
  obtain ⟨g, hin, hout⟩ := exists_family h
  exact ⟨g, (round_eq_ok_iff hxs).2 ⟨hin, hout⟩⟩

/-- Rounds of distinct members are runs of each member alone. -/
theorem rounds_eq_ok_iff (hxs : xs.Nodup) :
    iter (round step xs) k f = .ok g ↔
      (∀ x ∈ xs, iter (step x) k (f x) = .ok (g x)) ∧ ∀ x ∉ xs, g x = f x := by
  induction k generalizing f with
  | zero =>
    constructor
    · intro h
      cases h
      exact ⟨fun _ _ => rfl, fun _ _ => rfl⟩
    · rintro ⟨hin, hout⟩
      refine congrArg Except.ok (funext fun x => ?_)
      by_cases hx : x ∈ xs
      · exact Except.ok.inj (hin x hx)
      · exact (hout x hx).symm
  | succ k ih =>
    rw [iter_succ_eq_ok]
    constructor
    · rintro ⟨f₁, hround, hrest⟩
      obtain ⟨hin₁, hout₁⟩ := (round_eq_ok_iff hxs).1 hround
      obtain ⟨hin, hout⟩ := ih.1 hrest
      exact ⟨fun x hx => iter_succ_eq_ok.2 ⟨f₁ x, hin₁ x hx, hin x hx⟩,
        fun x hx => (hout x hx).trans (hout₁ x hx)⟩
    · rintro ⟨hin, hout⟩
      obtain ⟨f₁, hround⟩ := round_total hxs fun x hx =>
        have ⟨b, hb, _⟩ := iter_succ_eq_ok.1 (hin x hx)
        ⟨b, hb⟩
      obtain ⟨hin₁, hout₁⟩ := (round_eq_ok_iff hxs).1 hround
      refine ⟨f₁, hround, ih.2 ⟨fun x hx => ?_, fun x hx => (hout x hx).trans (hout₁ x hx).symm⟩⟩
      obtain ⟨b, hb, hrun⟩ := iter_succ_eq_ok.1 (hin x hx)
      obtain rfl : b = f₁ x := Except.ok.inj (hb.symm.trans (hin₁ x hx))
      exact hrun

/-- Rounds return when each of the members' runs does. -/
theorem rounds_total (hxs : xs.Nodup) (h : ∀ x ∈ xs, ∃ b, iter (step x) k (f x) = .ok b) :
    ∃ g, iter (round step xs) k f = .ok g := by
  obtain ⟨g, hin, hout⟩ := exists_family h
  exact ⟨g, (rounds_eq_ok_iff hxs).2 ⟨hin, hout⟩⟩

/-- Conditions along the members' runs are one along the rounds. -/
theorem along_round {cond : (x : ι) → β x → Prop} (hxs : xs.Nodup)
    (h : ∀ x ∈ xs, Along (step x) (cond x) k (f x)) :
    Along (round step xs) (fun f => ∀ x ∈ xs, cond x (f x)) k f := by
  induction k generalizing f with
  | zero => trivial
  | succ k ih =>
    refine ⟨fun x hx => (h x hx).1, fun g hg => ih fun x hx => ?_⟩
    exact (h x hx).2 (g x) (((round_eq_ok_iff hxs).1 hg).1 x hx)

/-- What stops a round is what stops one of its members' steps. -/
theorem round_eq_error (hxs : xs.Nodup) {e : ε} (h : round step xs f = .error e) :
    ∃ x ∈ xs, step x (f x) = .error e := by
  induction xs generalizing f with
  | nil => cases h
  | cons y ys ih =>
    obtain ⟨hy, hys⟩ := List.nodup_cons.1 hxs
    unfold round at h
    rw [List.foldlM_cons, turn] at h
    cases hstep : step y (f y) with
    | error e' =>
      rw [hstep] at h
      cases h
      exact ⟨y, List.mem_cons_self, hstep⟩
    | ok b =>
      rw [hstep] at h
      obtain ⟨x, hx, hlater⟩ := ih hys h
      have hxy : x ≠ y := fun hxy => hy (hxy ▸ hx)
      rw [Function.update_of_ne hxy] at hlater
      exact ⟨x, List.mem_cons_of_mem y hx, hlater⟩

/-- What stops the rounds is what stops one of the members' runs. -/
theorem rounds_eq_error (hxs : xs.Nodup) {e : ε} (h : iter (round step xs) k f = .error e) :
    ∃ x ∈ xs, iter (step x) k (f x) = .error e := by
  induction k generalizing f with
  | zero => cases h
  | succ k ih =>
    rw [iter_succ] at h
    cases hround : round step xs f with
    | error e' =>
      rw [hround] at h
      cases h
      obtain ⟨x, hx, hstep⟩ := round_eq_error hxs hround
      refine ⟨x, hx, ?_⟩
      rw [iter_succ, hstep]
      rfl
    | ok f₁ =>
      rw [hround] at h
      obtain ⟨x, hx, hrun⟩ := ih h
      refine ⟨x, hx, ?_⟩
      rw [iter_succ, ((round_eq_ok_iff hxs).1 hround).1 x hx]
      exact hrun

end Product
