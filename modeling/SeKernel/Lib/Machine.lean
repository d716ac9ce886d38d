import Mathlib.Tactic.Common

/-!
# Machines that answer commands

A machine takes a state and a command and either stops with an error or answers and moves to a next
state. `run` feeds it a list of commands. The rules lift facts about one step to a whole run: an
invariant that steps keep under a condition on the command and the state before it
(`run_invariant_of_meets`), a simulation of an abstract machine that always answers
(`run_simulates`), two machines that answer and stop alike (`run_agrees`), or do the same where a
condition is met (`run_eq_of_meets`), a projection to another machine (`run_projects`), and two
conditions met by the same runs (`meets_congr_of_invariant`).
-/

namespace Machine

variable {ε σ τ ι ο : Type*}

/-- Feed the commands one after the other, stopping at the first error. -/
def run (step : ι → σ → Except ε (ο × σ)) : List ι → σ → Except ε (List ο × σ)
  | [], s => .ok ([], s)
  | i :: is, s =>
    match step i s with
    | .error e => .error e
    | .ok (o, s₁) =>
      match run step is s₁ with
      | .error e => .error e
      | .ok (os, s₂) => .ok (o :: os, s₂)

/-- The run of a machine that always answers. -/
def specRun (spec : ι → τ → ο × τ) : List ι → τ → List ο × τ
  | [], t => ([], t)
  | i :: is, t =>
      ((spec i t).1 :: (specRun spec is (spec i t).2).1, (specRun spec is (spec i t).2).2)

/-- Every command is fed in a state that meets the condition. -/
def Meets (step : ι → σ → Except ε (ο × σ)) (cond : ι → σ → Prop) : List ι → σ → Prop
  | [], _ => True
  | i :: is, s => cond i s ∧ ∀ o s', step i s = .ok (o, s') → Meets step cond is s'

section
variable {step : ι → σ → Except ε (ο × σ)}

theorem run_cons_eq_ok {i : ι} {is : List ι} {s s' : σ} {os : List ο} :
    run step (i :: is) s = .ok (os, s') ↔
      ∃ o s₁ os₁, step i s = .ok (o, s₁) ∧ run step is s₁ = .ok (os₁, s') ∧ os = o :: os₁ := by
  simp only [run]
  cases hi : step i s with
  | error e => simp
  | ok r =>
    obtain ⟨o, s₁⟩ := r
    cases his : run step is s₁ with
    | error e => simp [his]
    | ok q =>
      obtain ⟨os₁, s₂⟩ := q
      constructor
      · intro h
        simp only [his] at h
        cases h
        exact ⟨o, s₁, os₁, rfl, his, rfl⟩
      · rintro ⟨o', s₁', os₁', h1, h2, rfl⟩
        cases h1
        rw [his] at h2
        cases h2
        simp only [his]

/-- A first step that meets the condition and a rest that does. -/
theorem Meets.cons {cond : ι → σ → Prop} {i : ι} {is : List ι} {s s' : σ} {o : ο} (hcond : cond i s)
    (hstep : step i s = .ok (o, s')) (h : Meets step cond is s') : Meets step cond (i :: is) s := by
  refine ⟨hcond, fun o₁ s₁ h₁ => ?_⟩
  rw [hstep] at h₁
  cases h₁
  exact h

/-- A condition on the commands alone. -/
theorem Meets.of_forall {valid : ι → Prop} {is : List ι} (h : ∀ i ∈ is, valid i) (s : σ) :
    Meets step (fun i _ => valid i) is s := by
  induction is generalizing s with
  | nil => trivial
  | cons i is ih =>
    obtain ⟨hi, his⟩ := List.forall_mem_cons.1 h
    exact ⟨hi, fun _ s' _ => ih his s'⟩

/-- A condition that always holds. -/
theorem Meets.of_always {cond : ι → σ → Prop} (h : ∀ i s, cond i s) (is : List ι) (s : σ) :
    Meets step cond is s := by
  induction is generalizing s with
  | nil => trivial
  | cons i is ih => exact ⟨h i s, fun _ s' _ => ih s'⟩

/-- What every step keeps under a condition, every run whose steps meet the condition keeps. -/
theorem run_invariant_of_meets {Inv : σ → Prop} {cond : ι → σ → Prop}
    (hstep : ∀ i s o s', Inv s → cond i s → step i s = .ok (o, s') → Inv s') {is : List ι}
    {s s' : σ} {os : List ο} (hs : Inv s) (hmeets : Meets step cond is s)
    (hrun : run step is s = .ok (os, s')) : Inv s' := by
  induction is generalizing s os with
  | nil => cases hrun; exact hs
  | cons i is ih =>
    obtain ⟨o, s₁, os₁, h1, h2, -⟩ := run_cons_eq_ok.1 hrun
    exact ih (hstep i s o s₁ hs hmeets.1 h1) (hmeets.2 o s₁ h1) h2

/-- A machine whose every step either stops with an excused error or answers like the abstract
machine does so over whole runs. -/
theorem run_simulates {spec : ι → τ → ο × τ} {R : σ → τ → Prop} {excused : ε → Prop}
    (hstep : ∀ i s t, R s t → (∃ e, step i s = .error e ∧ excused e) ∨
      ∃ s', step i s = .ok ((spec i t).1, s') ∧ R s' (spec i t).2)
    (is : List ι) {s : σ} {t : τ} (hR : R s t) :
    (∃ e, run step is s = .error e ∧ excused e) ∨
      ∃ s', run step is s = .ok ((specRun spec is t).1, s') ∧ R s' (specRun spec is t).2 := by
  induction is generalizing s t with
  | nil => exact .inr ⟨s, rfl, hR⟩
  | cons i is ih =>
    rcases hstep i s t hR with ⟨e, he, hx⟩ | ⟨s₁, h1, hR₁⟩
    · exact .inl ⟨e, by simp [run, he], hx⟩
    · rcases ih hR₁ with ⟨e, he, hx⟩ | ⟨s', h2, hR'⟩
      · exact .inl ⟨e, by simp [run, h1, he], hx⟩
      · exact .inr ⟨s', by simp [run, h1, h2, specRun], hR'⟩

/-- Two outcomes are alike: the same error, or the same answer and related states. -/
def Agrees (R : σ → τ → Prop) : Except ε (ο × σ) → Except ε (ο × τ) → Prop
  | .error e, .error e' => e = e'
  | .ok (o, s), .ok (o', t) => o = o' ∧ R s t
  | _, _ => False

/-- Both stop with one error, or both answer alike and go on from related states. -/
theorem agrees_iff {R : σ → τ → Prop} {x : Except ε (ο × σ)} {y : Except ε (ο × τ)} :
    Agrees R x y ↔ (∃ e, x = .error e ∧ y = .error e) ∨
      ∃ o s t, x = .ok (o, s) ∧ y = .ok (o, t) ∧ R s t := by
  constructor
  · intro h
    cases x with
    | error e =>
      cases y with
      | error e' => exact .inl ⟨e, rfl, congrArg _ (show e = e' from h).symm⟩
      | ok r => exact h.elim
    | ok r =>
      cases y with
      | error e => exact h.elim
      | ok r' => exact .inr ⟨r.1, r.2, r'.2, rfl, by rw [show r.1 = r'.1 from h.1], h.2⟩
  · intro h
    rcases h with ⟨e, rfl, rfl⟩ | ⟨o, s, t, rfl, rfl, hR⟩
    · exact rfl
    · exact ⟨rfl, hR⟩

theorem Agrees.mono {R R' : σ → τ → Prop} {x : Except ε (ο × σ)} {y : Except ε (ο × τ)}
    (h : Agrees R x y) (hR : ∀ s t, R s t → R' s t) : Agrees R' x y := by
  rcases agrees_iff.1 h with ⟨e, rfl, rfl⟩ | ⟨o, s, t, rfl, rfl, hst⟩
  · exact rfl
  · exact ⟨rfl, hR s t hst⟩

/-- Two machines whose steps are alike on related states are alike over whole runs, stops
included. -/
theorem run_agrees {step' : ι → τ → Except ε (ο × τ)} {R : σ → τ → Prop} {valid : ι → Prop}
    (hstep : ∀ i s t, valid i → R s t → Agrees R (step i s) (step' i t)) {is : List ι} {s : σ}
    {t : τ} (hvalid : ∀ i ∈ is, valid i) (hR : R s t) :
    Agrees R (run step is s) (run step' is t) := by
  induction is generalizing s t with
  | nil => exact ⟨rfl, hR⟩
  | cons i is ih =>
    obtain ⟨hi, his⟩ := List.forall_mem_cons.1 hvalid
    rcases agrees_iff.1 (hstep i s t hi hR) with ⟨e, hs, ht⟩ | ⟨o, s₁, t₁, hs, ht, hR₁⟩
    · simp only [run, hs, ht]
      exact rfl
    · rcases agrees_iff.1 (ih his hR₁) with ⟨e, hs', ht'⟩ | ⟨os, s', t', hs', ht', hR'⟩
      · simp only [run, hs, ht, hs', ht']
        exact rfl
      · simp only [run, hs, ht, hs', ht']
        exact ⟨rfl, hR'⟩

/-- A machine that always answers, seen as one that may stop. -/
theorem run_spec (spec : ι → τ → ο × τ) (is : List ι) (t : τ) :
    run (ε := ε) (fun i t => .ok (spec i t)) is t = .ok (specRun spec is t) := by
  induction is generalizing t with
  | nil => rfl
  | cons i is ih => simp only [run, specRun, ih]

/-- What answers like a machine that always answers answers. -/
theorem Agrees.exists_ok {R : σ → τ → Prop} {x : Except ε (ο × σ)} {o : ο} {t : τ}
    (h : Agrees R x (.ok (o, t))) : ∃ s, x = .ok (o, s) ∧ R s t := by
  rcases agrees_iff.1 h with ⟨e, -, hy⟩ | ⟨o', s, t', rfl, hy, hR⟩
  · cases hy
  · cases hy
    exact ⟨s, rfl, hR⟩

theorem run_append {is js : List ι} {s : σ} {s₁ s' : σ} {os os' : List ο}
    (h : run step is s = .ok (os, s₁)) (h' : run step js s₁ = .ok (os', s')) :
    run step (is ++ js) s = .ok (os ++ os', s') := by
  induction is generalizing s os with
  | nil =>
    cases h
    exact h'
  | cons i is ih =>
    obtain ⟨o, s₂, os₂, h1, h2, rfl⟩ := run_cons_eq_ok.1 h
    exact run_cons_eq_ok.2 ⟨o, s₂, os₂ ++ os', h1, ih h2, rfl⟩

/-- A machine whose every step (under a condition) is a stretch of steps of another machine runs in
step with it. -/
theorem run_projects {κ ο' : Type*} {step' : κ → τ → Except ε (ο' × τ)} {proj : ι → List κ}
    {R : σ → τ → Prop} {cond : ι → σ → Prop}
    (hstep : ∀ i s o s' t, R s t → cond i s → step i s = .ok (o, s') →
      ∃ os t', run step' (proj i) t = .ok (os, t') ∧ R s' t')
    {is : List ι} {s s' : σ} {t : τ} {os : List ο} (hR : R s t) (hmeets : Meets step cond is s)
    (hrun : run step is s = .ok (os, s')) :
    ∃ os' t', run step' (is.flatMap proj) t = .ok (os', t') ∧ R s' t' := by
  induction is generalizing s t os with
  | nil =>
    cases hrun
    exact ⟨[], t, rfl, hR⟩
  | cons i is ih =>
    obtain ⟨o, s₁, os₁, h1, h2, -⟩ := run_cons_eq_ok.1 hrun
    obtain ⟨os₂, t₁, ht₁, hR₁⟩ := hstep i s o s₁ t hR hmeets.1 h1
    obtain ⟨os₃, t', ht', hR'⟩ := ih hR₁ (hmeets.2 o s₁ h1) h2
    exact ⟨os₂ ++ os₃, t', run_append ht₁ ht', hR'⟩

/-- A run stops with an error at its first step or later. -/
theorem run_cons_eq_error {e : ε} {i : ι} {is : List ι} {s : σ} :
    run step (i :: is) s = .error e ↔
      step i s = .error e ∨ ∃ o s', step i s = .ok (o, s') ∧ run step is s' = .error e := by
  simp only [run]
  cases hi : step i s with
  | error e' => simp
  | ok r =>
    obtain ⟨o, s₁⟩ := r
    cases his : run step is s₁ with
    | error e' => simp [his]
    | ok q => simp [his]

/-- A run does not stop with an error exactly when none of its steps does. -/
theorem run_ne_error_iff {e : ε} {bad : ι → σ → Prop} (hbad : ∀ i s, step i s = .error e ↔ bad i s)
    (is : List ι) (s : σ) : run step is s ≠ .error e ↔ Meets step (fun i s => ¬ bad i s) is s := by
  induction is generalizing s with
  | nil => exact iff_of_true (fun h => by cases h) trivial
  | cons i is ih =>
    rw [ne_eq, run_cons_eq_error, not_or, hbad i s]
    refine and_congr_right fun _ => ?_
    constructor
    · intro h o s' hi
      exact (ih s').1 fun hrun => h ⟨o, s', hi, hrun⟩
    · intro h hex
      obtain ⟨o, s', hi, hrun⟩ := hex
      exact (ih s').2 (h o s' hi) hrun

/-- Two machines that do the same where a condition is met do the same on every run that meets
it. -/
theorem run_eq_of_meets {step' : ι → σ → Except ε (ο × σ)} {cond : ι → σ → Prop}
    (hstep : ∀ i s, cond i s → step i s = step' i s) {is : List ι} {s : σ}
    (hmeets : Meets step cond is s) : run step is s = run step' is s := by
  induction is generalizing s with
  | nil => rfl
  | cons i is ih =>
    rw [run, run, ← hstep i s hmeets.1]
    cases hi : step i s with
    | error e => rfl
    | ok r =>
      obtain ⟨o, s'⟩ := r
      simp only [ih (hmeets.2 o s' hi)]

/-- A condition that holds in the states of an invariant is met by every run that keeps it. -/
theorem Meets.of_invariant {Inv : σ → Prop} {valid P : ι → σ → Prop}
    (hP : ∀ i s, Inv s → valid i s → P i s)
    (hstep : ∀ i s o s', Inv s → valid i s → step i s = .ok (o, s') → Inv s')
    {is : List ι} {s : σ} (hs : Inv s) (hvalid : Meets step valid is s) : Meets step P is s := by
  induction is generalizing s with
  | nil => trivial
  | cons i is ih =>
    refine ⟨hP i s hs hvalid.1, fun o s' hi => ?_⟩
    exact ih (hstep i s o s' hs hvalid.1 hi) (hvalid.2 o s' hi)

/-- Two conditions that agree on the states of an invariant, which steps keep under the first one,
are met by the same runs. -/
theorem meets_congr_of_invariant {Inv : σ → Prop} {valid P Q : ι → σ → Prop}
    (hiff : ∀ i s, Inv s → valid i s → (P i s ↔ Q i s))
    (hstep : ∀ i s o s', Inv s → valid i s → P i s → step i s = .ok (o, s') → Inv s')
    {is : List ι} {s : σ} (hs : Inv s) (hvalid : Meets step valid is s) :
    Meets step P is s ↔ Meets step Q is s := by
  induction is generalizing s with
  | nil => exact Iff.rfl
  | cons i is ih =>
    have hPQ := hiff i s hs hvalid.1
    constructor
    · intro h
      refine ⟨hPQ.1 h.1, fun o s' hi => ?_⟩
      exact (ih (hstep i s o s' hs hvalid.1 h.1 hi) (hvalid.2 o s' hi)).1 (h.2 o s' hi)
    · intro h
      have hP := hPQ.2 h.1
      refine ⟨hP, fun o s' hi => ?_⟩
      exact (ih (hstep i s o s' hs hvalid.1 hP hi) (hvalid.2 o s' hi)).2 (h.2 o s' hi)

end

end Machine
