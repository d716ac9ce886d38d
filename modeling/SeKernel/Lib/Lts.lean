import Mathlib.Data.List.Induction
import Mathlib.Tactic.Common

/-!
# Labelled transition systems

Finite runs of a labelled step relation, newest step last, and the rule that carries an invariant
along a run. The invariant may depend on what the labels of the run so far are like: a property of
all labels (`Steps.invariant_of_labels`). A simulation of steps is one of runs
(`Steps.simulates`). Where a label leads to one state only, a run visits states
of a kind and no others exactly when each of its steps is of a kind (`Steps.visits_only_iff`).
-/

namespace Lts

variable {σ ι : Type*}

/-- A finite run and its labels. -/
inductive Steps (step : σ → ι → σ → Prop) (s : σ) : List ι → σ → Prop
  | refl : Steps step s [] s
  | tail {ls : List ι} {t u : σ} {l : ι} : Steps step s ls t → step t l u →
      Steps step s (ls ++ [l]) u

variable {step : σ → ι → σ → Prop} {s t u : σ} {ls : List ι} {l : ι}

/-- What every step whose label is allowed keeps, every run of allowed labels keeps. -/
theorem Steps.invariant_of_labels {I : σ → Prop} {allowed : ι → Prop}
    (hstep : ∀ t l u, I t → allowed l → step t l u → I u) (hs : I s)
    (hls : ∀ l ∈ ls, allowed l) (h : Steps step s ls t) : I t := by
  induction h with
  | refl => exact hs
  | tail _ hlast ih =>
    exact hstep _ _ _ (ih fun l hl => hls l (by simp [hl])) (hls _ (by simp)) hlast

/-- What every step keeps, every run keeps. -/
theorem Steps.invariant {I : σ → Prop} (hstep : ∀ t l u, I t → step t l u → I u) (hs : I s)
    (h : Steps step s ls t) : I t := by
  induction h with
  | refl => exact hs
  | tail _ hlast ih => exact hstep _ _ _ ih hlast

/-- When a partial function gives the steps, folding it over the labels gives a run. -/
theorem Steps.of_foldlM {next : σ → ι → Option σ} (h : ls.foldlM next s = some t) :
    Steps (fun s l t => next s l = some t) s ls t := by
  induction ls using List.reverseRecOn generalizing t with
  | nil =>
    cases h
    exact .refl
  | append_singleton ls l ih =>
    rw [List.foldlM_append, Option.bind_eq_bind, Option.bind_eq_some_iff] at h
    obtain ⟨u, hu, hlast⟩ := h
    exact (ih hu).tail (by simpa using hlast)

/-- A run of no steps stays where it is. -/
theorem Steps.eq_of_nil (h : Steps step s [] t) : t = s := by
  generalize hls : [] = ls at h
  cases h with
  | refl => rfl
  | tail => simp at hls

/-- The last step of a run. -/
theorem Steps.last (h : Steps step s (ls ++ [l]) u) : ∃ t, Steps step s ls t ∧ step t l u := by
  generalize hls : ls ++ [l] = ls' at h
  cases h with
  | refl => simp at hls
  | tail hrun hlast =>
    obtain ⟨rfl, rfl⟩ := List.append_singleton_inj.1 hls
    exact ⟨_, hrun, hlast⟩

/-- A run of the steps of a kind is a run. -/
theorem Steps.mono {step' : σ → ι → σ → Prop} (hstep : ∀ t l u, step t l u → step' t l u)
    (h : Steps step s ls t) : Steps step' s ls t := by
  induction h with
  | refl => exact .refl
  | tail _ hlast ih => exact ih.tail (hstep _ _ _ hlast)

/-- Where a label leads to one state, a run's labels lead to one state. -/
theorem Steps.unique (hdet : ∀ t l u v, step t l u → step t l v → u = v) (h : Steps step s ls t)
    (h' : Steps step s ls u) : t = u := by
  induction h generalizing u with
  | refl => exact h'.eq_of_nil.symm
  | tail _ hlast ih =>
    obtain ⟨v, hv, hlast'⟩ := h'.last
    obtain rfl := ih hv
    exact hdet _ _ _ _ hlast hlast'

/-- Where each step is simulated, each run is. -/
theorem Steps.simulates {τ : Type*} {step' : τ → ι → τ → Prop} {R : σ → τ → Prop}
    (hstep : ∀ s u l t, R s t → step s l u → ∃ t', step' t l t' ∧ R u t') {t : τ} (hR : R s t)
    (h : Steps step s ls u) : ∃ t', Steps step' t ls t' ∧ R u t' := by
  induction h with
  | refl => exact ⟨t, .refl, hR⟩
  | tail _ hlast ih =>
    obtain ⟨t₁, hrun, hR₁⟩ := ih
    obtain ⟨t', hlast', hR'⟩ := hstep _ _ _ _ hR₁ hlast
    exact ⟨t', hrun.tail hlast', hR'⟩

/-- When, among the states with the invariant `J` and the property `P`, exactly the allowed steps
keep `P`, a run visits only states with `P` if and only if all its steps are allowed. -/
theorem Steps.visits_only_iff {J P : σ → Prop} {allowed : σ → ι → Prop}
    (hdet : ∀ t l u v, step t l u → step t l v → u = v)
    (hJ : ∀ t l u, J t → step t l u → J u)
    (hP : ∀ t l u, J t → P t → step t l u → (P u ↔ allowed t l)) (hs : J s ∧ P s)
    (h : Steps step s ls t) :
    Steps (fun t l u => step t l u ∧ allowed t l) s ls t ↔
      ∀ ls' u, ls' <+: ls → Steps step s ls' u → P u := by
  induction h with
  | refl =>
    refine ⟨fun _ ls' u hpre hu => ?_, fun _ => .refl⟩
    obtain rfl := List.prefix_nil.1 hpre
    obtain rfl := hu.eq_of_nil
    exact hs.2
  | @tail ls t u l hrun hlast ih =>
    have hiff : P t → (P u ↔ allowed t l) := fun ht =>
      hP t l u (hrun.invariant hJ hs.1) ht hlast
    constructor
    · intro hall ls' v hpre hv
      obtain ⟨t', hrun', hlast', hallowed⟩ := hall.last
      obtain rfl := hrun.unique hdet (hrun'.mono fun _ _ _ h => h.1)
      have hvisits := ih.1 hrun'
      rcases List.prefix_concat_iff.1 hpre with rfl | hpre
      · obtain rfl := (hrun.tail hlast).unique hdet hv
        exact (hiff (hvisits _ _ List.prefix_rfl hrun)).2 hallowed
      · exact hvisits ls' v hpre hv
    · intro hvisits
      have hls := ih.2 fun ls' v hpre => hvisits ls' v (hpre.trans (List.prefix_append ls [l]))
      have ht := hvisits ls t (List.prefix_append ls [l]) hrun
      have hu := hvisits (ls ++ [l]) u List.prefix_rfl (hrun.tail hlast)
      exact hls.tail ⟨hlast, (hiff ht).1 hu⟩

end Lts
