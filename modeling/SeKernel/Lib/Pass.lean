import Mathlib.Data.List.Nodup

/-!
# Passes over components

A system of components takes a turn with each of them, one after the other, over a state they share.
`Ok s c` says that the turn of `c` keeps the invariant; a turn that does not leaves `c` in a state
that later turns of other components do not mend (`Broken`). Then a pass keeps the invariant exactly
when `Ok` holds of every component as its turn comes (`foldlM_keeps_iff`), which is to say at the
start of the pass where the turns do not change it for each other (`meets_iff`); what is stronger
and stays is enough at the start (`Meets.of_start`). A pass stops with an error exactly when a turn
does that it reaches (`foldlM_eq_error_iff`).
-/

namespace Pass

variable {σ ι ε : Type*} {turn : σ → ι → Except ε σ} {I : σ → Prop} {Ok Broken : σ → ι → Prop}

/-- What every turn of a pass keeps, the pass keeps. -/
theorem foldlM_keeps {l : List ι} (hturn : ∀ s, ∀ c ∈ l, ∀ s', I s → turn s c = .ok s' → I s') :
    ∀ {s s' : σ}, I s → l.foldlM turn s = .ok s' → I s' := by
  induction l with
  | nil =>
    intro s s' hs h
    cases h
    exact hs
  | cons c l ih =>
    intro s s' hs h
    rw [List.foldlM_cons] at h
    cases hstep : turn s c with
    | error e =>
      rw [hstep] at h
      cases h
    | ok t =>
      rw [hstep] at h
      exact ih (fun s d hd => hturn s d (List.mem_cons_of_mem c hd))
        (hturn s c List.mem_cons_self t hs hstep) h

/-- When every turn returns and keeps the invariant, the pass does. -/
theorem foldlM_total {l : List ι} (hturn : ∀ s, ∀ c ∈ l, I s → ∃ s', turn s c = .ok s' ∧ I s') :
    ∀ {s : σ}, I s → ∃ s', l.foldlM turn s = .ok s' ∧ I s' := by
  induction l with
  | nil => exact fun {s} hs => ⟨s, rfl, hs⟩
  | cons c l ih =>
    intro s hs
    obtain ⟨t, hstep, ht⟩ := hturn s c List.mem_cons_self hs
    rw [List.foldlM_cons, hstep]
    exact ih (fun s d hd => hturn s d (List.mem_cons_of_mem c hd)) ht

/-- What every turn keeps of the components that are still to come, a part of a pass keeps. -/
theorem foldlM_keeps_rest {J : List ι → σ → Prop}
    (hturn : ∀ c l s s', J (c :: l) s → turn s c = .ok s' → J l s') {l l' : List ι} :
    ∀ {s s' : σ}, J (l ++ l') s → l.foldlM turn s = .ok s' → J l' s' := by
  induction l with
  | nil =>
    intro s s' hs h
    cases h
    exact hs
  | cons c l ih =>
    intro s s' hs h
    rw [List.foldlM_cons] at h
    cases hstep : turn s c with
    | error e =>
      rw [hstep] at h
      cases h
    | ok t =>
      rw [hstep] at h
      exact ih (hturn c (l ++ l') s t hs hstep) h

/-- A pass stops with an error if and only if a turn does that it reaches. -/
theorem foldlM_eq_error_iff {l : List ι} {s : σ} {e : ε} :
    l.foldlM turn s = .error e ↔
      ∃ l₁ c l₂ t, l = l₁ ++ c :: l₂ ∧ l₁.foldlM turn s = .ok t ∧ turn t c = .error e := by
  induction l generalizing s with
  | nil =>
    refine ⟨nofun, ?_⟩
    rintro ⟨l₁, c, l₂, t, hl, -⟩
    simp at hl
  | cons c l ih =>
    rw [List.foldlM_cons]
    cases hstep : turn s c with
    | error e' =>
      constructor
      · intro h
        cases h
        exact ⟨[], c, l, s, rfl, rfl, hstep⟩
      · rintro ⟨l₁, d, l₂, t, hl, hfold, hturn⟩
        cases l₁ with
        | nil =>
          obtain ⟨rfl, rfl⟩ := List.cons_eq_cons.1 hl
          cases hfold
          rw [hstep] at hturn
          cases hturn
          rfl
        | cons d' l₁ =>
          obtain ⟨rfl, rfl⟩ := List.cons_eq_cons.1 hl
          rw [List.foldlM_cons, hstep] at hfold
          cases hfold
    | ok u =>
      refine Iff.trans ih ?_
      constructor
      · rintro ⟨l₁, d, l₂, t, rfl, hfold, hturn⟩
        refine ⟨c :: l₁, d, l₂, t, rfl, ?_, hturn⟩
        rw [List.foldlM_cons, hstep]
        exact hfold
      · rintro ⟨l₁, d, l₂, t, hl, hfold, hturn⟩
        cases l₁ with
        | nil =>
          obtain ⟨rfl, rfl⟩ := List.cons_eq_cons.1 hl
          cases hfold
          rw [hstep] at hturn
          cases hturn
        | cons d' l₁ =>
          obtain ⟨rfl, rfl⟩ := List.cons_eq_cons.1 hl
          rw [List.foldlM_cons, hstep] at hfold
          exact ⟨l₁, d, l₂, t, rfl, hfold, hturn⟩

/-- When the first bad component that a pass comes to stops it, and it passes the others, a pass
stops if a component is bad and returns if none is. -/
theorem foldlM_of_bad {J : List ι → σ → Prop} {Bad : ι → Prop} {e : ε}
    (hbad : ∀ c l s, J (c :: l) s → Bad c → turn s c = .error e)
    (hok : ∀ c l s, J (c :: l) s → ¬ Bad c → ∃ s', turn s c = .ok s' ∧ J l s') {l : List ι} :
    ∀ {s : σ}, J l s →
      ((∃ c ∈ l, Bad c) ∧ l.foldlM turn s = .error e ∨
        (∀ c ∈ l, ¬ Bad c) ∧ ∃ s', l.foldlM turn s = .ok s') := by
  induction l with
  | nil => exact fun {s} _ => .inr ⟨by simp, s, rfl⟩
  | cons c l ih =>
    intro s hs
    rw [List.foldlM_cons]
    by_cases hc : Bad c
    · rw [hbad c l s hs hc]
      exact .inl ⟨⟨c, List.mem_cons_self, hc⟩, rfl⟩
    · obtain ⟨t, hturn, ht⟩ := hok c l s hs hc
      rw [hturn]
      rcases ih ht with ⟨⟨d, hd, hdbad⟩, hstop⟩ | ⟨hgood, hreturn⟩
      · exact .inl ⟨⟨d, List.mem_cons_of_mem c hd, hdbad⟩, hstop⟩
      · refine .inr ⟨?_, hreturn⟩
        rw [List.forall_mem_cons]
        exact ⟨hc, hgood⟩

/-- `Ok` holds of every component when its turn comes. -/
def Meets (turn : σ → ι → Except ε σ) (Ok : σ → ι → Prop) : List ι → σ → Prop
  | [], _ => True
  | c :: l, s => Ok s c ∧ ∀ s', turn s c = .ok s' → Meets turn Ok l s'

/-- A pass returns and keeps the invariant if and only if `Ok` holds of every component when its
turn comes. -/
theorem foldlM_keeps_iff (hok : ∀ s c, I s → Ok s c → ∃ s', turn s c = .ok s' ∧ I s')
    (hbad : ∀ s c s', I s → ¬ Ok s c → turn s c = .ok s' → Broken s' c)
    (hkeep : ∀ s c d s', Broken s c → d ≠ c → turn s d = .ok s' → Broken s' c)
    (hbroken : ∀ s c, Broken s c → ¬ I s) {l : List ι} {s : σ} (hl : l.Nodup) (hs : I s) :
    (∃ s', l.foldlM turn s = .ok s' ∧ I s') ↔ Meets turn Ok l s := by
  induction l generalizing s with
  | nil => exact ⟨fun _ => trivial, fun _ => ⟨s, rfl, hs⟩⟩
  | cons c l ih =>
    obtain ⟨hc, hl⟩ := List.nodup_cons.1 hl
    simp only [List.foldlM_cons]
    by_cases hokc : Ok s c
    · obtain ⟨t, hturn, ht⟩ := hok s c hs hokc
      have hrest : Meets turn Ok (c :: l) s ↔ Meets turn Ok l t := by
        refine ⟨fun h => h.2 t hturn, fun h => ⟨hokc, fun s' hs' => ?_⟩⟩
        cases hturn.symm.trans hs'
        exact h
      rw [hturn, hrest]
      exact ih hl ht
    · refine ⟨?_, fun h => absurd h.1 hokc⟩
      rintro ⟨s', hfold, hs'⟩
      cases hturn : turn s c with
      | error e =>
        rw [hturn] at hfold
        cases hfold
      | ok t =>
        rw [hturn] at hfold
        have hleft : Broken s' c :=
          foldlM_keeps (I := fun u => Broken u c)
            (fun u d hd u' hu => hkeep u c d u' hu fun hdc => hc (hdc ▸ hd))
            (hbad s c t hs hokc hturn) hfold
        exact absurd hs' (hbroken s' c hleft)

/-- Where turns do not change `Ok` for other components, it holds of every component when its turn
comes if and only if it holds of all of them at the start. -/
theorem meets_iff
    (hok : ∀ s c, I s → Ok s c →
      ∃ s', turn s c = .ok s' ∧ I s' ∧ ∀ d, d ≠ c → (Ok s' d ↔ Ok s d))
    {l : List ι} {s : σ} (hl : l.Nodup) (hs : I s) : Meets turn Ok l s ↔ ∀ c ∈ l, Ok s c := by
  induction l generalizing s with
  | nil => exact ⟨fun _ c hc => (List.not_mem_nil hc).elim, fun _ => trivial⟩
  | cons c l ih =>
    obtain ⟨hc, hl⟩ := List.nodup_cons.1 hl
    rw [List.forall_mem_cons]
    refine and_congr_right fun hokc => ?_
    obtain ⟨t, hturn, ht, hothers⟩ := hok s c hs hokc
    have hrest : (∀ d ∈ l, Ok t d) ↔ ∀ d ∈ l, Ok s d :=
      forall₂_congr fun d hd => hothers d fun hdc => hc (hdc ▸ hd)
    rw [← hrest, ← ih hl ht]
    refine ⟨fun h => h t hturn, fun h s' hs' => ?_⟩
    cases hturn.symm.trans hs'
    exact h

/-- `Ok` holds of every component when its turn comes if something stronger holds of all of them at
the start that turns keep for other components. -/
theorem Meets.of_start {Start : σ → ι → Prop} (hok : ∀ s c, Start s c → Ok s c)
    (hturn : ∀ s c s', I s → Ok s c → turn s c = .ok s' →
      I s' ∧ ∀ d, d ≠ c → Start s d → Start s' d)
    {l : List ι} {s : σ} (hl : l.Nodup) (hs : I s) (hstart : ∀ c ∈ l, Start s c) :
    Meets turn Ok l s := by
  induction l generalizing s with
  | nil => trivial
  | cons c l ih =>
    obtain ⟨hc, hl⟩ := List.nodup_cons.1 hl
    obtain ⟨hfirst, hrest⟩ := List.forall_mem_cons.1 hstart
    refine ⟨hok s c hfirst, fun s' hs' => ?_⟩
    obtain ⟨hinv, hothers⟩ := hturn s c s' hs (hok s c hfirst) hs'
    exact ih hl hinv fun d hd => hothers d (fun hdc => hc (hdc ▸ hd)) (hrest d hd)

end Pass
