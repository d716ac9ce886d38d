import Mathlib.Data.List.Nodup
import Mathlib.Logic.Function.Basic

/-!
# Lists that own the objects of a heap

A list of pointers owns a heap when each allocated object stands in it exactly once (`Owns`). Adding
a fresh pointer and removing a listed one keep this, and change what the list holds (`contents`) by
the one object. A piece of code that allocates adds a list of pointers to the heap (`Adds`); two
pieces one after the other add the joined list (`Adds.append`).
-/

namespace Owned

variable {P β : Type*} {heap heap' : P → Option β} {l l₁ l₂ : List P} {p : P} {b : β}

/-- Each allocated object stands in the list exactly once. -/
structure Owns (heap : P → Option β) (l : List P) : Prop where
  nodup : l.Nodup
  live : ∀ p, (heap p).isSome ↔ p ∈ l

/-- The objects of the list, in order. -/
def contents (heap : P → Option β) (l : List P) : List β := l.filterMap heap

theorem mem_contents : b ∈ contents heap l ↔ ∃ p ∈ l, heap p = some b := List.mem_filterMap

theorem contents_append : contents heap (l₁ ++ l₂) = contents heap l₁ ++ contents heap l₂ :=
  List.filterMap_append

/-- Only the listed pointers count. -/
theorem contents_congr (h : ∀ p ∈ l, heap' p = heap p) : contents heap' l = contents heap l :=
  List.filterMap_congr h

/-- No pointer of an owning list leads to an object of a kind when no object of the list is of the
kind. -/
theorem Owns.find?_eq_none (h : Owns heap l) (P : β → Bool) :
    l.find? (fun p => (heap p).any P) = none ↔ (contents heap l).find? P = none := by
  rw [List.find?_eq_none, List.find?_eq_none]
  constructor
  · intro hno b hb hP
    obtain ⟨p, hp, hpb⟩ := mem_contents.1 hb
    exact hno p hp (by simpa [hpb] using hP)
  · intro hno p hp hP
    obtain ⟨b, hb⟩ := Option.isSome_iff_exists.1 ((h.live p).2 hp)
    exact hno b (mem_contents.2 ⟨p, hp, hb⟩) (by simpa [hb] using hP)

theorem Owns.mem (h : Owns heap l) (hp : heap p = some b) : p ∈ l := (h.live p).1 (by simp [hp])

theorem Owns.notMem (h : Owns heap l) (hp : heap p = none) : p ∉ l := by
  rw [← h.live, hp]
  simp

/-! ## Allocating -/

/-- The pointers of `l` were free, differ from each other and lead to objects of a kind, and the
rest of the heap is as it was. -/
structure Adds (kind : β → Prop) (heap : P → Option β) (l : List P) (heap' : P → Option β) :
    Prop where
  nodup : l.Nodup
  fresh : ∀ p ∈ l, heap p = none
  kind : ∀ p ∈ l, ∃ b, heap' p = some b ∧ kind b
  frame : ∀ p ∉ l, heap' p = heap p

variable {kind : β → Prop} {heap'' : P → Option β}

theorem Adds.nil (kind : β → Prop) (heap : P → Option β) : Adds kind heap [] heap :=
  ⟨.nil, fun _ hp => (List.not_mem_nil hp).elim, fun _ hp => (List.not_mem_nil hp).elim,
    fun _ _ => rfl⟩

/-- What the second piece allocates was free after the first one. -/
theorem Adds.append (h : Adds kind heap l₁ heap') (h' : Adds kind heap' l₂ heap'') :
    Adds kind heap (l₁ ++ l₂) heap'' := by
  have hapart : ∀ p ∈ l₁, p ∉ l₂ := by
    intro p hp hp'
    obtain ⟨b, hb, -⟩ := h.kind p hp
    rw [h'.fresh p hp'] at hb
    cases hb
  refine ⟨h.nodup.append h'.nodup hapart, fun p hp => ?_, fun p hp => ?_, fun p hp => ?_⟩
  · rcases List.mem_append.1 hp with hp | hp
    · exact h.fresh p hp
    · have hnot : p ∉ l₁ := fun hp₁ => hapart p hp₁ hp
      exact (h.frame p hnot).symm.trans (h'.fresh p hp)
  · rcases List.mem_append.1 hp with hp | hp
    · rw [h'.frame p (hapart p hp)]
      exact h.kind p hp
    · exact h'.kind p hp
  · rw [List.mem_append, not_or] at hp
    exact (h'.frame p hp.2).trans (h.frame p hp.1)

/-- A loop that collects what its rounds build, each of which adds the pointers of what it builds,
adds all these pointers. A round may stop with the excused error. -/
theorem Adds.foldlM {ε μ γ : Type*} {e : ε} {pointers : γ → List P} {built : γ → Prop}
    {turn : List γ × (P → Option β) → μ → Except ε (List γ × (P → Option β))} {ms : List μ}
    (hturn : ∀ m ∈ ms, ∀ gs heap, turn (gs, heap) m = .error e ∨ ∃ g heap',
      turn (gs, heap) m = .ok (gs ++ [g], heap') ∧ built g ∧ Adds kind heap (pointers g) heap') :
    ∀ gs heap, ms.foldlM turn (gs, heap) = .error e ∨ ∃ gs' heap',
      ms.foldlM turn (gs, heap) = .ok (gs ++ gs', heap') ∧ gs'.length = ms.length ∧
        (∀ g ∈ gs', built g) ∧ Adds kind heap (gs'.flatMap pointers) heap' := by
  induction ms with
  | nil =>
    intro gs heap
    refine .inr ⟨[], heap, ?_, rfl, nofun, .nil kind heap⟩
    rw [List.append_nil]
    rfl
  | cons m ms ih =>
    intro gs heap
    obtain ⟨hm, hms⟩ := List.forall_mem_cons.1 hturn
    rw [List.foldlM_cons]
    rcases hm gs heap with hstop | ⟨g, heap₁, hfirst, hbuilt, hadds⟩
    · rw [hstop]
      exact .inl rfl
    · rw [hfirst]
      rcases ih hms (gs ++ [g]) heap₁ with hstop | ⟨gs', heap', hrest, hlength, hall, hadds'⟩
      · exact .inl hstop
      · refine .inr ⟨g :: gs', heap', ?_, congrArg Nat.succ hlength,
          List.forall_mem_cons.2 ⟨hbuilt, hall⟩, hadds.append hadds'⟩
        rw [List.append_assoc] at hrest
        exact hrest

variable [DecidableEq P]

/-- One object. -/
theorem Adds.update (hp : heap p = none) (hb : kind b) :
    Adds kind heap [p] (Function.update heap p (some b)) := by
  refine ⟨List.nodup_singleton p, fun q hq => ?_, fun q hq => ?_, fun q hq => ?_⟩
  · rw [List.mem_singleton.1 hq]
    exact hp
  · rw [List.mem_singleton.1 hq]
    exact ⟨b, Function.update_self .., hb⟩
  · exact Function.update_of_ne (fun hqp => hq (List.mem_singleton.2 hqp)) _ _

/-! ## Adding and removing -/

theorem contents_update (hp : p ∉ l) (o : Option β) :
    contents (Function.update heap p o) l = contents heap l :=
  contents_congr fun _ hq => Function.update_of_ne (ne_of_mem_of_not_mem hq hp) _ _

/-- A fresh pointer may be added. -/
theorem Owns.add (h : Owns heap l) (hp : heap p = none) (b : β) :
    Owns (Function.update heap p (some b)) (l ++ [p]) := by
  constructor
  · exact List.concat_eq_append ▸ h.nodup.concat (h.notMem hp)
  · intro q
    rw [List.mem_append, List.mem_singleton, ← h.live]
    rcases eq_or_ne q p with rfl | hq
    · simp
    · simp [hq]

theorem Owns.contents_add (h : Owns heap l) (hp : heap p = none) (b : β) :
    contents (Function.update heap p (some b)) (l ++ [p]) = contents heap l ++ [b] := by
  rw [contents_append, contents_update (h.notMem hp)]
  simp [contents]

/-- A listed pointer may be removed and its object freed. -/
theorem Owns.remove (h : Owns heap (l₁ ++ p :: l₂)) :
    Owns (Function.update heap p none) (l₁ ++ l₂) := by
  obtain ⟨hp, hnodup⟩ := List.nodup_cons.1 (List.nodup_middle.1 h.nodup)
  constructor
  · exact hnodup
  · intro q
    rcases eq_or_ne q p with rfl | hq
    · simpa using hp
    · rw [Function.update_of_ne hq, h.live]
      simp [hq]

/-- What is left of the contents. -/
theorem Owns.contents_remove (h : Owns heap (l₁ ++ p :: l₂)) (hp : heap p = some b) :
    (contents heap (l₁ ++ p :: l₂)).Perm
      (b :: contents (Function.update heap p none) (l₁ ++ l₂)) := by
  have hnotMem : p ∉ l₁ ++ l₂ := (List.nodup_cons.1 (List.nodup_middle.1 h.nodup)).1
  rw [contents_update hnotMem, contents_append, contents_append]
  simp only [contents, List.filterMap_cons, hp]
  exact List.perm_middle

end Owned
