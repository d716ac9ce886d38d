import SeKernel.LinkedList.Spec

/-!
# Lists that share a heap

A family of lists in one heap, one at each index of a set: their nodes are apart, and the rest of
the heap is `base`. A push adds the node that `malloc` returns to one of the lists and a pop frees a
node of one of them; the other lists and the rest of the heap stay (`Family.push`, `Family.pop`).
-/

namespace SeKernel.LinkedList

open Doubly

/-- The lists `ls i`, for the indices in `I`, hold the nodes `xs i`; no node is in two lists, and no
other node has been allocated or freed since `base`. -/
structure Family {ι : Type} (I : Set ι) (base h : Heap) (ls : ι → LinkedlistStructure)
    (xs : ι → List (Addr × VoidPtr)) : Prop where
  list : ∀ i ∈ I, Represents h (ls i) (xs i)
  apart : ∀ i ∈ I, ∀ j ∈ I, i ≠ j → ∀ a ∈ addrs (xs i), a ∉ addrs (xs j)
  allocated : ∀ i ∈ I, ∀ a ∈ addrs (xs i), base a = none
  rest : ∀ a, (∀ i ∈ I, a ∉ addrs (xs i)) → h a = base a

section
variable {h h' : Heap} {l : LinkedlistStructure} {xs ys : List (Addr × VoidPtr)} {a : Addr}
  {d : VoidPtr}

/-- A list is a fact about its own nodes. -/
theorem Represents.congr (hr : Represents h l xs) (heq : ∀ b ∈ addrs xs, h' b = h b) :
    Represents h' l xs :=
  ⟨hr.seg.congr heq, hr.nodup, hr.first, hr.last, hr.length⟩

/-- The node that a pop takes out is freed. Reference: `linkedlist_pop` (`src/linkedlist.c:72`). -/
theorem linkedlistPop_frees {l' : LinkedlistStructure} (hr : Represents h l (ys ++ [(a, d)]))
    (hpop : linkedlistPop l h = .ok (d, l', h')) : h' a = none := by
  have hl : l.length ≠ 0 := fun h0 => by simp [hr.length_eq_zero] at h0
  have hlast : l.last = some a := by
    rw [hr.last, back_append]
    rfl
  rw [linkedlistPop, if_neg hl, hlast, readNode_eq hr.seg.at, Outcome.ok_bind] at hpop
  have hfree : ∀ {h₁ h₂ : Heap}, freeNode h₁ (some a) = .ok h₂ → h₂ a = none := by
    intro h₁ h₂ hf
    unfold freeNode at hf
    dsimp only at hf
    split at hf
    · cases hf
      exact Function.update_self _ _ _
    · cases hf
  split at hpop
  · obtain ⟨h₁, hf, hret⟩ := Outcome.bind_eq_ok.1 hpop
    cases hret
    exact hfree hf
  · obtain ⟨h₁, -, hpop⟩ := Outcome.bind_eq_ok.1 hpop
    obtain ⟨h₂, hf, hret⟩ := Outcome.bind_eq_ok.1 hpop
    cases hret
    exact hfree hf

end

/-- A family of one list. -/
theorem update_unit {α : Type} (x y : α) :
    Function.update (fun _ : Unit => x) () y = fun _ => y := by
  funext u
  cases u
  exact Function.update_self _ _ _

namespace Family

variable {ι : Type} {I : Set ι} {base h : Heap} {ls : ι → LinkedlistStructure}
  {xs : ι → List (Addr × VoidPtr)} {i : ι} {a : Addr} {d : VoidPtr}

/-- Lists that were just initialised have no nodes. -/
theorem init (hls : ∀ i ∈ I, ls i = linkedlistInit) (base : Heap) :
    Family I base base ls fun _ => [] where
  list i hi := by
    rw [hls i hi]
    exact represents_init base
  apart _ _ _ _ _ _ ha := nomatch ha
  allocated _ _ _ ha := nomatch ha
  rest _ _ := rfl

variable [DecidableEq ι]

/-- What an operation on one list does to the family, when it only changes that list's nodes and
`as` are the addresses that it allocates. -/
theorem step (hF : Family I base h ls xs) (hi : i ∈ I) (as : List Addr) {h' : Heap}
    {l' : LinkedlistStructure} {ys : List (Addr × VoidPtr)} (hr : Represents h' l' ys)
    (hframe : FrameOf (as ++ addrs (xs i)) h h') (hfresh : ∀ b ∈ as, h b = none)
    (hsub : ∀ b ∈ addrs ys, b ∈ as ++ addrs (xs i))
    (hfree : ∀ b ∈ as ++ addrs (xs i), b ∉ addrs ys → h' b = none) :
    Family I base h' (Function.update ls i l') (Function.update xs i ys) := by
  have hbase : ∀ b ∈ as, base b = none := by
    intro b hb
    rw [← hF.rest b fun j hj => (hF.list j hj).seg.notMem (hfresh b hb)]
    exact hfresh b hb
  have hown : ∀ b ∈ as ++ addrs (xs i), ∀ j ∈ I, j ≠ i → b ∉ addrs (xs j) := by
    intro b hb j hj hji
    rcases List.mem_append.1 hb with hb | hb
    · exact (hF.list j hj).seg.notMem (hfresh b hb)
    · exact hF.apart i hi j hj hji.symm b hb
  refine ⟨fun j hj => ?_, fun j hj k hk hjk b hb => ?_, fun j hj b hb => ?_, fun b hb => ?_⟩
  · by_cases hji : j = i
    · subst hji
      rw [Function.update_self, Function.update_self]
      exact hr
    · rw [Function.update_of_ne hji, Function.update_of_ne hji]
      exact (hF.list j hj).congr fun b hb => hframe b fun hmem => hown b hmem j hj hji hb
  · by_cases hji : j = i
    · subst hji
      rw [Function.update_self] at hb
      rw [Function.update_of_ne hjk.symm]
      exact hown b (hsub b hb) k hk hjk.symm
    · rw [Function.update_of_ne hji] at hb
      by_cases hki : k = i
      · subst hki
        rw [Function.update_self]
        exact fun hmem => hown b (hsub b hmem) j hj hji hb
      · rw [Function.update_of_ne hki]
        exact hF.apart j hj k hk hjk b hb
  · by_cases hji : j = i
    · subst hji
      rw [Function.update_self] at hb
      rcases List.mem_append.1 (hsub b hb) with hb | hb
      · exact hbase b hb
      · exact hF.allocated j hj b hb
    · rw [Function.update_of_ne hji] at hb
      exact hF.allocated j hj b hb
  · have hys := hb i hi
    rw [Function.update_self] at hys
    by_cases hmem : b ∈ as ++ addrs (xs i)
    · rw [hfree b hmem hys]
      rcases List.mem_append.1 hmem with hmem | hmem
      · exact (hbase b hmem).symm
      · exact (hF.allocated i hi b hmem).symm
    · rw [hframe b hmem]
      refine hF.rest b fun j hj => ?_
      by_cases hji : j = i
      · subst hji
        exact fun hb => hmem (List.mem_append_right _ hb)
      · have hother := hb j hj
        rwa [Function.update_of_ne hji] at hother

/-- A push appends a node to one of the lists. Reference: `linkedlist_push`
(`src/linkedlist.c:106`). -/
theorem push (hF : Family I base h ls xs) (hi : i ∈ I) (ha : h a = none) (d : VoidPtr) :
    ∃ l' h', linkedlistPush a (ls i) d h = .ok (l', h') ∧
      Family I base h' (Function.update ls i l') (Function.update xs i (xs i ++ [(a, d)])) := by
  obtain ⟨l', h', hpush, hr, hframe⟩ := linkedlistPush_spec (hF.list i hi) ha d
  refine ⟨l', h', hpush, hF.step hi [a] hr hframe ?_ ?_ ?_⟩
  · simpa using ha
  · intro b hb
    rw [addrs_append] at hb
    exact List.mem_append.2 (List.mem_append.1 hb).symm
  · intro b hb hout
    rw [addrs_append] at hout
    exact absurd (List.mem_append.2 (List.mem_append.1 hb).symm) hout

/-- A pop takes the last node out of one of the lists and frees it. Reference: `linkedlist_pop`
(`src/linkedlist.c:72`). -/
theorem pop (hF : Family I base h ls xs) (hi : i ∈ I) {ys : List (Addr × VoidPtr)}
    (hxs : xs i = ys ++ [(a, d)]) :
    ∃ l' h', linkedlistPop (ls i) h = .ok (d, l', h') ∧
      Family I base h' (Function.update ls i l') (Function.update xs i ys) := by
  have hr := hF.list i hi
  rw [hxs] at hr
  obtain ⟨l', h', hpop, hr', hframe⟩ := linkedlistPop_concat hr
  refine ⟨l', h', hpop, hF.step hi [] hr' ?_ nofun ?_ ?_⟩
  · rw [hxs]
    exact hframe
  · intro b hb
    rw [List.nil_append, hxs, addrs_append]
    exact List.mem_append_left _ hb
  · intro b hb hout
    rw [List.nil_append, hxs, addrs_append] at hb
    have hba : b = a := by simpa using (List.mem_append.1 hb).resolve_left hout
    rw [hba]
    exact linkedlistPop_frees hr hpop

end Family

end SeKernel.LinkedList
