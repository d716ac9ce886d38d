import SeKernel.LinkedList.Basic

/-!
# What the list operations do to the nodes

`Represents h l xs` ties a `linkedlist_structure` and its heap to the list `xs` of its nodes, and
each operation gets one lemma: it returns, its result is read off `xs`, and the nodes it leaves are
again a well-formed list. Nothing outside the list's own nodes changes (`FrameOf`).
-/

namespace SeKernel.LinkedList

open Doubly

/-- The structure `l` and the heap `h` hold the nodes `xs`, from `first` to `last`. -/
structure Represents (h : Heap) (l : LinkedlistStructure) (xs : List (Addr × VoidPtr)) : Prop where
  seg : Seg h none xs none
  nodup : (addrs xs).Nodup
  first : l.first = front xs none
  last : l.last = back xs none
  length : l.length = xs.length

/-- The heaps agree outside the listed addresses. -/
def FrameOf (as : List Addr) (h h' : Heap) : Prop := ∀ a, a ∉ as → h' a = h a

section
variable {h h' : Heap} {l : LinkedlistStructure} {xs ys zs : List (Addr × VoidPtr)} {a : Addr}
  {d : VoidPtr} {matchFn : VoidPtr → VoidPtr → Int} {args : VoidPtr} {fuel : Nat}

/-! ## Access to the nodes of a list -/

theorem readNode_eq {c : LinkedlistNode} (hc : h a = some c) : readNode h (some a) = .ok c := by
  simp [readNode, hc]

theorem writeNext_eq {c : LinkedlistNode} (hc : h a = some c) (n : Option Addr) :
    writeNext h (some a) n = .ok (setNext h a n) := by
  simp [writeNext, hc]

theorem writePrev_eq {c : LinkedlistNode} (hc : h a = some c) (p : Option Addr) :
    writePrev h (some a) p = .ok (setPrev h a p) := by
  simp [writePrev, hc]

theorem freeNode_eq {c : LinkedlistNode} (hc : h a = some c) :
    freeNode h (some a) = .ok (Function.update h a none) := by
  simp [freeNode, hc]

/-- Freeing a node that is on no segment keeps the segment. -/
theorem seg_free {p n : Option Addr} (hs : Seg h p xs n) (ha : a ∉ addrs xs) :
    Seg (Function.update h a none) p xs n := hs.update ha none

theorem Represents.length_eq_zero (hr : Represents h l xs) : l.length = 0 ↔ xs = [] := by
  simp [hr.length]

/-- The fresh structure has no nodes. Reference: `linkedlist_init` (`src/linkedlist.c:123`). -/
theorem represents_init (h : Heap) : Represents h linkedlistInit [] :=
  ⟨trivial, List.nodup_nil, rfl, rfl, rfl⟩

/-! ## Push, pop and peek -/

/-- Pushing appends a node. Reference: `linkedlist_push` (`src/linkedlist.c:106`). -/
theorem linkedlistPush_spec (hr : Represents h l xs) (ha : h a = none) (d : VoidPtr) :
    ∃ l' h', linkedlistPush a l d h = .ok (l', h') ∧ Represents h' l' (xs ++ [(a, d)]) ∧
      FrameOf (a :: addrs xs) h h' := by
  have hna : a ∉ addrs xs := hr.seg.notMem ha
  cases xs using List.reverseRecOn with
  | nil =>
    have hl : l.length = 0 := hr.length
    refine ⟨⟨some a, some a, 1⟩, Function.update h a (some ⟨none, none, d⟩), ?_, ?_, ?_⟩
    · simp [linkedlistPush, mallocNode, ha, hl]
    · exact ⟨⟨by simp [front], trivial⟩, by simp, rfl, rfl, rfl⟩
    · exact fun b hb => Function.update_of_ne (by rintro rfl; exact hb (by simp)) _ _
  | append_singleton ys x =>
    obtain ⟨b, e⟩ := x
    have hl : l.length ≠ 0 := fun h0 => by simp [hr.length_eq_zero] at h0
    have hlast : l.last = some b := by rw [hr.last, back_append]; rfl
    have hab : b ≠ a := by rintro rfl; exact hna (by simp)
    have hby : b ∉ addrs ys := notMem_addrs_left hr.nodup
    -- the heap after `malloc`, after `last->next = new` and after `new->prev = last`
    let h₁ : Heap := Function.update h a (some ⟨none, none, d⟩)
    let h₂ : Heap := setNext h₁ b (some a)
    let h₃ : Heap := setPrev h₂ a (some b)
    have hb₁ : h₁ b = some ⟨none, back ys none, e⟩ := by
      rw [show h₁ b = h b from Function.update_of_ne hab _ _, hr.seg.at]; rfl
    have ha₂ : h₂ a = some ⟨none, none, d⟩ := by
      rw [show h₂ a = h₁ a from setNext_of_ne _ hab.symm]; exact Function.update_self a _ h
    refine ⟨{ l with last := some a, length := l.length + 1 }, h₃, ?_, ?_, ?_⟩
    · simp only [linkedlistPush, mallocNode, ha, Option.isNone_none, if_true, Outcome.pure_eq,
        Outcome.ok_bind, hl, if_false, hlast]
      rw [show writeNext _ (some b) (some a) = .ok h₂ from writeNext_eq hb₁ _, Outcome.ok_bind,
        show writePrev h₂ (some a) (some b) = .ok h₃ from writePrev_eq ha₂ _, Outcome.ok_bind]
    · have hs₁ : Seg h₁ none (ys ++ [(b, e)]) none := hr.seg.update hna _
      have hs₂ : Seg h₂ none (ys ++ [(b, e)]) (some a) := hs₁.setNext_last hby _
      have hs₃ : Seg h₃ none (ys ++ [(b, e)]) (some a) := hs₂.update hna _
      refine ⟨seg_append.2 ⟨hs₃, ?_, trivial⟩, ?_, ?_, ?_, ?_⟩
      · rw [show h₃ a = _ from Function.update_self a _ h₂, ha₂]
        simp [front, back]
      · rw [addrs_append, List.nodup_append]
        exact ⟨hr.nodup, by simp, by rintro x hx y hy rfl; simp at hy; exact hna (hy ▸ hx)⟩
      · rw [show l.first = _ from hr.first]; simp [front]; cases ys <;> rfl
      · simp [back]
      · have := hr.length; simp at this ⊢; omega
    · intro c hc
      simp only [addrs_append, List.mem_cons, List.mem_append, not_or] at hc
      have hcb : c ≠ b := by rintro rfl; exact hc.2.2 (by simp)
      rw [show h₃ c = h₂ c from setPrev_of_ne _ hc.1, show h₂ c = h₁ c from setNext_of_ne _ hcb]
      exact Function.update_of_ne hc.1 _ _

/-- Popping the empty list returns `NULL`. Reference: `linkedlist_pop` (`src/linkedlist.c:73`). -/
theorem linkedlistPop_nil (hr : Represents h l []) : linkedlistPop l h = .ok (NULL, l, h) := by
  have hl : l.length = 0 := hr.length
  simp [linkedlistPop, hl]

/-- Popping removes the last node, frees it and returns its datum. Reference: `linkedlist_pop`
(`src/linkedlist.c:72`). -/
theorem linkedlistPop_concat (hr : Represents h l (ys ++ [(a, d)])) :
    ∃ l' h', linkedlistPop l h = .ok (d, l', h') ∧ Represents h' l' ys ∧
      FrameOf (addrs (ys ++ [(a, d)])) h h' := by
  have hl : l.length ≠ 0 := fun h0 => by simp [hr.length_eq_zero] at h0
  have hlast : l.last = some a := by rw [hr.last, back_append]; rfl
  have hca : h a = some ⟨none, back ys none, d⟩ := by rw [hr.seg.at]; rfl
  have hnd : (addrs ys).Nodup := nodup_addrs_left hr.nodup
  have hay : a ∉ addrs ys := notMem_addrs_left hr.nodup
  cases ys using List.reverseRecOn with
  | nil =>
    have hl1 : l.length = 1 := hr.length
    refine ⟨⟨none, none, 0⟩, Function.update h a none, ?_, represents_init _, ?_⟩
    · simp [linkedlistPop, hl1, hlast, readNode_eq hca, freeNode_eq hca]
    · exact fun b hb => Function.update_of_ne (by rintro rfl; exact hb (by simp)) _ _
  | append_singleton zs x =>
    obtain ⟨b, e⟩ := x
    have hl1 : l.length ≠ 1 := by have := hr.length; simp at this; omega
    have hab : a ≠ b := by rintro rfl; exact hay (by simp)
    have hbz : b ∉ addrs zs := notMem_addrs_left hnd
    have hs : Seg h none (zs ++ [(b, e)]) (some a) := (seg_append.1 hr.seg).1
    have hcb : h b = some ⟨some a, back zs none, e⟩ := by rw [hs.at]; rfl
    have hprev : back (zs ++ [(b, e)]) none = some b := by simp [back]
    let h₁ : Heap := setNext h b none
    let h₂ : Heap := Function.update h₁ a none
    have ha₁ : h₁ a = some ⟨none, some b, d⟩ := by
      rw [show h₁ a = h a from setNext_of_ne _ hab, hca, hprev]
    refine ⟨{ l with last := some b, length := l.length - 1 }, h₂, ?_, ?_, ?_⟩
    · simp only [linkedlistPop, hl, if_false, hlast, readNode_eq hca, Outcome.ok_bind, hl1, hprev]
      rw [show writeNext h (some b) none = .ok h₁ from writeNext_eq hcb _, Outcome.ok_bind,
        show freeNode h₁ (some a) = .ok h₂ from freeNode_eq ha₁, Outcome.ok_bind]
      rfl
    · refine ⟨(hs.setNext_last hbz none).update hay none, hnd, ?_, hprev.symm, ?_⟩
      · rw [show l.first = _ from hr.first]; cases zs <;> rfl
      · have := hr.length; simp at this ⊢; omega
    · intro c hc
      simp only [addrs_append, List.mem_append, not_or] at hc
      have hcb : c ≠ b := by rintro rfl; exact hc.1.2 (by simp)
      have hca : c ≠ a := by rintro rfl; exact hc.2 (by simp)
      rw [show h₂ c = h₁ c from Function.update_of_ne hca _ _]
      exact setNext_of_ne _ hcb

/-- Peeking reads the last datum, `NULL` on the empty list. Reference: `linkedlist_peek`
(`src/linkedlist.c:91`). -/
theorem linkedlistPeek_spec (hr : Represents h l xs) :
    linkedlistPeek l h = .ok ((datas xs).getLast?.getD NULL) := by
  cases xs using List.reverseRecOn with
  | nil => have hl : l.length = 0 := hr.length; simp [linkedlistPeek, hl]
  | append_singleton ys x =>
    obtain ⟨b, e⟩ := x
    have hl : l.length ≠ 0 := fun h0 => by simp [hr.length_eq_zero] at h0
    have hlast : l.last = some b := by rw [hr.last, back_append]; rfl
    simp [linkedlistPeek, hl, hlast, readNode_eq hr.seg.at]

/-! ## The search loop -/

/-- The search walks over nodes that do not match. The induction is on the walked part; the loop's
invariant is that `prev` is the last node walked over. -/
theorem searchLoop_skip {p n : Option Addr} (hs : Seg h p xs n)
    (hno : ∀ d ∈ datas xs, matchFn d args = 0) :
    searchLoop h matchFn args (xs.length + fuel) p (front xs n) =
      searchLoop h matchFn args fuel (back xs p) n := by
  induction xs generalizing p with
  | nil => simp [front, back]
  | cons x xs ih =>
    obtain ⟨a, d⟩ := x
    obtain ⟨h1, h2⟩ := hs
    have hd : matchFn d args = 0 := hno d (by simp)
    rw [List.length_cons, show xs.length + 1 + fuel = (xs.length + fuel) + 1 by omega]
    simp only [front, searchLoop, readNode_eq h1, Outcome.ok_bind, hd, ne_eq, not_true_eq_false,
      if_false]
    exact ih h2 fun e he => hno e (by simp [he])

/-- A walk over the list is long enough to come to a node of it. -/
theorem walk_lt {x : Addr × VoidPtr} (hfuel : (ys ++ x :: zs).length < fuel) :
    ys.length < fuel := by
  rw [List.length_append] at hfuel
  omega

/-- The search reports a list without a match. Reference: `__search_procedure`
(`src/linkedlist.c:176`). -/
theorem searchProcedure_none (hr : Represents h l xs) (hfuel : xs.length < fuel)
    (hno : ∀ d ∈ datas xs, matchFn d args = 0) :
    searchProcedure fuel l h matchFn args = .ok (0, back xs none, none) := by
  obtain ⟨k, rfl⟩ : ∃ k, fuel = xs.length + (k + 1) := ⟨fuel - xs.length - 1, by omega⟩
  rw [searchProcedure, hr.first, searchLoop_skip hr.seg hno]
  rfl

/-- The search stops at the first match, with its predecessor. Reference: `__search_procedure`
(`src/linkedlist.c:176`). -/
theorem searchProcedure_some (hr : Represents h l (ys ++ (a, d) :: zs)) (hfuel : ys.length < fuel)
    (hno : ∀ e ∈ datas ys, matchFn e args = 0) (hd : matchFn d args ≠ 0) :
    searchProcedure fuel l h matchFn args = .ok (1, back ys none, some a) := by
  obtain ⟨k, rfl⟩ : ∃ k, fuel = ys.length + (k + 1) := ⟨fuel - ys.length - 1, by omega⟩
  rw [searchProcedure, hr.first, front_append, searchLoop_skip (seg_append.1 hr.seg).1 hno]
  simp [searchLoop, front, readNode_eq hr.seg.at, hd]

/-! ## Unlinking -/

/-- The predecessor's side of unlinking `(a, d)`: what stands before it now leads to `zs`. -/
theorem unlinkPrev_spec (hr : Represents h l (ys ++ (a, d) :: zs)) :
    ∃ h₁, unlinkPrev l (back ys none) (front zs none) h =
        .ok ({ l with first := front (ys ++ zs) none }, h₁) ∧
      Seg h₁ none ys (front zs none) ∧ h₁ a = h a ∧ (∀ b ∈ addrs zs, h₁ b = h b) ∧
      FrameOf (addrs ys) h h₁ := by
  have hnd := hr.nodup
  rw [addrs_append, addrs_cons, List.nodup_append] at hnd
  have hs := (seg_append.1 hr.seg).1
  cases ys using List.reverseRecOn with
  | nil => exact ⟨h, rfl, trivial, rfl, fun _ _ => rfl, fun _ _ => rfl⟩
  | append_singleton ys x =>
    obtain ⟨b, e⟩ := x
    have hby : b ∉ addrs ys := notMem_addrs_left hnd.1
    have hne : ∀ c ∈ a :: addrs zs, c ≠ b := fun c hc hcb =>
      hnd.2.2 b (by simp) c hc hcb.symm
    have hback : back (ys ++ [(b, e)]) none = some b := by simp [back]
    refine ⟨setNext h b (front zs none), ?_, hs.setNext_last hby _,
      setNext_of_ne _ (hne a (by simp)), fun c hc => setNext_of_ne _ (hne c (by simp [hc])),
      fun c hc => setNext_of_ne _ (by rintro rfl; exact hc (by simp))⟩
    have hf : l.first = front (ys ++ [(b, e)] ++ zs) none := by
      rw [hr.first]; cases ys <;> rfl
    rw [hback, unlinkPrev, writeNext_eq hs.at, Outcome.ok_bind, ← hf]
    rfl

/-- The successor's side of unlinking: what stands after it now leads back to `ys`. -/
theorem unlinkNext_spec {h : Heap} {l : LinkedlistStructure} {p q : Option Addr}
    (hs : Seg h p zs none)
    (hnd : (addrs zs).Nodup) (hl : zs ≠ [] → l.last = back zs none) :
    ∃ h₁, unlinkNext l q (front zs none) h = .ok ({ l with last := back zs q }, h₁) ∧
      Seg h₁ q zs none ∧ FrameOf (addrs zs) h h₁ := by
  cases zs with
  | nil => exact ⟨h, rfl, trivial, fun _ _ => rfl⟩
  | cons x zs =>
    obtain ⟨b, e⟩ := x
    refine ⟨setPrev h b q, ?_, hs.setPrev_first (List.nodup_cons.1 hnd).1 q,
      fun c hc => setPrev_of_ne _ (by rintro rfl; exact hc (by simp))⟩
    have hlast : l.last = back ((b, e) :: zs) q := hl (by simp)
    rw [front, unlinkNext, writePrev_eq hs.1, Outcome.ok_bind, ← hlast]
    rfl

/-- Unlinking removes the given node and keeps the order of the others; the result is the datum's
low half. Reference: `__unlink_procedure_of_current` (`src/linkedlist.c:157`). -/
theorem unlinkProcedureOfCurrent_spec (hr : Represents h l (ys ++ (a, d) :: zs)) :
    ∃ l' h', unlinkProcedureOfCurrent l (back ys none) (some a) h = .ok (d.setWidth 32, l', h') ∧
      Represents h' l' (ys ++ zs) ∧ FrameOf (addrs (ys ++ (a, d) :: zs)) h h' := by
  have hnd := hr.nodup
  rw [addrs_append, addrs_cons, List.nodup_append] at hnd
  obtain ⟨hndy, hndaz, hdisj⟩ := hnd
  obtain ⟨haz, hndz⟩ := List.nodup_cons.1 hndaz
  have hay : a ∉ addrs ys := fun hmem => hdisj a hmem a (by simp) rfl
  have hca := hr.seg.at
  -- the predecessor's side leaves the node itself and `zs` alone
  obtain ⟨h₁, hp, hsy, ha₁, hz₁, hf₁⟩ := unlinkPrev_spec hr
  have hsz : Seg h₁ (some a) zs none := (seg_append.1 hr.seg).2.2.congr hz₁
  rw [hca] at ha₁
  -- the successor's side leaves `ys` and the node alone
  obtain ⟨h₂, hn, hsz', hf₂⟩ := unlinkNext_spec (l := { l with first := front (ys ++ zs) none })
    (q := back ys none) hsz hndz fun hne => by
      obtain ⟨x, zs', rfl⟩ := List.exists_cons_of_ne_nil hne
      rw [show l.last = _ from hr.last, back_append]; rfl
  have ha₂ : h₂ a = some ⟨front zs none, back ys none, d⟩ := (hf₂ a haz).trans ha₁
  have hsy' : Seg h₂ none ys (front zs none) := hsy.congr fun b hb =>
    hf₂ b fun hbz => hdisj b hb b (by simp [hbz]) rfl
  refine ⟨⟨front (ys ++ zs) none, back zs (back ys none), l.length - 1⟩,
    Function.update h₂ a none, ?_, ?_, ?_⟩
  · simp only [unlinkProcedureOfCurrent, readNode_eq hca, Outcome.ok_bind, hp, readNode_eq ha₁, hn,
      freeNode_eq ha₂]
    rfl
  · refine ⟨seg_append.2 ⟨seg_free hsy' hay, seg_free hsz' haz⟩, ?_, rfl, ?_, ?_⟩
    · rw [addrs_append, List.nodup_append]
      exact ⟨hndy, hndz, fun b hb c hc => hdisj b hb c (by simp [hc])⟩
    · rw [back_append]
    · have := hr.length; simp at this ⊢; omega
  · intro c hc
    simp only [addrs_append, addrs_cons, List.mem_append, List.mem_cons, not_or] at hc
    rw [Function.update_of_ne hc.2.1, hf₂ c hc.2.2, hf₁ c hc.1]

/-! ## The operations built on the search -/

/-- A list either has no match or splits at its first one. -/
theorem firstMatch_cases (matchFn : VoidPtr → VoidPtr → Int) (args : VoidPtr)
    (xs : List (Addr × VoidPtr)) :
    (∀ d ∈ datas xs, matchFn d args = 0) ∨
      ∃ ys a d zs, xs = ys ++ (a, d) :: zs ∧ (∀ e ∈ datas ys, matchFn e args = 0) ∧
        matchFn d args ≠ 0 := by
  induction xs with
  | nil => exact .inl (by simp)
  | cons x xs ih =>
    obtain ⟨a, d⟩ := x
    by_cases hd : matchFn d args = 0
    · rcases ih with hno | ⟨ys, b, e, zs, rfl, hno, he⟩
      · exact .inl (by simpa [hd] using hno)
      · exact .inr ⟨(a, d) :: ys, b, e, zs, rfl, by simpa [hd] using hno, he⟩
    · exact .inr ⟨[], a, d, xs, rfl, by simp, hd⟩

/-- Both calls answer `NULL` when nothing matches, and popping leaves the list as it is. Reference:
`linkedlist_pop_first_match_from_rear` (`src/linkedlist.c:133`). -/
theorem firstMatch_none (hr : Represents h l xs) (hfuel : xs.length < fuel)
    (hno : ∀ d ∈ datas xs, matchFn d args = 0) :
    linkedlistPeekFirstMatchFromRear fuel l h matchFn args = .ok NULL ∧
    linkedlistPopFirstMatchFromRear fuel l h matchFn args = .ok (NULL, l, h) := by
  rw [linkedlistPeekFirstMatchFromRear, linkedlistPopFirstMatchFromRear,
    searchProcedure_none hr hfuel hno]
  exact ⟨rfl, rfl⟩

/-- Peeking reads the datum of the first match. Reference: `linkedlist_peek_first_match_from_rear`
(`src/linkedlist.c:146`). -/
theorem linkedlistPeekFirstMatchFromRear_first (hr : Represents h l (ys ++ (a, d) :: zs))
    (hfuel : ys.length < fuel) (hno : ∀ e ∈ datas ys, matchFn e args = 0)
    (hd : matchFn d args ≠ 0) :
    linkedlistPeekFirstMatchFromRear fuel l h matchFn args = .ok d := by
  rw [linkedlistPeekFirstMatchFromRear, searchProcedure_some hr hfuel hno hd]
  simp [readNode_eq hr.seg.at]

/-- Popping removes the node of the first match; the datum comes out through an `int`. Reference:
`linkedlist_pop_first_match_from_rear` (`src/linkedlist.c:136`). -/
theorem linkedlistPopFirstMatchFromRear_first (hr : Represents h l (ys ++ (a, d) :: zs))
    (hfuel : ys.length < fuel) (hno : ∀ e ∈ datas ys, matchFn e args = 0)
    (hd : matchFn d args ≠ 0) :
    ∃ l' h', linkedlistPopFirstMatchFromRear fuel l h matchFn args = .ok (throughInt d, l', h') ∧
      Represents h' l' (ys ++ zs) ∧ FrameOf (addrs (ys ++ (a, d) :: zs)) h h' := by
  obtain ⟨l', h', hunlink, hr', hframe⟩ := unlinkProcedureOfCurrent_spec hr
  refine ⟨l', h', ?_, hr', hframe⟩
  rw [linkedlistPopFirstMatchFromRear, searchProcedure_some hr hfuel hno hd]
  simp [hunlink, throughInt]

/-- Iterating visits every node once, in order. Reference: `node_iterator`
(`src/linkedlist.c:149`). -/
theorem iteratorLoop_spec (k : Nat) {σ : Type _} {p : Option Addr} (hs : Seg h p xs none)
    (action : VoidPtr → σ → σ) (s : σ) :
    iteratorLoop h action (xs.length + (k + 1)) (front xs none) s =
      .ok ((datas xs).foldl (fun s d => action d s) s) := by
  induction xs generalizing p s with
  | nil => simp [front, iteratorLoop]
  | cons x xs ih =>
    obtain ⟨a, d⟩ := x
    obtain ⟨h1, h2⟩ := hs
    rw [List.length_cons, show xs.length + 1 + (k + 1) = (xs.length + (k + 1)) + 1 by omega]
    simp only [front, iteratorLoop, readNode_eq h1, Outcome.ok_bind, datas_cons, List.foldl_cons]
    exact ih h2 _

end

end SeKernel.LinkedList
