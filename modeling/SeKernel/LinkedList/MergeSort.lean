import SeKernel.Lib.Chain
import SeKernel.LinkedList.Spec

/-!
# Sorting the linked list

`merge_sort` of `src/linkedlist.c` on the heap of nodes, and what it does: the forward chain becomes
the stable sort of what it was, `last` is its end, and the backward links are left as they were
(`mergeSort_spec`). The recursions and loops take a number of rounds (`fuel`); one round more than
there are nodes is enough for all of them.
-/

namespace SeKernel.LinkedList

open Doubly

/-! ## The code -/

/-- Reference: `sorted_merge` (`src/linkedlist.c:27`). -/
def sortedMerge (compare : VoidPtr → VoidPtr → Int) :
    Nat → Option Addr → Option Addr → Heap → Outcome (Option Addr × Heap)
  | 0, _, _, _ => throw .outOfFuel
  | _ + 1, none, b, h => pure (b, h)
  | _ + 1, some a, none, h => pure (some a, h)
  | fuel + 1, some a, some b, h => do
    let ca ← readNode h (some a)
    let cb ← readNode h (some b)
    if compare ca.data cb.data ≤ 0 then
      let (next, h) ← sortedMerge compare fuel ca.next (some b) h
      let h ← writeNext h (some a) next
      pure (some a, h)
    else
      let (next, h) ← sortedMerge compare fuel (some a) cb.next h
      let h ← writeNext h (some b) next
      pure (some b, h)

/-- The `while` loop of `front_back_split` (`src/linkedlist.c:56`); the result is the final
`slow`. -/
def splitLoop (h : Heap) : Nat → Option Addr → Option Addr → Outcome (Option Addr)
  | 0, _, _ => throw .outOfFuel
  | _ + 1, none, slow => pure slow
  | fuel + 1, some f, slow => do
    let cf ← readNode h (some f)
    match cf.next with
    | none => splitLoop h fuel none slow
    | some f' => do
      let cs ← readNode h slow
      let cf' ← readNode h (some f')
      splitLoop h fuel cf'.next cs.next

/-- The result is `*frontRef` and `*backRef`. Reference: `front_back_split`
(`src/linkedlist.c:46`). -/
def frontBackSplit (fuel : Nat) (source : Option Addr) (h : Heap) :
    Outcome (Option Addr × Option Addr × Heap) :=
  match source with
  | none => pure (none, none, h)
  | some s => do
    let c ← readNode h (some s)
    if c.next = none then
      pure (some s, none, h)
    else
      let slow ← splitLoop h fuel c.next (some s)
      let c ← readNode h slow
      let h ← writeNext h slow none
      pure (some s, c.next, h)

/-- The result is `*headRef`. Reference: `__merge_sort` (`src/linkedlist.c:14`). -/
def mergeSortAux (compare : VoidPtr → VoidPtr → Int) :
    Nat → Option Addr → Heap → Outcome (Option Addr × Heap)
  | 0, _, _ => throw .outOfFuel
  | _ + 1, none, h => pure (none, h)
  | fuel + 1, some head, h => do
    let c ← readNode h (some head)
    if c.next = none then
      pure (some head, h)
    else
      let (a, b, h) ← frontBackSplit (fuel + 1) (some head) h
      let (a, h) ← mergeSortAux compare fuel a h
      let (b, h) ← mergeSortAux compare fuel b h
      sortedMerge compare (fuel + 1) a b h

/-- The `for` loop of `merge_sort` (`src/linkedlist.c:10`). -/
def lastLoop (h : Heap) : Nat → Option Addr → Outcome (Option Addr)
  | 0, _ => throw .outOfFuel
  | _ + 1, none => pure none
  | fuel + 1, some newLast => do
    let c ← readNode h (some newLast)
    match c.next with
    | none => pure (some newLast)
    | some next => lastLoop h fuel (some next)

/-- Reference: `merge_sort` (`src/linkedlist.c:7`). -/
def mergeSort (fuel : Nat) (list : LinkedlistStructure) (compare : VoidPtr → VoidPtr → Int)
    (h : Heap) : Outcome (LinkedlistStructure × Heap) := do
  let (first, h) ← mergeSortAux compare fuel list.first h
  let last ← lastLoop h fuel first
  pure ({ list with first, last }, h)

/-- The order of the nodes by their data. -/
def nodeLe (compare : VoidPtr → VoidPtr → Int) (x y : Addr × VoidPtr) : Bool :=
  compare x.2 y.2 ≤ 0

variable {compare : VoidPtr → VoidPtr → Int} {h h' : Heap} {xs ys zs : List (Addr × VoidPtr)}
  {a : Addr} {as : List Addr} {c : LinkedlistNode} {fuel : Nat}

/-! ## The merge -/

/-- Linking a node in front of a chain that it is not on. -/
theorem linkFront_spec (hr : Relinked as h h') (ha : a ∉ as) (hcell : h a = some c)
    (hxs : Chain h' xs none) (hmem : a ∉ addrs xs) :
    ∃ h'', writeNext h' (some a) (front xs none) = .ok h'' ∧
      Chain h'' ((a, c.data) :: xs) none ∧ Relinked (a :: as) h h'' := by
  have hcell' : h' a = some c := (hr.frame a ha).trans hcell
  refine ⟨_, writeNext_eq hcell' _, hxs.setNext_cons hmem hcell', ?_⟩
  exact (hr.mono (List.subset_cons_self a as)).trans (relinked_setNext List.mem_cons_self _)

theorem mem_addrs_merge : a ∈ addrs (xs.merge ys (nodeLe compare)) ↔ a ∈ addrs (xs ++ ys) :=
  ((List.merge_perm_append (nodeLe compare)).map Prod.fst).mem_iff

variable (compare) in
/-- Two chains become the chain of their merge. The induction is on the rounds; the heap is written
on the way back only. Reference: `sorted_merge` (`src/linkedlist.c:27`). -/
theorem sortedMerge_spec (hxs : Chain h xs none) (hys : Chain h ys none)
    (hnodup : (addrs (xs ++ ys)).Nodup) (hfuel : (xs ++ ys).length < fuel) :
    ∃ h', sortedMerge compare fuel (front xs none) (front ys none) h =
        .ok (front (xs.merge ys (nodeLe compare)) none, h') ∧
      Chain h' (xs.merge ys (nodeLe compare)) none ∧ Relinked (addrs (xs ++ ys)) h h' := by
  induction fuel generalizing xs ys with
  | zero => omega
  | succ fuel ih =>
    cases xs with
    | nil =>
      rw [List.nil_merge]
      exact ⟨h, rfl, hys, .refl _ h⟩
    | cons x xs =>
      cases ys with
      | nil =>
        rw [List.merge_right]
        exact ⟨h, rfl, hxs, .refl _ h⟩
      | cons y ys =>
        obtain ⟨a, d⟩ := x
        obtain ⟨b, e⟩ := y
        obtain ⟨⟨p, ha⟩, hxs'⟩ := hxs
        obtain ⟨⟨q, hb⟩, hys'⟩ := hys
        have hlt : xs.length + ys.length + 1 < fuel := by
          simp only [List.length_append, List.length_cons] at hfuel
          omega
        simp only [front_cons, sortedMerge, readNode_eq ha, readNode_eq hb, Outcome.ok_bind]
        rw [List.cons_merge_cons]
        by_cases hle : compare d e ≤ 0
        · have hnot : a ∉ addrs (xs ++ (b, e) :: ys) := (List.nodup_cons.1 hnodup).1
          obtain ⟨h₁, hmerge, hchain, hr⟩ := @ih xs ((b, e) :: ys) hxs' ⟨⟨q, hb⟩, hys'⟩
            (List.nodup_cons.1 hnodup).2 (by simp; omega)
          obtain ⟨h₂, hwrite, hchain₂, hr₂⟩ :=
            linkFront_spec hr hnot ha hchain fun hmem => hnot (mem_addrs_merge.1 hmem)
          rw [if_pos hle, if_pos (by simpa [nodeLe] using hle)]
          refine ⟨h₂, ?_, hchain₂, hr₂⟩
          rw [front_cons] at hmerge
          rw [hmerge, Outcome.ok_bind]
          dsimp only
          rw [hwrite]
          rfl
        · have hperm : (addrs ((a, d) :: xs ++ (b, e) :: ys)).Perm
              (b :: addrs ((a, d) :: xs ++ ys)) := List.perm_middle.map Prod.fst
          obtain ⟨hnot, hnodup'⟩ := List.nodup_cons.1 (hperm.nodup_iff.1 hnodup)
          obtain ⟨h₁, hmerge, hchain, hr⟩ := @ih ((a, d) :: xs) ys ⟨⟨p, ha⟩, hxs'⟩ hys'
            hnodup' (by simp; omega)
          obtain ⟨h₂, hwrite, hchain₂, hr₂⟩ :=
            linkFront_spec hr hnot hb hchain fun hmem => hnot (mem_addrs_merge.1 hmem)
          rw [if_neg hle, if_neg (by simpa [nodeLe] using hle)]
          refine ⟨h₂, ?_, hchain₂, hr₂.mono hperm.symm.subset⟩
          rw [front_cons] at hmerge
          rw [hmerge, Outcome.ok_bind]
          dsimp only
          rw [hwrite]
          rfl

/-! ## The split -/

/-- `slow` goes half as many steps as there are nodes ahead of `fast`. The induction takes two nodes
off the chain ahead of `fast` and one off the chain ahead of `slow`. Reference: `front_back_split`
(`src/linkedlist.c:56`). -/
theorem splitLoop_spec (hxs : Chain h xs none) (hys : Chain h ys none)
    (hlength : xs.length / 2 < ys.length) (hfuel : xs.length < fuel) :
    splitLoop h fuel (front xs none) (front ys none) =
      .ok (front (ys.drop (xs.length / 2)) none) := by
  induction fuel generalizing xs ys with
  | zero => omega
  | succ fuel ih =>
    match xs, hxs with
    | [], _ => rfl
    | [(f, d)], ⟨⟨p, hf⟩, _⟩ =>
      have hround : splitLoop h fuel none (front ys none) = .ok (front ys none) :=
        @ih [] ys trivial hys (by simpa using hlength) (by simpa using hfuel)
      simpa [front_cons, front_nil, splitLoop, readNode_eq hf] using hround
    | (f, d) :: (f', d') :: xs, ⟨⟨p, hf⟩, ⟨p', hf'⟩, hxs⟩ =>
      cases ys with
      | nil => simp at hlength
      | cons y ys =>
        obtain ⟨s, e⟩ := y
        obtain ⟨⟨q, hs⟩, hys⟩ := hys
        have hhalf : (xs.length + 1 + 1) / 2 = xs.length / 2 + 1 := by omega
        simp only [List.length_cons, hhalf] at hlength hfuel ⊢
        have hround := ih hxs hys (by omega) (by omega)
        simp only [front_cons, splitLoop, readNode_eq hf, readNode_eq hf', readNode_eq hs,
          Outcome.ok_bind, List.drop_succ_cons]
        exact hround

/-- Cutting a chain after one of its nodes. -/
theorem cutAfter_spec {us vs : List (Addr × VoidPtr)} {x : Addr × VoidPtr}
    (hxs : Chain h (us ++ x :: vs) none) (hnodup : (addrs (us ++ x :: vs)).Nodup) :
    ∃ h' p, h x.1 = some ⟨front vs none, p, x.2⟩ ∧ writeNext h (some x.1) none = .ok h' ∧
      Chain h' (us ++ [x]) none ∧ Chain h' vs none ∧ Relinked (addrs (us ++ x :: vs)) h h' := by
  obtain ⟨a, d⟩ := x
  obtain ⟨p, hcell⟩ := hxs.at
  have hus : a ∉ addrs us := notMem_addrs_left hnodup
  rw [addrs_append, addrs_cons, List.nodup_append] at hnodup
  have hfront : Chain h (us ++ [(a, d)]) (front vs none) := by
    have hsplit : Chain h ((us ++ [(a, d)]) ++ vs) none := by simpa using hxs
    exact (chain_append.1 hsplit).1
  refine ⟨_, p, hcell, writeNext_eq hcell none, hfront.setNext_last hus none, ?_, ?_⟩
  · refine (chain_append.1 hxs).2.2.congr fun b hb => setNext_of_ne none ?_
    rintro rfl
    exact (List.nodup_cons.1 hnodup.2.1).1 hb
  · exact relinked_setNext (by simp) none

/-- A chain of two nodes or more is cut in the middle, the front half being the longer one.
Reference: `front_back_split` (`src/linkedlist.c:46`). -/
theorem frontBackSplit_spec {x y : Addr × VoidPtr} (hxs : Chain h (x :: y :: xs) none)
    (hnodup : (addrs (x :: y :: xs)).Nodup) (hfuel : xs.length + 1 < fuel) :
    ∃ h' half, half = ((x :: y :: xs).length + 1) / 2 ∧
      frontBackSplit fuel (some x.1) h =
        .ok (front ((x :: y :: xs).take half) none, front ((x :: y :: xs).drop half) none, h') ∧
      Chain h' ((x :: y :: xs).take half) none ∧ Chain h' ((x :: y :: xs).drop half) none ∧
      Relinked (addrs (x :: y :: xs)) h h' := by
  obtain ⟨us, z, vs, hsplit, hus⟩ : ∃ us z vs, x :: y :: xs = us ++ z :: vs ∧
      us.length = (xs.length + 1) / 2 := by
    have hlt : (xs.length + 1) / 2 < (x :: y :: xs).length := by
      rw [List.length_cons, List.length_cons]
      omega
    refine ⟨(x :: y :: xs).take ((xs.length + 1) / 2), (x :: y :: xs)[(xs.length + 1) / 2],
      (x :: y :: xs).drop ((xs.length + 1) / 2 + 1), ?_, ?_⟩
    · rw [← List.drop_eq_getElem_cons, List.take_append_drop]
    · rw [List.length_take]
      omega
  have hloop : splitLoop h fuel (some y.1) (some x.1) = .ok (some z.1) := by
    have hspec : splitLoop h fuel (front (y :: xs) none) (front (x :: y :: xs) none) =
        .ok (front ((x :: y :: xs).drop ((y :: xs).length / 2)) none) :=
      splitLoop_spec hxs.2 hxs (by simp; omega) (by simpa using hfuel)
    rw [hsplit, List.length_cons, ← hus, List.drop_left, front_cons] at hspec
    rw [← front_cons x (y :: xs) none, hsplit]
    exact hspec
  have hfirst : front (us ++ [z]) none = some x.1 := by
    rw [← front_cons x (y :: xs) none, hsplit, front_append, front_append]
    rfl
  have hhalf : us.length + 1 = ((x :: y :: xs).length + 1) / 2 := by
    rw [hus, List.length_cons, List.length_cons]
    omega
  obtain ⟨p, hx⟩ := hxs.1
  rw [hsplit] at hxs hnodup
  obtain ⟨h', q, hz, hwrite, hfront, hback, hr⟩ := cutAfter_spec hxs hnodup
  refine ⟨h', us.length + 1, hhalf, ?_, ?_, ?_, ?_⟩
  · have hcode : frontBackSplit fuel (some x.1) h = .ok (some x.1, front vs none, h') := by
      simp [frontBackSplit, readNode_eq hx, front_cons, hloop, readNode_eq hz, hwrite]
    rw [hcode, hsplit, List.take_length_add_append, List.drop_length_add_append]
    simp [hfirst]
  · rw [hsplit, List.take_length_add_append]
    exact hfront
  · rw [hsplit, List.drop_length_add_append]
    exact hback
  · rw [hsplit]
    exact hr

/-! ## The sort -/

/-- Reference: none (the recursion of `List.mergeSort`). -/
theorem mergeSort_halves {γ : Type} (le : γ → γ → Bool) (x y : γ) (xs : List γ) {half : Nat}
    (hhalf : half = ((x :: y :: xs).length + 1) / 2) :
    (x :: y :: xs).mergeSort le = (((x :: y :: xs).take half).mergeSort le).merge
      (((x :: y :: xs).drop half).mergeSort le) le := by
  rw [List.mergeSort, hhalf]
  simp

theorem mem_addrs_mergeSort : a ∈ addrs (xs.mergeSort (nodeLe compare)) ↔ a ∈ addrs xs :=
  ((List.mergeSort_perm xs (nodeLe compare)).map Prod.fst).mem_iff

variable (compare) in
/-- Two sorted chains are merged, in terms of what they were before they were sorted. -/
theorem sortedMerge_mergeSort (hxs : Chain h (xs.mergeSort (nodeLe compare)) none)
    (hys : Chain h (ys.mergeSort (nodeLe compare)) none) (hnodup : (addrs (xs ++ ys)).Nodup)
    (hfuel : (xs ++ ys).length < fuel) (hzs : zs =
      (xs.mergeSort (nodeLe compare)).merge (ys.mergeSort (nodeLe compare)) (nodeLe compare)) :
    ∃ h', sortedMerge compare fuel (front (xs.mergeSort (nodeLe compare)) none)
        (front (ys.mergeSort (nodeLe compare)) none) h = .ok (front zs none, h') ∧
      Chain h' zs none ∧ Relinked (addrs (xs ++ ys)) h h' := by
  have hperm : (xs.mergeSort (nodeLe compare) ++ ys.mergeSort (nodeLe compare)).Perm (xs ++ ys) :=
    (List.mergeSort_perm _ _).append (List.mergeSort_perm _ _)
  have haddrs := hperm.map Prod.fst
  subst hzs
  obtain ⟨h', hmerge, hchain, hr⟩ := sortedMerge_spec compare hxs hys (haddrs.nodup_iff.2 hnodup)
    (by rw [hperm.length_eq]; exact hfuel)
  exact ⟨h', hmerge, hchain, hr.mono haddrs.subset⟩

variable (compare) in
/-- A chain becomes the chain of its stable sort. The induction is on the rounds, one for each level
of halves. Reference: `__merge_sort` (`src/linkedlist.c:14`). -/
theorem mergeSortAux_spec (hxs : Chain h xs none) (hnodup : (addrs xs).Nodup)
    (hfuel : xs.length < fuel) :
    ∃ h', mergeSortAux compare fuel (front xs none) h =
        .ok (front (xs.mergeSort (nodeLe compare)) none, h') ∧
      Chain h' (xs.mergeSort (nodeLe compare)) none ∧ Relinked (addrs xs) h h' := by
  induction fuel generalizing xs h with
  | zero => omega
  | succ fuel ih =>
    cases xs with
    | nil => exact ⟨h, by simp [front_nil, mergeSortAux], by simp [Chain], .refl _ h⟩
    | cons x xs =>
      cases xs with
      | nil =>
        obtain ⟨p, hx⟩ := hxs.1
        refine ⟨h, ?_, ?_, .refl _ h⟩
        · simp [front_cons, front_nil, mergeSortAux, readNode_eq hx]
        · rw [List.mergeSort_singleton]
          exact hxs
      | cons y xs =>
        have hlt : xs.length + 1 < fuel := by
          rw [List.length_cons, List.length_cons] at hfuel
          omega
        obtain ⟨h₁, half, hhalf, hsplit, hfront₁, hback₁, hr₁⟩ :=
          frontBackSplit_spec hxs hnodup (show xs.length + 1 < fuel + 1 by omega)
        have hlength : half ≤ xs.length + 1 ∧ 0 < half := by
          rw [hhalf, List.length_cons, List.length_cons]
          omega
        have hzs : (x :: y :: xs).take half ++ (x :: y :: xs).drop half = x :: y :: xs :=
          List.take_append_drop ..
        have hparts := hnodup
        rw [← hzs, addrs_append, List.nodup_append] at hparts
        obtain ⟨hnodupFront, hnodupBack, hdisj⟩ := hparts
        obtain ⟨h₂, hsortFront, hfront₂, hr₂⟩ := ih hfront₁ hnodupFront (by
          rw [List.length_take]
          omega)
        have hback₂ := hback₁.relinked hr₂ fun b hb hmem => hdisj b hmem b hb rfl
        obtain ⟨h₃, hsortBack, hback₃, hr₃⟩ := ih hback₂ hnodupBack (by
          rw [List.length_drop, List.length_cons, List.length_cons]
          omega)
        have hfront₃ := hfront₂.relinked hr₃ fun b hb hmem =>
          hdisj b (mem_addrs_mergeSort.1 hb) b hmem rfl
        obtain ⟨h₄, hmerge, hchain, hr₄⟩ := sortedMerge_mergeSort compare hfront₃ hback₃
          (by rw [hzs]; exact hnodup) (by rw [hzs]; exact hfuel) (mergeSort_halves _ x y xs hhalf)
        rw [hzs] at hr₄
        have hsub : ∀ l ⊆ x :: y :: xs, addrs l ⊆ addrs (x :: y :: xs) :=
          fun l hl => List.map_subset Prod.fst hl
        refine ⟨h₄, ?_, hchain, ?_⟩
        · obtain ⟨p, hx⟩ := hxs.1
          simp [front_cons, mergeSortAux, readNode_eq hx, hsplit, hsortFront, hsortBack, hmerge]
        · exact ((hr₁.trans (hr₂.mono (hsub _ (List.take_subset ..)))).trans
            (hr₃.mono (hsub _ (List.drop_subset ..)))).trans hr₄

/-- Reference: `merge_sort` (`src/linkedlist.c:10`). -/
theorem lastLoop_spec (hxs : Chain h xs none) (hfuel : xs.length < fuel) :
    lastLoop h fuel (front xs none) = .ok (back xs none) := by
  induction fuel generalizing xs with
  | zero => omega
  | succ fuel ih =>
    match xs, hxs with
    | [], _ => rfl
    | [x], ⟨⟨p, hx⟩, _⟩ =>
      simp [front_cons, front_nil, lastLoop, readNode_eq hx, back]
    | x :: y :: xs, ⟨⟨p, hx⟩, hxs⟩ =>
      have hrest := @ih (y :: xs) hxs (by simpa using hfuel)
      simpa [front_cons, lastLoop, readNode_eq hx, back] using hrest

variable (compare) in
/-- The forward chain becomes its stable sort and `last` the end of it; no other link changes.
Reference: `merge_sort` (`src/linkedlist.c:7`). -/
theorem mergeSort_spec {l : LinkedlistStructure} (hxs : Chain h xs none)
    (hnodup : (addrs xs).Nodup) (hfirst : l.first = front xs none) (hfuel : xs.length < fuel) :
    ∃ h', mergeSort fuel l compare h = .ok ({ l with
        first := front (xs.mergeSort (nodeLe compare)) none
        last := back (xs.mergeSort (nodeLe compare)) none }, h') ∧
      Chain h' (xs.mergeSort (nodeLe compare)) none ∧ Relinked (addrs xs) h h' := by
  obtain ⟨h', hsort, hchain, hr⟩ := mergeSortAux_spec compare hxs hnodup hfuel
  refine ⟨h', ?_, hchain, hr⟩
  have hlast := lastLoop_spec hchain (show _ < fuel by rwa [List.length_mergeSort])
  unfold mergeSort
  rw [hfirst, hsort, Outcome.ok_bind]
  dsimp only
  rw [hlast]
  rfl

end SeKernel.LinkedList
