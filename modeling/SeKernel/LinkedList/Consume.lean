import SeKernel.LinkedList.MergeSort
import SeKernel.LinkedList.Refinement

/-!
# Consuming a sorted list

`merge_sort` relinks the nodes forwards and sets `last`; `linkedlist_pop` goes back through `prev`,
which still shows the order of the pushes. So after a sort the pops return the elements against the
order in which they were pushed, if the node that was pushed last is still the last one, and else
follow `NULL` when they come to the node that was pushed first (`pops_after_mergeSort`). Only a list
that was sorted when it was built can be consumed (`mergeSort_consumed_iff`).
-/

namespace SeKernel.LinkedList

open Doubly

/-- The comparator is a total preorder in the sign convention of `strcmp`. -/
structure TotalPreorder (compare : VoidPtr → VoidPtr → Int) : Prop where
  swap : ∀ x y, compare x y < 0 ↔ 0 < compare y x
  trans : ∀ x y z, compare x y ≤ 0 → compare y z ≤ 0 → compare x z ≤ 0

/-- The list is sorted, and then one pop for each of the elements `ds` returns them all, the
greatest first, and leaves the empty list. -/
def ConsumedSorted (fuel : Nat) (compare : VoidPtr → VoidPtr → Int) (l : LinkedlistStructure)
    (h : Heap) (ds : List VoidPtr) : Prop :=
  ∃ l₁ h₁ l₂ h₂, ∃ rs : List VoidPtr, mergeSort fuel l compare h = .ok (l₁, h₁) ∧
    Machine.run exec (List.replicate ds.length .pop) (l₁, h₁) = .ok (rs.map .ptr, l₂, h₂) ∧
    rs.Perm ds ∧ rs.Pairwise (fun x y => 0 ≤ compare x y) ∧
    l₂.length = 0 ∧ l₂.first = none ∧ l₂.last = none

variable {compare : VoidPtr → VoidPtr → Int} {h h₀ : Heap} {l l₀ : LinkedlistStructure}
  {xs ys ns : List (Addr × VoidPtr)} {a : Addr} {d : VoidPtr} {k fuel : Nat}

/-! ## Pops along the backward links -/

/-- The next pop goes on at `prev`, whatever the forward links are. Reference: `linkedlist_pop`
(`src/linkedlist.c:82`). -/
theorem linkedlistPop_back (hback : BackChain h none (ys ++ [(a, d)]))
    (hnodup : (addrs (ys ++ [(a, d)])).Nodup) (hlast : l.last = some a) (hlength : 1 < l.length)
    (hys : ys ≠ []) :
    ∃ h', linkedlistPop l h =
        .ok (d, { l with last := back ys none, length := l.length - 1 }, h') ∧
      BackChain h' none ys := by
  obtain ⟨zs, ⟨b, e⟩, rfl⟩ := (List.eq_nil_or_concat' ys).resolve_left hys
  rw [addrs_append, List.nodup_append] at hnodup
  have hne : ∀ c ∈ addrs (zs ++ [(b, e)]), c ≠ a := fun c hc => hnodup.2.2 c hc a (by simp)
  obtain ⟨hback, ⟨n, ha⟩, -⟩ := backChain_append.1 hback
  obtain ⟨-, ⟨n', hb⟩, -⟩ := backChain_append.1 hback
  have hprev : back (zs ++ [(b, e)]) none = some b := by simp [back]
  have ha' : setNext h b none a = h a := setNext_of_ne none (hne b (by simp)).symm
  refine ⟨Function.update (setNext h b none) a none, ?_, ?_⟩
  · have hzero : l.length ≠ 0 := by omega
    have hone : l.length ≠ 1 := by omega
    rw [ha] at ha'
    rw [hprev] at ha ha' ⊢
    simp [linkedlistPop, hzero, hone, hlast, readNode_eq ha, writeNext_eq hb, freeNode_eq ha']
  · have hr : Relinked [b] h (setNext h b none) := relinked_setNext List.mem_cons_self none
    refine (hback.relinked hr).congr fun c hc => ?_
    rw [Function.update_of_ne (hne c hc)]

/-- With elements left, the node that was pushed first has no predecessor to go to. Reference:
`linkedlist_pop` (`src/linkedlist.c:83`). -/
theorem linkedlistPop_front (hback : BackChain h none [(a, d)]) (hlast : l.last = some a)
    (hlength : 1 < l.length) : linkedlistPop l h = .error .nullDeref := by
  obtain ⟨⟨n, ha⟩, -⟩ := hback
  have hzero : l.length ≠ 0 := by omega
  have hone : l.length ≠ 1 := by omega
  simp [linkedlistPop, hzero, hone, hlast, readNode_eq ha, writeNext]

/-- The last element. Reference: `linkedlist_pop` (`src/linkedlist.c:78`). -/
theorem linkedlistPop_one (hback : BackChain h none [(a, d)]) (hlast : l.last = some a)
    (hlength : l.length = 1) :
    ∃ h', linkedlistPop l h = .ok (d, ⟨none, none, 0⟩, h') := by
  obtain ⟨⟨n, ha⟩, -⟩ := hback
  exact ⟨Function.update h a none,
    by simp [linkedlistPop, hlength, hlast, readNode_eq ha, freeNode_eq ha]⟩

theorem run_pop {h' : Heap} {l' : LinkedlistStructure} (n : Nat)
    (hpop : linkedlistPop l h = .ok (d, l', h')) :
    Machine.run exec (List.replicate (n + 1) .pop) (l, h) =
      (Machine.run exec (List.replicate n .pop) (l', h')).map fun r => (.ptr d :: r.1, r.2) := by
  rw [List.replicate_succ, Machine.run]
  simp only [exec, hpop, Outcome.ok_bind, Outcome.pure_eq]
  cases Machine.run exec (List.replicate n .pop) (l', h') <;> rfl

/-- The pops return the elements backwards along `prev`. -/
theorem pops_return (hback : BackChain h none xs) (hnodup : (addrs xs).Nodup)
    (hlast : l.last = back xs none) (hlength : l.length = xs.length)
    (hfirst : xs = [] → l.first = none) :
    ∃ h', Machine.run exec (List.replicate xs.length .pop) (l, h) =
      .ok ((datas xs).reverse.map .ptr, ⟨none, none, 0⟩, h') := by
  induction xs using List.reverseRecOn generalizing l h with
  | nil =>
    obtain ⟨first, last, length⟩ := l
    cases hfirst rfl
    cases hlast
    cases hlength
    exact ⟨h, rfl⟩
  | append_singleton ys x ih =>
    obtain ⟨a, d⟩ := x
    have hlast' : l.last = some a := by simp [hlast, back]
    have hlength' : l.length = ys.length + 1 := by simp [hlength]
    rw [List.length_append, List.length_singleton]
    by_cases hys : ys = []
    · subst hys
      obtain ⟨h', hpop⟩ := linkedlistPop_one hback hlast' (by simpa using hlength')
      rw [run_pop _ hpop]
      exact ⟨h', rfl⟩
    · have hpos : 0 < ys.length := List.length_pos_iff.2 hys
      obtain ⟨h₁, hpop, hback₁⟩ := linkedlistPop_back hback hnodup hlast' (by omega) hys
      obtain ⟨h', hrun⟩ := ih (l := { l with last := back ys none, length := l.length - 1 }) hback₁
        (nodup_addrs_left hnodup) rfl (by simp [hlength']) fun h => absurd h hys
      rw [run_pop _ hpop, hrun]
      exact ⟨h', by simp [Except.map]⟩

/-- When there are more elements than nodes to go back to, the pops follow `NULL`. -/
theorem pops_stop (hback : BackChain h none xs) (hnodup : (addrs xs).Nodup) (hxs : xs ≠ [])
    (hlast : l.last = back xs none) (hlength : l.length = xs.length + k) (hk : 0 < k) :
    Machine.run exec (List.replicate (xs.length + k) .pop) (l, h) = .error .nullDeref := by
  induction xs using List.reverseRecOn generalizing l h with
  | nil => exact absurd rfl hxs
  | append_singleton ys x ih =>
    obtain ⟨a, d⟩ := x
    have hlast' : l.last = some a := by simp [hlast, back]
    have hlength' : l.length = ys.length + 1 + k := by simp [hlength]
    have hrounds : (ys ++ [(a, d)]).length + k = (ys.length + k) + 1 := by
      rw [List.length_append, List.length_singleton]
      omega
    rw [hrounds]
    by_cases hys : ys = []
    · subst hys
      have hpop := linkedlistPop_front hback hlast' (by rw [hlength', List.length_nil]; omega)
      rw [List.replicate_succ, Machine.run]
      simp only [exec, hpop, Outcome.error_bind]
    · obtain ⟨h₁, hpop, hback₁⟩ := linkedlistPop_back hback hnodup hlast' (by omega) hys
      have hrun := ih (l := { l with last := back ys none, length := l.length - 1 }) hback₁
        (nodup_addrs_left hnodup) hys rfl (by dsimp only; omega)
      rw [run_pop _ hpop, hrun]
      rfl

/-! ## The sorted list -/

variable (compare) in
/-- After a sort the pops return the elements against the order of the pushes, if the sort keeps the
last node in its place; and else they follow `NULL`. Reference: `merge_sort` (`src/linkedlist.c:7`),
`linkedlist_pop` (`src/linkedlist.c:72`). -/
theorem pops_after_mergeSort (hr : Represents h l xs) (hfuel : xs.length < fuel) :
    ∃ l₁ h₁, mergeSort fuel l compare h = .ok (l₁, h₁) ∧
      l₁.last = back (xs.mergeSort (nodeLe compare)) none ∧
      ((l₁.last = l.last ∧ ∃ h₂, Machine.run exec (List.replicate xs.length .pop) (l₁, h₁) =
          .ok ((datas xs).reverse.map .ptr, ⟨none, none, 0⟩, h₂)) ∨
        (l₁.last ≠ l.last ∧
          Machine.run exec (List.replicate xs.length .pop) (l₁, h₁) = .error .nullDeref)) := by
  obtain ⟨h₁, hsort, -, hrelinked⟩ :=
    mergeSort_spec compare hr.seg.chain hr.nodup hr.first hfuel
  refine ⟨_, h₁, hsort, rfl, ?_⟩
  have hback := hr.seg.backChain.relinked hrelinked
  by_cases hlast : back (xs.mergeSort (nodeLe compare)) none = l.last
  · refine .inl ⟨hlast, pops_return hback hr.nodup (hlast.trans hr.last) hr.length ?_⟩
    rintro rfl
    simp [front]
  · refine .inr ⟨hlast, ?_⟩
    have hne : xs ≠ [] := by
      rintro rfl
      simp [hr.last] at hlast
    have hperm := List.mergeSort_perm xs (nodeLe compare)
    have hsorted : xs.mergeSort (nodeLe compare) ≠ [] := by
      intro hnil
      rw [hnil] at hperm
      exact hne hperm.nil_eq.symm
    obtain ⟨ss, z, hss⟩ := (List.eq_nil_or_concat' _).resolve_left hsorted
    have hz : z ∈ xs := hperm.subset (by simp [hss])
    have hzlast : back (xs.mergeSort (nodeLe compare)) none = some z.1 := by simp [hss, back]
    obtain ⟨us, vs, hxs⟩ := List.append_of_mem hz
    have hcut : xs = (us ++ [z]) ++ vs := by simp [hxs]
    have hvs : 0 < vs.length := by
      refine List.length_pos_iff.2 ?_
      rintro rfl
      rw [hzlast, hr.last, hcut] at hlast
      simp [back] at hlast
    have hlength : xs.length = (us ++ [z]).length + vs.length := by rw [hcut, List.length_append]
    have hnodup := hr.nodup
    rw [hcut] at hback
    rw [hcut] at hnodup
    rw [hlength]
    refine pops_stop (backChain_append.1 hback).1 (nodup_addrs_left hnodup) (by simp) ?_ ?_ hvs
    · rw [hzlast]
      simp [back]
    · show l.length = _
      rw [hr.length, hlength]
      push_cast
      rfl

/-- A run of pushes from a list appends the nodes. Reference: `linkedlist_push`
(`src/linkedlist.c:106`). -/
theorem represents_of_pushes {os : List Reply} (hr : Represents h₀ l₀ xs)
    (hpush : Machine.run exec (ns.map fun x => .push x.1 x.2) (l₀, h₀) = .ok (os, l, h)) :
    Represents h l (xs ++ ns) := by
  induction ns generalizing xs h₀ l₀ os with
  | nil =>
    cases hpush
    simpa using hr
  | cons x ns ih =>
    obtain ⟨o, ⟨l₁, h₁⟩, os₁, hstep, hrest, -⟩ := Machine.run_cons_eq_ok.1 hpush
    cases hfresh : h₀ x.1 with
    | some c => simp [exec, linkedlistPush, mallocNode, hfresh] at hstep
    | none =>
      obtain ⟨l', h', hspec, hr', -⟩ := linkedlistPush_spec hr hfresh x.2
      simp only [exec, hspec, Outcome.ok_bind, Outcome.pure_eq] at hstep
      cases hstep
      simpa using ih hr' hrest

theorem datas_pairwise (R : VoidPtr → VoidPtr → Prop) :
    (datas xs).Pairwise R ↔ xs.Pairwise fun x y => R x.2 y.2 := List.pairwise_map

/-- For every list that pushes build, whatever their order and number, and every total preorder:
after `merge_sort` the list can be consumed, one pop for each element, the greatest first, if and
only if the elements were pushed in order. Reference: `merge_sort` (`src/linkedlist.c:7`),
`linkedlist_pop` (`src/linkedlist.c:72`). -/
theorem mergeSort_consumed_iff {os : List Reply} (hcompare : TotalPreorder compare)
    (hpush : Machine.run exec (ns.map fun x => .push x.1 x.2) (linkedlistInit, h₀) = .ok (os, l, h))
    (hfuel : ns.length < fuel) :
    ConsumedSorted fuel compare l h (datas ns) ↔
      (datas ns).Pairwise fun x y => compare x y ≤ 0 := by
  have hr : Represents h l ns := by simpa using represents_of_pushes (represents_init h₀) hpush
  have hlength : (datas ns).length = ns.length := by simp [datas]
  have hreverse : (datas ns).reverse.Pairwise (fun x y => 0 ≤ compare x y) ↔
      (datas ns).Pairwise fun x y => compare x y ≤ 0 := by
    rw [List.pairwise_reverse]
    refine List.Pairwise.iff fun x y => ?_
    have hswap := hcompare.swap y x
    omega
  obtain ⟨l₁, h₁, hsort, hlast, hpops⟩ := pops_after_mergeSort compare hr hfuel
  unfold ConsumedSorted
  rw [hlength]
  constructor
  · rintro ⟨l₁', h₁', l₂, h₂, rs, hsort', hrun, -, hordered, -⟩
    rw [hsort] at hsort'
    cases hsort'
    rcases hpops with ⟨-, h₃, hreturn⟩ | ⟨-, hstop⟩
    · rw [hrun] at hreturn
      simp only [Except.ok.injEq, Prod.mk.injEq] at hreturn
      have hrs : rs = (datas ns).reverse :=
        (List.map_inj_right fun x y hxy => Reply.ptr.inj hxy).1 hreturn.1
      rw [hrs] at hordered
      exact hreverse.1 hordered
    · rw [hstop] at hrun
      cases hrun
  · intro hordered
    have hsorted : ns.mergeSort (nodeLe compare) = ns := by
      refine List.mergeSort_of_pairwise (((datas_pairwise _).1 hordered).imp fun hle => ?_)
      simpa [nodeLe] using hle
    rw [hsorted, ← hr.last] at hlast
    rcases hpops with ⟨-, h₂, hreturn⟩ | ⟨hne, -⟩
    · exact ⟨l₁, h₁, _, h₂, _, hsort, hreturn, List.reverse_perm _, hreverse.2 hordered, rfl, rfl,
        rfl⟩
    · exact absurd hlast hne

/-- Numbers in their order. -/
def compareNat (x y : VoidPtr) : Int := x.toNat - y.toNat

theorem compareNat_totalPreorder : TotalPreorder compareNat := by
  constructor
  · intro x y
    unfold compareNat
    omega
  · intro x y z
    unfold compareNat
    omega

/-- Three numbers that were pushed in order. -/
theorem mergeSort_consumed_iff_three :
    ∃ os l h, Machine.run exec [.push 1 5, .push 2 7, .push 3 9] (linkedlistInit, fun _ => none) =
        .ok (os, l, h) ∧ ConsumedSorted 4 compareNat l h [5, 7, 9] := by
  have hpush : ∃ os l h, Machine.run exec [.push 1 5, .push 2 7, .push 3 9]
      (linkedlistInit, fun _ => none) = .ok (os, l, h) := ⟨_, _, _, rfl⟩
  obtain ⟨os, l, h, hpush⟩ := hpush
  have hlist : Machine.run exec ([((1, 5) : Addr × VoidPtr), (2, 7), (3, 9)].map fun x =>
      .push x.1 x.2) (linkedlistInit, fun _ => none) = .ok (os, l, h) := hpush
  exact ⟨os, l, h, hpush,
    (mergeSort_consumed_iff compareNat_totalPreorder hlist (by decide)).2 (by decide)⟩

/-- Of two numbers pushed in the wrong order the first pop follows `NULL`; and of three numbers
whose greatest was pushed last, the pops return the smallest one in the middle. -/
theorem mergeSort_not_consumed :
    (∃ os l h l₁ h₁, Machine.run exec [.push 1 9, .push 2 5] (linkedlistInit, fun _ => none) =
        .ok (os, l, h) ∧ mergeSort 3 l compareNat h = .ok (l₁, h₁) ∧
      Machine.run exec [.pop, .pop] (l₁, h₁) = .error .nullDeref) ∧
    ∃ os l h l₁ h₁ s, Machine.run exec [.push 1 7, .push 2 5, .push 3 9]
        (linkedlistInit, fun _ => none) = .ok (os, l, h) ∧
      mergeSort 4 l compareNat h = .ok (l₁, h₁) ∧
      Machine.run exec [.pop, .pop, .pop] (l₁, h₁) = .ok ([.ptr 9, .ptr 5, .ptr 7], s) :=
  ⟨⟨_, _, _, _, _, rfl, rfl, rfl⟩, _, _, _, _, _, _, rfl, rfl, rfl⟩

end SeKernel.LinkedList
