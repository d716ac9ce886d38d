import SeKernel.LinkedList.Consume

/-!
# The sort of the forward chain

`merge_sort` along `next` alone: for every chain that ends and every total preorder it returns, and
the chain from `first` is the stable sort of what it was (`mergeSort_stable`). What the chain
becomes is `mergeSort_spec`; this module says what that is worth when the comparator is an order.
-/

namespace SeKernel.LinkedList

open Doubly

/-- The nodes `ys` are those of `xs` in order, and those that compare equal in the order of `xs`. -/
structure StableSort (compare : VoidPtr → VoidPtr → Int) (xs ys : List (Addr × VoidPtr)) :
    Prop where
  perm : ys.Perm xs
  ordered : ys.Pairwise fun x y => compare x.2 y.2 ≤ 0
  stable : ∀ x y, [x, y].Sublist xs → compare x.2 y.2 = 0 → [x, y].Sublist ys

variable {compare : VoidPtr → VoidPtr → Int} {h : Heap} {l : LinkedlistStructure}
  {xs : List (Addr × VoidPtr)} {fuel : Nat}

/-- The order of the nodes is transitive and total when the comparator is a total preorder. -/
theorem TotalPreorder.nodeLe (hcompare : TotalPreorder compare) :
    (∀ x y z, nodeLe compare x y → nodeLe compare y z → nodeLe compare x z) ∧
    ∀ x y, (nodeLe compare x y || nodeLe compare y x) := by
  constructor
  · intro x y z hxy hyz
    simp only [LinkedList.nodeLe, decide_eq_true_eq] at *
    exact hcompare.trans x.2 y.2 z.2 hxy hyz
  · intro x y
    have hswap := hcompare.swap y.2 x.2
    simp only [LinkedList.nodeLe, Bool.or_eq_true, decide_eq_true_eq]
    omega

theorem stableSort_mergeSort (hcompare : TotalPreorder compare) (xs : List (Addr × VoidPtr)) :
    StableSort compare xs (xs.mergeSort (nodeLe compare)) := by
  obtain ⟨htrans, htotal⟩ := hcompare.nodeLe
  refine ⟨List.mergeSort_perm xs _, ?_, ?_⟩
  · refine (List.pairwise_mergeSort htrans htotal xs).imp fun hle => ?_
    simpa [nodeLe] using hle
  · intro x y hsublist hequal
    exact List.pair_sublist_mergeSort htrans htotal (by simp [nodeLe, hequal]) hsublist

/-- For every forward chain that ends, whatever the other links, and every total preorder,
`merge_sort` returns; the chain from `first` is the stable sort of what it was, `last` is its end
and `length` is kept. Reference: `merge_sort` (`src/linkedlist.c:7`). -/
theorem mergeSort_stable (hcompare : TotalPreorder compare) (hxs : Chain h xs none)
    (hfirst : l.first = front xs none) (hfuel : xs.length < fuel) :
    ∃ l' h' ys, mergeSort fuel l compare h = .ok (l', h') ∧
      l'.first = front ys none ∧ Chain h' ys none ∧ StableSort compare xs ys ∧
      l'.last = (addrs ys).getLast? ∧ l'.length = l.length := by
  obtain ⟨h', hsort, hchain, -⟩ := mergeSort_spec compare hxs hxs.nodup hfirst hfuel
  exact ⟨_, h', _, hsort, rfl, hchain, stableSort_mergeSort hcompare xs, back_none_eq_getLast? _,
    rfl⟩

/-- Four nodes, two of them with the same number, in a structure whose other fields are wrong. -/
theorem mergeSort_stable_four :
    ∃ l' h' ys, mergeSort 5 ⟨some 1, none, 7⟩ compareNat
        (fun a => match a with
          | 1 => some ⟨some 2, none, 8⟩
          | 2 => some ⟨some 3, none, 5⟩
          | 3 => some ⟨some 4, some 3, 8⟩
          | 4 => some ⟨none, none, 2⟩
          | _ => none) = .ok (l', h') ∧
      l'.first = front ys none ∧ Chain h' ys none ∧
      StableSort compareNat [(1, 8), (2, 5), (3, 8), (4, 2)] ys ∧
      l'.last = (addrs ys).getLast? ∧ l'.length = 7 :=
  mergeSort_stable compareNat_totalPreorder
    ⟨⟨none, rfl⟩, ⟨none, rfl⟩, ⟨some 3, rfl⟩, ⟨none, rfl⟩, trivial⟩ rfl (by decide)

end SeKernel.LinkedList
