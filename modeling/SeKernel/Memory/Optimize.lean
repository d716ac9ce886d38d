import SeKernel.LinkedList.Stable
import SeKernel.Memory.Carve

/-!
# Coalescing the free list

`__optimize_free_block_list` sorts the free list and then walks along `next`, merging a block with
its successor when no address lies between them. `unlink_procedure_of_current`, which is declared
and not defined, is `__unlink_procedure_of_current`: it frees the node that it unlinks, and the walk
frees it again, so no merge ever comes to its end. The function does its work on the lists where
there is nothing to merge (`optimizeFreeBlockList_coalesces_iff`).
-/

namespace SeKernel

open Doubly LinkedList

/-- `ps->free_blocks` with its nodes and with the `struct free_block`s that the nodes' data point
to. Reference: `struct physical_memory` (`headers/memory_s.h:34`). -/
structure FreeList where
  list : LinkedlistStructure
  nodes : LinkedList.Heap
  blocks : VoidPtr → Option FreeBlock

/-! ## The code -/

/-- Reference: `__comparator_start_address` (`src/memory_s.c:215`). -/
def comparatorStartAddress (blocks : VoidPtr → Option FreeBlock) (a b : VoidPtr) : Outcome Int := do
  if a = NULL ∨ b = NULL then
    throw (.err 1 "__comparator_start_address: invalid arguments")
  let fbA ← readBlock blocks a
  let fbB ← readBlock blocks b
  if fbA.startAddress < fbB.startAddress then
    return -1
  if fbA.startAddress > fbB.startAddress then
    return 1
  return 0

/-- The comparator as `merge_sort` calls it. On the data of a list of blocks it returns
(`comparatorStartAddress_eq`), so the value for a call that does not return is never asked for. -/
def startOrder (blocks : VoidPtr → Option FreeBlock) (a b : VoidPtr) : Int :=
  match comparatorStartAddress blocks a b with
  | .ok r => r
  | .error _ => -1

/-- `free(p)` of a block; freeing `NULL` does nothing. -/
def freeBlock (blocks : VoidPtr → Option FreeBlock) (p : VoidPtr) :
    Outcome (VoidPtr → Option FreeBlock) :=
  if p = NULL then pure blocks
  else if (blocks p).isSome then pure (Function.update blocks p none)
  else throw .dangling

/-- The node after the cursor is unlinked, and it and the block `nextFb` are freed. Reference:
`__optimize_free_block_list` (`src/memory_s.c:246`). -/
def FreeList.deleteNext (s : FreeList) (currentNode nextNode : Addr) (nextFb : VoidPtr) :
    Outcome FreeList := do
  let (_, list, nodes) ←
    unlinkProcedureOfCurrent s.list (some currentNode) (some nextNode) s.nodes
  let blocks ← freeBlock s.blocks nextFb
  let nodes ← freeNode nodes (some nextNode)
  return ⟨list, nodes, blocks⟩

/-- The `while` loop of `__optimize_free_block_list` (`src/memory_s.c:232`) with at most `fuel`
rounds. -/
def optimizeLoop : Nat → FreeList → Option Addr → Outcome FreeList
  | 0, _, _ => throw .outOfFuel
  | _ + 1, s, none => return s
  | fuel + 1, s, some currentNode => do
    let current ← readNode s.nodes (some currentNode)
    match current.next with
    | none => return s
    | some nextNode => do
      let next ← readNode s.nodes (some nextNode)
      let currentFb ← readBlock s.blocks current.data
      let nextFb ← readBlock s.blocks next.data
      if currentFb.endAddress + 1 ≥ nextFb.startAddress then
        let blocks := Function.update s.blocks current.data
          (some { currentFb with endAddress := nextFb.endAddress })
        let s ← FreeList.deleteNext { s with blocks } currentNode nextNode next.data
        optimizeLoop fuel s (some currentNode)
      else if nextFb.startAddress ≤ currentFb.endAddress then
        let blocks := Function.update s.blocks next.data
          (some { nextFb with startAddress := currentFb.startAddress })
        let nodes := Function.update s.nodes currentNode (some { current with data := next.data })
        let s ← FreeList.deleteNext { s with nodes, blocks } currentNode nextNode current.data
        optimizeLoop fuel s (some currentNode)
      else
        optimizeLoop fuel s (some nextNode)

/-- Reference: `__optimize_free_block_list` (`src/memory_s.c:227`). -/
def optimizeFreeBlockList (fuel : Nat) (s : FreeList) : Outcome (Int × FreeList) := do
  let (list, nodes) ← mergeSort fuel s.list (startOrder s.blocks) s.nodes
  let s ← optimizeLoop fuel { s with list, nodes } list.first
  return (0, s)

/-! ## What coalescing is for -/

/-- The list has the nodes `xs` along `next`, with `last` and `length` right, and their data point
to the blocks `bs`. -/
structure FreeList.Holds (s : FreeList) (xs : List (Addr × VoidPtr)) (bs : List FreeBlock) :
    Prop where
  chain : Chain s.nodes xs none
  first : s.list.first = front xs none
  last : s.list.last = back xs none
  length : s.list.length = xs.length
  blocks : xs.Forall₂ (fun x fb => x.2 ≠ NULL ∧ s.blocks x.2 = some fb) bs

/-- The addresses that some of the blocks holds. -/
def blocksFree (bs : List FreeBlock) : Set Nat := {a | ∃ fb ∈ bs, a ∈ fb.region}

/-- The call returns; the list then covers the addresses that it covered, sorted, with an address
that is not free between any two blocks, and the nodes that have left it are freed. -/
def FreeList.Coalesces (fuel : Nat) (s : FreeList) (xs : List (Addr × VoidPtr))
    (bs : List FreeBlock) : Prop :=
  ∃ s' xs' bs', optimizeFreeBlockList fuel s = .ok (0, s') ∧ s'.Holds xs' bs' ∧
    blocksFree bs' = blocksFree bs ∧
    bs'.Pairwise (fun b c => b.startAddress ≤ c.startAddress) ∧
    bs'.Pairwise (fun b c => ∃ a, b.endAddress.toNat < a ∧ a < c.startAddress.toNat ∧
      a ∉ blocksFree bs') ∧
    ∀ a ∈ addrs xs, a ∉ addrs xs' → s'.nodes a = none

/-- The block ends before the other one begins, with an address between them. -/
def FreeBlock.Before (b c : FreeBlock) : Prop := b.endAddress.toNat + 1 < c.startAddress.toNat

instance (b c : FreeBlock) : Decidable (b.Before c) :=
  inferInstanceAs (Decidable (b.endAddress.toNat + 1 < c.startAddress.toNat))

/-- An address lies between the two blocks. -/
def FreeBlock.Apart (b c : FreeBlock) : Prop := b.Before c ∨ c.Before b

section

variable {bs bs' : List FreeBlock} {blocks : VoidPtr → Option FreeBlock} {d e : VoidPtr}
  {fb gb : FreeBlock} {h : LinkedList.Heap} {l : LinkedlistStructure} {s : FreeList}
  {xs zs : List (Addr × VoidPtr)} {a b : Addr} {fuel : Nat}

/-! ## Blocks in a row -/

/-- For blocks in the order of their starts it is enough to be apart from the next one. -/
theorem pairwise_before_of_isChain (hwf : ∀ fb ∈ bs, fb.WellFormed)
    (hchain : bs.IsChain FreeBlock.Before) : bs.Pairwise FreeBlock.Before := by
  induction bs with
  | nil => exact List.Pairwise.nil
  | cons b bs ih =>
    obtain ⟨-, hrest⟩ := List.forall_mem_cons.1 hwf
    have hpairwise := ih hrest hchain.tail
    refine List.pairwise_cons.2 ⟨?_, hpairwise⟩
    cases bs with
    | nil => simp
    | cons c bs =>
      have hnext := (List.isChain_cons_cons.1 hchain).1
      obtain ⟨hc, -⟩ := FreeBlock.wellFormed_iff.1 (hrest c List.mem_cons_self)
      refine List.forall_mem_cons.2 ⟨hnext, fun d hd => ?_⟩
      have hlater := (List.pairwise_cons.1 hpairwise).1 d hd
      unfold FreeBlock.Before at *
      omega

/-- Sorted blocks are apart from each other if and only if each ends before the next one. -/
theorem pairwise_apart_iff (hwf : ∀ fb ∈ bs, fb.WellFormed)
    (hsorted : bs.Pairwise fun b c => b.startAddress ≤ c.startAddress) :
    bs.Pairwise FreeBlock.Apart ↔ bs.IsChain FreeBlock.Before := by
  constructor
  · intro hapart
    refine ((hsorted.and hapart).imp_of_mem fun {b c} hb hc hbc => ?_).isChain
    obtain ⟨hle, hbefore | hbefore⟩ := hbc
    · exact hbefore
    · obtain ⟨horder, -⟩ := FreeBlock.wellFormed_iff.1 (hwf c hc)
      rw [BitVec.le_def] at hle
      unfold FreeBlock.Before at *
      omega
  · intro hchain
    exact (pairwise_before_of_isChain hwf hchain).imp fun hbefore => .inl hbefore

instance : Std.Symm FreeBlock.Apart := ⟨fun _ _ => Or.symm⟩

/-- The address after a block is free in no block that is apart from it. -/
theorem notMem_blocksFree (hwf : ∀ fb ∈ bs, fb.WellFormed) (hapart : bs.Pairwise FreeBlock.Apart)
    (hfb : fb ∈ bs) : fb.endAddress.toNat + 1 ∉ blocksFree bs := by
  intro hfree
  obtain ⟨gb, hgb, hmem⟩ := hfree
  rw [FreeBlock.mem_region] at hmem
  obtain ⟨horder, -⟩ := FreeBlock.wellFormed_iff.1 (hwf fb hfb)
  have hsame : fb = gb ∨ fb.Apart gb := by
    by_contra hne
    rw [not_or] at hne
    exact hne.2 (hapart.forall hfb hgb hne.1)
  rcases hsame with rfl | hbefore | hbefore
  · omega
  · unfold FreeBlock.Before at hbefore
    omega
  · unfold FreeBlock.Before at hbefore
    omega

/-! ## The comparator and the sort -/

/-- Reference: `__comparator_start_address` (`src/memory_s.c:215`). -/
theorem comparatorStartAddress_eq (hd : d ≠ NULL ∧ blocks d = some fb)
    (he : e ≠ NULL ∧ blocks e = some gb) :
    ∃ r, comparatorStartAddress blocks d e = .ok r ∧
      (r ≤ 0 ↔ fb.startAddress ≤ gb.startAddress) := by
  unfold comparatorStartAddress
  rw [if_neg (not_or.2 ⟨hd.1, he.1⟩), readBlock_eq_ok.2 hd, readBlock_eq_ok.2 he]
  simp only [Outcome.pure_eq, Outcome.ok_bind]
  by_cases hlt : fb.startAddress < gb.startAddress
  · rw [if_pos hlt]
    exact ⟨_, rfl, iff_of_true (by decide) (BitVec.le_of_lt hlt)⟩
  · rw [if_neg hlt]
    by_cases hgt : fb.startAddress > gb.startAddress
    · rw [if_pos hgt]
      exact ⟨_, rfl, iff_of_false (by decide) (BitVec.not_le.2 hgt)⟩
    · rw [if_neg hgt]
      exact ⟨_, rfl, iff_of_true (by decide) (BitVec.not_lt.1 hgt)⟩

/-- The block that a node holds. -/
def FreeList.blockOf (s : FreeList) (x : Addr × VoidPtr) : FreeBlock :=
  (s.blocks x.2).getD ⟨0, 0⟩

/-- The blocks in the order of their starts. -/
def sortBlocks (bs : List FreeBlock) : List FreeBlock :=
  bs.mergeSort fun b c => b.startAddress ≤ c.startAddress

theorem FreeList.Holds.blockOf_eq (hs : s.Holds xs bs) : xs.map s.blockOf = bs := by
  have hblocks := hs.blocks
  clear hs
  induction hblocks with
  | nil => rfl
  | cons hx _ ih => rw [List.map_cons, ih, FreeList.blockOf, hx.2, Option.getD_some]

theorem FreeList.Holds.block (hs : s.Holds xs bs) {x : Addr × VoidPtr} (hx : x ∈ xs) :
    x.2 ≠ NULL ∧ s.blocks x.2 = some (s.blockOf x) := by
  have hblocks := hs.blocks
  rw [← hs.blockOf_eq, List.forall₂_map_right_iff, List.forall₂_same] at hblocks
  exact hblocks x hx

/-- The sort of the nodes is the sort of their blocks. -/
theorem FreeList.Holds.sort (hs : s.Holds xs bs) :
    (xs.mergeSort (nodeLe (startOrder s.blocks))).map s.blockOf = sortBlocks bs := by
  rw [sortBlocks, ← hs.blockOf_eq]
  refine List.map_mergeSort fun x hx y hy => ?_
  obtain ⟨r, hr, hle⟩ := comparatorStartAddress_eq (hs.block hx) (hs.block hy)
  rw [nodeLe, startOrder, hr, decide_eq_decide]
  exact hle

theorem sortBlocks_sorted (bs : List FreeBlock) :
    (sortBlocks bs).Pairwise fun b c => b.startAddress ≤ c.startAddress := by
  refine (List.pairwise_mergeSort ?_ ?_ bs).imp fun hle => of_decide_eq_true hle
  · intro b c d hbc hcd
    simp only [decide_eq_true_eq] at *
    exact BitVec.le_trans hbc hcd
  · intro b c
    simp only [Bool.or_eq_true, decide_eq_true_eq]
    exact BitVec.le_total _ _

theorem sortBlocks_perm (bs : List FreeBlock) : (sortBlocks bs).Perm bs := List.mergeSort_perm _ _

/-- Reference: `merge_sort` (`src/linkedlist.c:7`) with `__comparator_start_address`
(`src/memory_s.c:215`). -/
theorem FreeList.Holds.mergeSort (hs : s.Holds xs bs) (hfuel : xs.length < fuel) :
    ∃ list nodes ys, LinkedList.mergeSort fuel s.list (startOrder s.blocks) s.nodes =
        .ok (list, nodes) ∧
      FreeList.Holds ⟨list, nodes, s.blocks⟩ ys (sortBlocks bs) ∧ ys.Perm xs := by
  obtain ⟨nodes, hsort, hchain, -⟩ :=
    mergeSort_spec (startOrder s.blocks) hs.chain hs.chain.nodup hs.first hfuel
  have hperm := List.mergeSort_perm xs (nodeLe (startOrder s.blocks))
  refine ⟨_, nodes, _, hsort, ⟨hchain, rfl, rfl, ?_, ?_⟩, hperm⟩
  · show s.list.length = _
    rw [hs.length, hperm.length_eq]
  · rw [← hs.sort, List.forall₂_map_right_iff, List.forall₂_same]
    exact fun x hx => hs.block (hperm.mem_iff.1 hx)

/-! ## The walk -/

/-- The node after the cursor is unlinked and freed, whatever the backward links are. Reference:
`__unlink_procedure_of_current` (`src/linkedlist.c:157`). -/
theorem unlinkProcedureOfCurrent_next (hchain : Chain h ((a, d) :: (b, e) :: zs) none)
    (l : LinkedlistStructure) :
    ∃ r l' h', unlinkProcedureOfCurrent l (some a) (some b) h = .ok (r, l', h') ∧ h' b = none := by
  have hnodup := hchain.nodup
  obtain ⟨⟨p, ha⟩, ⟨q, hb⟩, hzs⟩ := hchain
  rw [addrs_cons, addrs_cons, List.nodup_cons, List.nodup_cons] at hnodup
  obtain ⟨haNotin, hbNotin, -⟩ := hnodup
  have hba : b ≠ a := by
    rintro rfl
    exact haNotin List.mem_cons_self
  have hb₁ : setNext h a (front zs none) b = some ⟨front zs none, q, e⟩ := by
    rw [setNext_of_ne _ hba, hb]
  have hfree {h₂ : LinkedList.Heap} (hb₂ : h₂ b = some ⟨front zs none, q, e⟩) :
      freeNode h₂ (some b) = .ok (Function.update h₂ b none) := freeNode_eq hb₂
  unfold unlinkProcedureOfCurrent
  simp only [readNode_eq hb, Outcome.ok_bind, unlinkPrev, writeNext_eq ha, Outcome.pure_eq,
    readNode_eq hb₁]
  cases zs with
  | nil =>
    have hfreed : freeNode (setNext h a none) (some b) = _ := hfree hb₁
    simp only [front_nil, unlinkNext, Outcome.pure_eq, Outcome.ok_bind, hfreed]
    exact ⟨_, _, _, rfl, Function.update_self ..⟩
  | cons z zs =>
    obtain ⟨⟨q', hz⟩, -⟩ := hzs
    have hza : z.1 ≠ a := by
      rintro rfl
      exact haNotin (List.mem_cons_of_mem _ List.mem_cons_self)
    have hbz : b ≠ z.1 := by
      rintro rfl
      exact hbNotin List.mem_cons_self
    have hz₁ := (setNext_of_ne (h := h) (front (z :: zs) none) hza).trans hz
    have hb₂ := (setPrev_of_ne (some a) hbz).trans hb₁
    rw [front_cons] at hz₁ hb₂ ⊢
    simp only [unlinkNext, writePrev_eq hz₁, Outcome.pure_eq, Outcome.ok_bind]
    rw [show freeNode _ (some b) = _ from hfree hb₂]
    exact ⟨_, _, _, rfl, Function.update_self ..⟩

/-- The node is freed twice. Reference: `__optimize_free_block_list` (`src/memory_s.c:249`). -/
theorem FreeList.deleteNext_dangling (hchain : Chain s.nodes ((a, d) :: (b, e) :: zs) none)
    (hblock : (s.blocks e).isSome) : s.deleteNext a b e = .error .dangling := by
  obtain ⟨r, l', h', hunlink, hfreed⟩ := unlinkProcedureOfCurrent_next hchain s.list
  have hagain : freeNode h' (some b) = .error .dangling := by simp [freeNode, hfreed]
  unfold FreeList.deleteNext freeBlock
  rw [hunlink]
  by_cases hnull : e = NULL
  · simp [hnull, hagain]
  · simp [hnull, hblock, hagain]

/-- What the walk compares. Reference: `__optimize_free_block_list` (`src/memory_s.c:236`). -/
theorem end_succ_ge_iff (hwf : fb.WellFormed) :
    fb.endAddress + 1 ≥ gb.startAddress ↔ ¬ fb.Before gb := by
  obtain ⟨-, hbus⟩ := FreeBlock.wellFormed_iff.1 hwf
  unfold FreeBlock.Before
  bv_omega

/-- Over blocks of which each ends before the next one begins the walk changes nothing; where one
does not it frees a node twice. The induction is on the nodes from the cursor on. Reference:
`__optimize_free_block_list` (`src/memory_s.c:232`). -/
theorem optimizeLoop_spec (hchain : Chain s.nodes xs none)
    (hblocks : xs.Forall₂ (fun x fb => x.2 ≠ NULL ∧ s.blocks x.2 = some fb) bs)
    (hwf : ∀ fb ∈ bs, fb.WellFormed) (hfuel : xs.length < fuel) :
    (bs.IsChain FreeBlock.Before ∧ optimizeLoop fuel s (front xs none) = .ok s) ∨
    (¬ bs.IsChain FreeBlock.Before ∧
      optimizeLoop fuel s (front xs none) = .error .dangling) := by
  induction fuel generalizing xs bs with
  | zero => omega
  | succ fuel ih =>
    cases hblocks with
    | nil => exact .inl ⟨.nil, rfl⟩
    | @cons x fb xs bs hx hblocks =>
      cases hblocks with
      | nil =>
        obtain ⟨p, hnode⟩ := hchain.1
        refine .inl ⟨.singleton _, ?_⟩
        simp [front_cons, front_nil, optimizeLoop, readNode_eq hnode]
      | @cons y gb xs bs hy hblocks =>
        obtain ⟨a, d⟩ := x
        obtain ⟨b, e⟩ := y
        obtain ⟨p, hnode⟩ := hchain.1
        obtain ⟨q, hnext⟩ := hchain.2.1
        obtain ⟨hfb, hrest⟩ := List.forall_mem_cons.1 hwf
        have hround := ih hchain.2 (.cons hy hblocks) hrest (by simpa using hfuel)
        rw [List.isChain_cons_cons]
        simp only [front_cons, optimizeLoop, readNode_eq hnode, readNode_eq hnext, Outcome.ok_bind,
          readBlock_eq_ok.2 hx, readBlock_eq_ok.2 hy]
        by_cases hbefore : fb.Before gb
        · have hapart : ¬ gb.startAddress ≤ fb.endAddress := by
            unfold FreeBlock.Before at hbefore
            bv_omega
          rw [if_neg fun hge => (end_succ_ge_iff hfb).1 hge hbefore, if_neg hapart]
          simpa [hbefore, front_cons] using hround
        · refine .inr ⟨fun h => hbefore h.1, ?_⟩
          let blocks := Function.update s.blocks d (some { fb with endAddress := gb.endAddress })
          have hblock : (blocks e).isSome := by
            by_cases hde : e = d
            · simp [blocks, hde]
            · simp [blocks, Function.update_of_ne hde, hy.2]
          have htwice : FreeList.deleteNext { s with blocks } a b e = .error .dangling :=
            FreeList.deleteNext_dangling hchain hblock
          rw [if_pos ((end_succ_ge_iff hfb).2 hbefore), htwice]
          rfl

end

/-! ## The lists that are coalesced -/

/-- The function does its work on the lists of which any two blocks are apart, and on no other: it
merges no two blocks without freeing a node twice. Reference: `__optimize_free_block_list`
(`src/memory_s.c:227`). -/
theorem optimizeFreeBlockList_coalesces_iff {s : FreeList} {xs : List (Addr × VoidPtr)}
    {bs : List FreeBlock} {fuel : Nat} (hs : s.Holds xs bs) (hwf : ∀ fb ∈ bs, fb.WellFormed)
    (hfuel : xs.length < fuel) : s.Coalesces fuel xs bs ↔ bs.Pairwise FreeBlock.Apart := by
  obtain ⟨list, nodes, ys, hsort, hys, hperm⟩ := hs.mergeSort hfuel
  have hblocks := sortBlocks_perm bs
  have hwf' : ∀ fb ∈ sortBlocks bs, fb.WellFormed := fun fb hfb => hwf fb (hblocks.mem_iff.1 hfb)
  have hiff : bs.Pairwise FreeBlock.Apart ↔ (sortBlocks bs).IsChain FreeBlock.Before := by
    rw [← pairwise_apart_iff hwf' (sortBlocks_sorted bs)]
    exact (hblocks.pairwise_iff Or.symm).symm
  have hloop := optimizeLoop_spec hys.chain hys.blocks hwf'
    (show ys.length < fuel by rwa [hperm.length_eq])
  rw [hiff]
  rcases hloop with ⟨hchain, hrun⟩ | ⟨hchain, hrun⟩
  · refine iff_of_true ⟨⟨list, nodes, s.blocks⟩, ys, sortBlocks bs, ?_, hys, ?_, ?_, ?_, ?_⟩ hchain
    · unfold optimizeFreeBlockList
      rw [hsort, Outcome.ok_bind]
      dsimp only
      rw [hys.first, hrun]
      rfl
    · ext a
      exact exists_congr fun fb => and_congr_left fun _ => hblocks.mem_iff
    · exact sortBlocks_sorted bs
    · have hapart := (pairwise_apart_iff hwf' (sortBlocks_sorted bs)).2 hchain
      refine (pairwise_before_of_isChain hwf' hchain).imp_of_mem fun {b c} hb _ hbefore => ?_
      exact ⟨b.endAddress.toNat + 1, Nat.lt_succ_self _, hbefore,
        notMem_blocksFree hwf' hapart hb⟩
    · intro a ha hleft
      exact absurd ((hperm.map Prod.fst).mem_iff.2 ha) hleft
  · refine iff_of_false ?_ hchain
    intro hcoalesces
    obtain ⟨s', xs', bs', hok, -⟩ := hcoalesces
    unfold optimizeFreeBlockList at hok
    rw [hsort, Outcome.ok_bind] at hok
    dsimp only at hok
    rw [hys.first, hrun] at hok
    cases hok

/-- Two nodes in a row, with their blocks. -/
def twoBlocks (fb gb : FreeBlock) : FreeList where
  list := ⟨some 1, some 2, 2⟩
  nodes a := match a with
    | 1 => some ⟨some 2, none, 16⟩
    | 2 => some ⟨none, some 1, 32⟩
    | _ => none
  blocks p := if p = 16 then some fb else if p = 32 then some gb else none

theorem twoBlocks_holds (fb gb : FreeBlock) :
    (twoBlocks fb gb).Holds [(1, 16), (2, 32)] [fb, gb] :=
  ⟨⟨⟨none, rfl⟩, ⟨some 1, rfl⟩, trivial⟩, rfl, rfl, rfl,
    .cons ⟨by decide, rfl⟩ (.cons ⟨by decide, rfl⟩ .nil)⟩

/-- Two blocks with one address between them, the second one listed first. -/
theorem optimizeFreeBlockList_coalesces_iff_two :
    (twoBlocks ⟨0x1001, 0x1FFF⟩ ⟨0, 0xFFF⟩).Coalesces 3 [(1, 16), (2, 32)]
      [⟨0x1001, 0x1FFF⟩, ⟨0, 0xFFF⟩] :=
  (optimizeFreeBlockList_coalesces_iff (twoBlocks_holds _ _) (by decide) (by decide)).2
    (List.pairwise_pair.2 (.inr (by decide)))

/-- Two adjacent blocks, and two blocks of which one holds the other: the node of the second block
is freed twice. -/
theorem optimizeFreeBlockList_not_coalesces :
    (twoBlocks ⟨0, 0xFFF⟩ ⟨0x1000, 0x1FFF⟩).Holds [(1, 16), (2, 32)]
      [⟨0, 0xFFF⟩, ⟨0x1000, 0x1FFF⟩] ∧
    optimizeFreeBlockList 3 (twoBlocks ⟨0, 0xFFF⟩ ⟨0x1000, 0x1FFF⟩) = .error .dangling ∧
    ¬ (twoBlocks ⟨0, 0xFFF⟩ ⟨0x1000, 0x1FFF⟩).Coalesces 3 [(1, 16), (2, 32)]
      [⟨0, 0xFFF⟩, ⟨0x1000, 0x1FFF⟩] ∧
    optimizeFreeBlockList 3 (twoBlocks ⟨0, 0xFFF⟩ ⟨0x10, 0x1F⟩) = .error .dangling := by
  have hadjacent : optimizeFreeBlockList 3 (twoBlocks ⟨0, 0xFFF⟩ ⟨0x1000, 0x1FFF⟩) =
      .error .dangling := by rfl
  refine ⟨twoBlocks_holds _ _, hadjacent, ?_, by rfl⟩
  intro hcoalesces
  obtain ⟨s', xs', bs', hok, -⟩ := hcoalesces
  rw [hadjacent] at hok
  cases hok

end SeKernel
