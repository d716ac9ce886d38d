import SeKernel.Lib.Owned
import SeKernel.LinkedList.Refinement
import SeKernel.Memory.Room

/-!
# Carving a range out of a block

`__pm_memory_allocation_procedure` takes the block that its search finds and pushes back what the
block has before and after the range handed out, the latter in the object of the block itself. Here
the list holds the pointers of the blocks and the blocks stand in a heap, because the pointer of the
block comes out of `linkedlist_pop_first_match_from_rear` through an `int`: the procedure works on
the block that left the list only when its pointer survives that (`carves_iff`).
-/

namespace SeKernel

open LinkedList (VoidPtr NULL throughInt)

/-- The free list of a `struct physical_memory` (`headers/memory_s.h:34`) with the
`struct free_block`s that its data point to. -/
structure BlockMemory where
  heap : VoidPtr → Option FreeBlock
  freeBlocks : List VoidPtr

/-- `linkedlist_pop_first_match_from_rear` on the sequence of the data
(`linkedlistPopFirstMatchFromRear_popMatch`). -/
def popMatch (datas : List VoidPtr) (p : VoidPtr → Bool) : VoidPtr × List VoidPtr :=
  let (found, rest) := Seq.linkedlistPopFirstMatchFromRear datas p
  ((found.map throughInt).getD NULL, rest)

/-- `__search_space` (`src/memory_s.c:33`) on a pointer: `NULL` does not match. -/
def searchSpaceAt (heap : VoidPtr → Option FreeBlock) (args : FreeBlockSearchArgs) (p : VoidPtr) :
    Bool :=
  match heap p with
  | none => false
  | some fb => searchSpace fb args

/-- The block behind a pointer. -/
def readBlock (heap : VoidPtr → Option FreeBlock) (p : VoidPtr) : Outcome FreeBlock :=
  if p = NULL then throw .nullDeref
  else match heap p with
    | none => throw .dangling
    | some fb => pure fb

/-- `malloc` answering with `p`, and the assignments that fill the new block. -/
def mallocBlock (heap : VoidPtr → Option FreeBlock) (p : VoidPtr) (fb : FreeBlock) :
    Outcome (VoidPtr → Option FreeBlock) :=
  if p = NULL then throw .nullDeref
  else if (heap p).isSome then throw .mallocInUse
  else pure (Function.update heap p (some fb))

/-- The part of the block before the limits, pushed in a new object. Reference:
`__pm_memory_allocation_procedure` (`src/memory_s.c:193`). -/
def BlockMemory.pushBefore (s : BlockMemory) (fb : FreeBlock) (request : FreeBlockSearchArgs)
    (new : VoidPtr) : Outcome BlockMemory :=
  if fb.startAddress < request.startLimitAddress then do
    let heap ← mallocBlock s.heap new ⟨fb.startAddress, request.startLimitAddress - 1⟩
    pure ⟨heap, Seq.linkedlistPush s.freeBlocks new⟩
  else pure s

/-- The new start is written to the block, which is pushed if it has addresses left and freed if
not. Reference: `__pm_memory_allocation_procedure` (`src/memory_s.c:204`). -/
def BlockMemory.pushAfter (s : BlockMemory) (p : VoidPtr) (fb : FreeBlock) : BlockMemory :=
  if fb.startAddress ≤ fb.endAddress then
    ⟨Function.update s.heap p (some fb), Seq.linkedlistPush s.freeBlocks p⟩
  else ⟨Function.update s.heap p none, s.freeBlocks⟩

/-- `start_resulting_address`. Reference: `__pm_memory_allocation_procedure`
(`src/memory_s.c:192`). -/
def startResultingAddress (fb : FreeBlock) (request : FreeBlockSearchArgs) : Word :=
  if fb.startAddress < request.startLimitAddress then request.startLimitAddress else fb.startAddress

/-- The return value, the address returned through `ret_address`, and the memory. `request` and
`ret_address` are the pointers of objects, and `malloc` answers with `new`. Reference:
`__pm_memory_allocation_procedure` (`src/memory_s.c:186`). -/
def pmMemoryAllocationProcedure (s : BlockMemory) (request : FreeBlockSearchArgs) (new : VoidPtr) :
    Outcome (Int × Word × BlockMemory) := do
  let (p, freeBlocks) := popMatch s.freeBlocks (searchSpaceAt s.heap request)
  if p = NULL then
    throw (.err 1 "__pm_memory_allocation_procedure: invalid arguments")
  else
    let fb ← readBlock s.heap p
    let start := startResultingAddress fb request
    let s ← BlockMemory.pushBefore ⟨s.heap, freeBlocks⟩ fb request new
    return (0, start, s.pushAfter p { fb with startAddress := start + request.minAddressKon })

/-! ## What carving is for -/

/-- The blocks of the list. -/
def BlockMemory.blocks (s : BlockMemory) : List FreeBlock := Owned.contents s.heap s.freeBlocks

/-- The addresses that some free block holds. -/
def BlockMemory.free (s : BlockMemory) : Set Nat := {a | ∃ fb ∈ s.blocks, a ∈ fb.region}

/-- The list holds each block once, no address is free twice, and no block stands at `NULL`. -/
structure BlockMemory.WellFormed (s : BlockMemory) : Prop where
  null : s.heap NULL = none
  owns : Owned.Owns s.heap s.freeBlocks
  wellFormed : ∀ fb ∈ s.blocks, fb.WellFormed
  disjoint : (s.blocks.map FreeBlock.region).Pairwise Disjoint

/-- The range of `min_address_kon` addresses from `address`, within the limits, has left the free
set and nothing else has; the blocks other than the one at `p` are as they were. -/
structure BlockMemory.Carves (s : BlockMemory) (args : FreeBlockSearchArgs) (p : VoidPtr)
    (address : Word) (s' : BlockMemory) : Prop where
  fits : args.startLimitAddress.toNat ≤ address.toNat ∧
    address.toNat + args.minAddressKon.toNat ≤ args.endLimitAddress.toNat + 1
  wasFree : Set.Ico address.toNat (address.toNat + args.minAddressKon.toNat) ⊆ s.free
  wellFormed : s'.WellFormed
  free : s'.free = s.free \ Set.Ico address.toNat (address.toNat + args.minAddressKon.toNat)
  untouched : ∀ q ∈ s.freeBlocks, q ≠ p → q ∈ s'.freeBlocks ∧ s'.heap q = s.heap q

section

variable {fb b : FreeBlock} {args : FreeBlockSearchArgs}

/-! ## The parts of a block -/

/-- What the block has before the limits. -/
def FreeBlock.before (fb : FreeBlock) (args : FreeBlockSearchArgs) : List FreeBlock :=
  if fb.startAddress < args.startLimitAddress then
    [⟨fb.startAddress, args.startLimitAddress - 1⟩]
  else []

/-- What the block has after the range handed out. -/
def FreeBlock.after (fb : FreeBlock) (args : FreeBlockSearchArgs) : List FreeBlock :=
  if startResultingAddress fb args + args.minAddressKon ≤ fb.endAddress then
    [⟨startResultingAddress fb args + args.minAddressKon, fb.endAddress⟩]
  else []

/-- The range handed out lies in the block and within the limits, and no sum wraps around. -/
theorem startResultingAddress_toNat (hfb : fb.WellFormed) (hargs : args.Valid)
    (hroom : args.minAddressKon.toNat ≤ fb.overlap args) :
    (startResultingAddress fb args).toNat = max fb.startAddress.toNat args.startLimitAddress.toNat ∧
    (startResultingAddress fb args + args.minAddressKon).toNat =
      (startResultingAddress fb args).toNat + args.minAddressKon.toNat ∧
    (startResultingAddress fb args).toNat + args.minAddressKon.toNat ≤ fb.endAddress.toNat + 1 ∧
    (startResultingAddress fb args).toNat + args.minAddressKon.toNat ≤
      args.endLimitAddress.toNat + 1 := by
  obtain ⟨horder, hbus⟩ := FreeBlock.wellFormed_iff.1 hfb
  obtain ⟨hkon, hle, hlimit⟩ := hargs
  have hstart : (startResultingAddress fb args).toNat =
      max fb.startAddress.toNat args.startLimitAddress.toNat := by
    unfold startResultingAddress
    split <;> bv_omega
  unfold FreeBlock.overlap at hroom
  rw [BitVec.toNat_add, hstart]
  omega

theorem FreeBlock.mem_before : b ∈ fb.before args ↔
    fb.startAddress < args.startLimitAddress ∧ b =
      ⟨fb.startAddress, args.startLimitAddress - 1⟩ := by
  unfold FreeBlock.before
  split <;> simp [*]

theorem FreeBlock.mem_after : b ∈ fb.after args ↔
    startResultingAddress fb args + args.minAddressKon ≤ fb.endAddress ∧
      b = ⟨startResultingAddress fb args + args.minAddressKon, fb.endAddress⟩ := by
  unfold FreeBlock.after
  split <;> simp [*]

/-- The addresses handed out. -/
def carvedRange (fb : FreeBlock) (args : FreeBlockSearchArgs) : Set Nat :=
  Set.Ico (startResultingAddress fb args).toNat
    ((startResultingAddress fb args).toNat + args.minAddressKon.toNat)

theorem carvedRange_subset (hfb : fb.WellFormed) (hargs : args.Valid)
    (hroom : args.minAddressKon.toNat ≤ fb.overlap args) : carvedRange fb args ⊆ fb.region := by
  obtain ⟨hstart, -, hend, -⟩ := startResultingAddress_toNat hfb hargs hroom
  intro a ha
  rw [carvedRange, Set.mem_Ico] at ha
  rw [FreeBlock.mem_region]
  omega

/-- The part before the limits is a block of the addresses before the range. -/
theorem FreeBlock.region_before (hfb : fb.WellFormed) (hargs : args.Valid)
    (hroom : args.minAddressKon.toNat ≤ fb.overlap args) (hb : b ∈ fb.before args) :
    b.WellFormed ∧ b.region =
      Set.Ico fb.startAddress.toNat (startResultingAddress fb args).toNat := by
  obtain ⟨horder, hbus⟩ := FreeBlock.wellFormed_iff.1 hfb
  obtain ⟨hstart, -, hend, -⟩ := startResultingAddress_toNat hfb hargs hroom
  have hkon := hargs.kon
  obtain ⟨hlt, rfl⟩ := FreeBlock.mem_before.1 hb
  have hlast : (args.startLimitAddress - 1).toNat = args.startLimitAddress.toNat - 1 := by bv_omega
  have hmax : (startResultingAddress fb args).toNat = args.startLimitAddress.toNat := by bv_omega
  constructor
  · rw [FreeBlock.wellFormed_iff]
    bv_omega
  · ext a
    rw [FreeBlock.mem_region, hlast, hmax, Set.mem_Ico]
    bv_omega

/-- The part after the range is a block of the addresses after it. -/
theorem FreeBlock.region_after (hfb : fb.WellFormed) (hargs : args.Valid)
    (hroom : args.minAddressKon.toNat ≤ fb.overlap args) (hb : b ∈ fb.after args) :
    b.WellFormed ∧ b.region =
      Set.Icc ((startResultingAddress fb args).toNat + args.minAddressKon.toNat)
        fb.endAddress.toNat := by
  obtain ⟨-, hsum, -, -⟩ := startResultingAddress_toNat hfb hargs hroom
  obtain ⟨hle, rfl⟩ := FreeBlock.mem_after.1 hb
  exact ⟨⟨hle, hfb.2⟩, by rw [FreeBlock.region, hsum]⟩

theorem FreeBlock.cover_before (hfb : fb.WellFormed) (hargs : args.Valid)
    (hroom : args.minAddressKon.toNat ≤ fb.overlap args) :
    Regions.cover ((fb.before args).map FreeBlock.region) =
      Set.Ico fb.startAddress.toNat (startResultingAddress fb args).toNat := by
  by_cases hlt : fb.startAddress < args.startLimitAddress
  · have hregion := (fb.region_before hfb hargs hroom (FreeBlock.mem_before.2 ⟨hlt, rfl⟩)).2
    rw [FreeBlock.before, if_pos hlt, List.map_singleton, hregion]
    simp
  · rw [FreeBlock.before, if_neg hlt, startResultingAddress, if_neg hlt]
    simp

theorem FreeBlock.cover_after (hfb : fb.WellFormed) (hargs : args.Valid)
    (hroom : args.minAddressKon.toNat ≤ fb.overlap args) :
    Regions.cover ((fb.after args).map FreeBlock.region) =
      Set.Icc ((startResultingAddress fb args).toNat + args.minAddressKon.toNat)
        fb.endAddress.toNat := by
  by_cases hle : startResultingAddress fb args + args.minAddressKon ≤ fb.endAddress
  · have hregion := (fb.region_after hfb hargs hroom (FreeBlock.mem_after.2 ⟨hle, rfl⟩)).2
    rw [FreeBlock.after, if_pos hle, List.map_singleton, hregion]
    simp
  · obtain ⟨-, hsum, -, -⟩ := startResultingAddress_toNat hfb hargs hroom
    rw [FreeBlock.after, if_neg hle, Set.Icc_eq_empty]
    · simp
    · rwa [← hsum, ← BitVec.le_def]

/-- The parts are what the block has outside the range. -/
theorem FreeBlock.cover_parts (hfb : fb.WellFormed) (hargs : args.Valid)
    (hroom : args.minAddressKon.toNat ≤ fb.overlap args) :
    Regions.cover ((fb.before args ++ fb.after args).map FreeBlock.region) =
      fb.region \ carvedRange fb args := by
  obtain ⟨hstart, -, hend, -⟩ := startResultingAddress_toNat hfb hargs hroom
  rw [List.map_append, Regions.cover_append, fb.cover_before hfb hargs hroom,
    fb.cover_after hfb hargs hroom]
  ext a
  simp only [carvedRange, FreeBlock.mem_region, Set.mem_union, Set.mem_sdiff, Set.mem_Ico,
    Set.mem_Icc]
  omega

/-- The parts are well formed and lie in the block. -/
theorem FreeBlock.parts_wellFormed (hfb : fb.WellFormed) (hargs : args.Valid)
    (hroom : args.minAddressKon.toNat ≤ fb.overlap args)
    (hb : b ∈ fb.before args ++ fb.after args) :
    b.WellFormed ∧ b.region ⊆ fb.region := by
  constructor
  · rcases List.mem_append.1 hb with hb | hb
    · exact (fb.region_before hfb hargs hroom hb).1
    · exact (fb.region_after hfb hargs hroom hb).1
  · intro a ha
    have hcover : a ∈ Regions.cover ((fb.before args ++ fb.after args).map FreeBlock.region) :=
      ⟨b.region, List.mem_map_of_mem hb, ha⟩
    rw [fb.cover_parts hfb hargs hroom] at hcover
    exact hcover.1

/-- The parts lie on the two sides of the range. -/
theorem FreeBlock.parts_disjoint (hfb : fb.WellFormed) (hargs : args.Valid)
    (hroom : args.minAddressKon.toNat ≤ fb.overlap args) :
    ((fb.before args ++ fb.after args).map FreeBlock.region).Pairwise Disjoint := by
  rw [List.map_append, List.pairwise_append]
  refine ⟨?_, ?_, ?_⟩
  · unfold FreeBlock.before
    split <;> simp
  · unfold FreeBlock.after
    split <;> simp
  · intro A hA B hB
    obtain ⟨b, hb, rfl⟩ := List.mem_map.1 hA
    obtain ⟨c, hc, rfl⟩ := List.mem_map.1 hB
    rw [(fb.region_before hfb hargs hroom hb).2, (fb.region_after hfb hargs hroom hc).2,
      Set.disjoint_left]
    intro a ha hac
    rw [Set.mem_Ico] at ha
    rw [Set.mem_Icc] at hac
    omega

end

/-! ## Access to the list and the blocks -/

section

variable {heap : VoidPtr → Option FreeBlock} {p : VoidPtr} {fb : FreeBlock}

/-- The pointer that comes out over the list's heap is the one of `popMatch`. Reference:
`linkedlist_pop_first_match_from_rear` (`src/linkedlist.c:129`). -/
theorem linkedlistPopFirstMatchFromRear_popMatch {h : LinkedList.Heap}
    {l : LinkedList.LinkedlistStructure} {xs : List (LinkedList.Addr × VoidPtr)}
    {fuel : Nat} (hr : LinkedList.Represents h l xs) (hfuel : xs.length < fuel)
    (matchFn : VoidPtr → VoidPtr → Int) (args : VoidPtr) :
    ∃ l' h' xs', LinkedList.linkedlistPopFirstMatchFromRear fuel l h matchFn args =
        .ok ((popMatch (Doubly.datas xs) (LinkedList.isMatch matchFn args)).1, l', h') ∧
      LinkedList.Represents h' l' xs' ∧
      Doubly.datas xs' = (popMatch (Doubly.datas xs) (LinkedList.isMatch matchFn args)).2 :=
  LinkedList.linkedlistPopFirstMatchFromRear_spec hr hfuel matchFn args

theorem popMatch_first {datas : List VoidPtr} {f : VoidPtr → Bool}
    (hfirst : datas.find? f = some p) :
    ∃ l₁ l₂, datas = l₁ ++ p :: l₂ ∧ popMatch datas f = (throughInt p, l₁ ++ l₂) := by
  obtain ⟨hmatch, l₁, l₂, rfl, hno⟩ := List.find?_eq_some_iff_append.1 hfirst
  have hsplit := LinkedList.find?_of_split l₂ (fun q hq => by simpa using hno q hq) hmatch
  refine ⟨l₁, l₂, rfl, ?_⟩
  rw [popMatch, Seq.linkedlistPopFirstMatchFromRear, hsplit.1, hsplit.2]
  rfl

theorem readBlock_eq_ok : readBlock heap p = .ok fb ↔ p ≠ NULL ∧ heap p = some fb := by
  unfold readBlock
  split
  · simp_all
  · cases heap p <;> simp_all

theorem mallocBlock_fresh (hp : heap p = none) (hnull : p ≠ NULL) :
    mallocBlock heap p fb = .ok (Function.update heap p (some fb)) := by
  rw [mallocBlock, if_neg hnull, hp]
  rfl

end

/-! ## Adding blocks to the list -/

theorem BlockMemory.free_eq_cover (s : BlockMemory) :
    s.free = Regions.cover (s.blocks.map FreeBlock.region) := by
  ext a
  simp [BlockMemory.free, Regions.cover]

/-- `t'` holds the blocks of `t` where they were, and the blocks `added` after them. -/
structure BlockMemory.Extends (t t' : BlockMemory) (added : List FreeBlock) : Prop where
  null : t'.heap NULL = none
  owns : Owned.Owns t'.heap t'.freeBlocks
  blocks : t'.blocks = t.blocks ++ added
  kept : ∀ q ∈ t.freeBlocks, q ∈ t'.freeBlocks ∧ t'.heap q = t.heap q

section

variable {s s' t t' : BlockMemory} {added : List FreeBlock} {p new : VoidPtr} {fb : FreeBlock}
  {args : FreeBlockSearchArgs}

theorem BlockMemory.Extends.refl (hnull : t.heap NULL = none)
    (howns : Owned.Owns t.heap t.freeBlocks) :
    t.Extends t [] :=
  ⟨hnull, howns, (List.append_nil _).symm, fun _ hq => ⟨hq, rfl⟩⟩

/-- One more block at a fresh pointer. -/
theorem BlockMemory.Extends.push (h : t.Extends t' added) (howns : Owned.Owns t.heap t.freeBlocks)
    (hfresh : t.heap p = none) (hp : t'.heap p = none) (hnull : p ≠ NULL) (fb : FreeBlock) :
    t.Extends ⟨Function.update t'.heap p (some fb), t'.freeBlocks ++ [p]⟩ (added ++ [fb]) := by
  refine ⟨?_, h.owns.add hp fb, ?_, ?_⟩
  · rw [← h.null]
    exact Function.update_of_ne hnull.symm _ _
  · rw [← List.append_assoc, ← h.blocks]
    exact h.owns.contents_add hp fb
  · intro q hq
    obtain ⟨hq', hheap⟩ := h.kept q hq
    refine ⟨List.mem_append_left _ hq', ?_⟩
    rw [← hheap]
    exact Function.update_of_ne (ne_of_mem_of_not_mem hq (howns.notMem hfresh)) _ _

/-- Pushing the part before the limits, while the block itself stands at `p`. -/
theorem BlockMemory.pushBefore_extends (howns : Owned.Owns t.heap t.freeBlocks)
    (hnull : t.heap NULL = none) (hp : t.heap p = none) (hnew : t.heap new = none) (hne : new ≠ p)
    (hnewNull : new ≠ NULL) (fb : FreeBlock) (args : FreeBlockSearchArgs) (o : Option FreeBlock) :
    ∃ t', BlockMemory.pushBefore ⟨Function.update t.heap p o, t.freeBlocks⟩ fb args new =
        .ok ⟨Function.update t'.heap p o, t'.freeBlocks⟩ ∧
      t.Extends t' (fb.before args) ∧ t'.heap p = none := by
  unfold BlockMemory.pushBefore FreeBlock.before
  by_cases hlt : fb.startAddress < args.startLimitAddress
  · have hfresh : Function.update t.heap p o new = none := by rw [Function.update_of_ne hne, hnew]
    rw [if_pos hlt, if_pos hlt, mallocBlock_fresh hfresh hnewNull, Function.update_comm hne.symm]
    refine ⟨_, rfl, (BlockMemory.Extends.refl hnull howns).push howns hnew hnew hnewNull _, ?_⟩
    rw [← hp]
    exact Function.update_of_ne hne.symm _ _
  · rw [if_neg hlt, if_neg hlt]
    exact ⟨t, rfl, .refl hnull howns, hp⟩

/-- Pushing the part after the range in the object of the block, or freeing that object. -/
theorem BlockMemory.Extends.pushAfter (h : t.Extends t' added)
    (howns : Owned.Owns t.heap t.freeBlocks)
    (hfresh : t.heap p = none) (hp : t'.heap p = none) (hnull : p ≠ NULL) (o : Option FreeBlock)
    (fb : FreeBlock) :
    t.Extends (BlockMemory.pushAfter ⟨Function.update t'.heap p o, t'.freeBlocks⟩ p fb)
      (added ++ if fb.startAddress ≤ fb.endAddress then [fb] else []) := by
  unfold BlockMemory.pushAfter
  split
  · rw [Function.update_idem]
    exact h.push howns hfresh hp hnull fb
  · rw [Function.update_idem, ← hp, Function.update_eq_self, List.append_nil]
    exact h

/-- The object of the block holds the block with its new start, or is freed. -/
theorem BlockMemory.pushAfter_heap (s : BlockMemory) (p : VoidPtr) (fb : FreeBlock) :
    (s.pushAfter p fb).heap p = some fb ∨ (s.pushAfter p fb).heap p = none := by
  unfold BlockMemory.pushAfter
  split
  · exact .inl (Function.update_self _ _ _)
  · exact .inr (Function.update_self _ _ _)

/-- Exchanging a block for its parts carves the range out. -/
theorem BlockMemory.Extends.carves (h : t.Extends s' (fb.before args ++ fb.after args))
    (hs : s.WellFormed) (hargs : args.Valid)
    (hroom : args.minAddressKon.toNat ≤ fb.overlap args)
    (hblocks : s.blocks.Perm (fb :: t.blocks))
    (hrest : ∀ q ∈ s.freeBlocks, q ≠ p → q ∈ t.freeBlocks ∧ t.heap q = s.heap q) :
    s.Carves args p (startResultingAddress fb args) s' := by
  have hfb : fb.WellFormed := hs.wellFormed fb (hblocks.mem_iff.2 List.mem_cons_self)
  have hsub := carvedRange_subset hfb hargs hroom
  have hold : (s.blocks.map FreeBlock.region).Perm (fb.region :: t.blocks.map FreeBlock.region) :=
    hblocks.map FreeBlock.region
  have hdisj := Regions.pairwise_perm hold hs.disjoint
  have hnew : (s'.blocks.map FreeBlock.region).Perm
      ((fb.before args ++ fb.after args).map FreeBlock.region ++
        t.blocks.map FreeBlock.region) := by
    rw [h.blocks, List.map_append]
    exact List.perm_append_comm
  constructor
  case fits =>
    obtain ⟨hstart, -, -, hlimit⟩ := startResultingAddress_toNat hfb hargs hroom
    omega
  case wasFree =>
    intro a ha
    exact ⟨fb, hblocks.mem_iff.2 List.mem_cons_self, hsub ha⟩
  case wellFormed =>
    refine ⟨h.null, h.owns, ?_, ?_⟩
    · intro b hb
      rw [h.blocks] at hb
      rcases List.mem_append.1 hb with hb | hb
      · exact hs.wellFormed b (hblocks.mem_iff.2 (List.mem_cons_of_mem _ hb))
      · exact (fb.parts_wellFormed hfb hargs hroom hb).1
    · refine Regions.pairwise_perm hnew.symm (Regions.pairwise_replace hdisj
        (fb.parts_disjoint hfb hargs hroom) ?_)
      intro P hP
      obtain ⟨b, hb, rfl⟩ := List.mem_map.1 hP
      exact (fb.parts_wellFormed hfb hargs hroom hb).2
  case free =>
    rw [s'.free_eq_cover, s.free_eq_cover, Regions.cover_perm hnew, Regions.cover_perm hold]
    exact Regions.cover_replace hdisj (fb.cover_parts hfb hargs hroom) hsub
  case untouched =>
    intro q hq hne
    obtain ⟨hmem, hheap⟩ := hrest q hq hne
    obtain ⟨hmem', hheap'⟩ := h.kept q hmem
    exact ⟨hmem', hheap'.trans hheap⟩

end

section

variable {s s' : BlockMemory} {p new : VoidPtr} {fb : FreeBlock} {args : FreeBlockSearchArgs}

/-- When the pointer survives, the procedure carves. -/
theorem pmMemoryAllocationProcedure_carves (hs : s.WellFormed) (hargs : args.Valid)
    (hfirst : s.freeBlocks.find? (searchSpaceAt s.heap args) = some p) (hp : s.heap p = some fb)
    (hroom : args.minAddressKon.toNat ≤ fb.overlap args) (hnew : s.heap new = none)
    (hnewNull : new ≠ NULL) (hint : throughInt p = p) :
    ∃ s', pmMemoryAllocationProcedure s args new = .ok (0, startResultingAddress fb args, s') ∧
      s.Carves args p (startResultingAddress fb args) s' := by
  obtain ⟨l₁, l₂, hlist, hpop⟩ := popMatch_first hfirst
  have hnull : p ≠ NULL := by
    rintro rfl
    simp [hs.null] at hp
  have howns := hlist ▸ hs.owns
  -- the list without the block
  let t : BlockMemory := ⟨Function.update s.heap p none, l₁ ++ l₂⟩
  have ht : Owned.Owns t.heap t.freeBlocks := howns.remove
  have htp : t.heap p = none := Function.update_self _ _ _
  have hheap : Function.update t.heap p (some fb) = s.heap := by
    rw [Function.update_idem, ← hp, Function.update_eq_self]
  have hne : new ≠ p := by
    rintro rfl
    simp [hnew] at hp
  obtain ⟨t', hbefore, hextends, htp'⟩ := BlockMemory.pushBefore_extends ht
    ((Function.update_of_ne hnull.symm _ _).trans hs.null) htp
    ((Function.update_of_ne hne _ _).trans hnew) hne hnewNull fb args (some fb)
  rw [hheap] at hbefore
  have hafter := hextends.pushAfter ht htp htp' hnull (some fb)
    { fb with startAddress := startResultingAddress fb args + args.minAddressKon }
  refine ⟨_, ?_, hafter.carves hs hargs hroom ?_ ?_⟩
  · rw [pmMemoryAllocationProcedure, hpop, hint]
    dsimp only
    rw [if_neg hnull, readBlock_eq_ok.2 ⟨hnull, hp⟩, Outcome.ok_bind, hbefore]
    rfl
  · have := howns.contents_remove hp
    rwa [← hlist] at this
  · intro q hq hqp
    rw [hlist] at hq
    refine ⟨?_, Function.update_of_ne hqp _ _⟩
    show q ∈ l₁ ++ l₂
    simpa [hqp] using hq

/-- The block whose pointer comes out of the search does not keep its contents. -/
theorem pmMemoryAllocationProcedure_changes (hs : s.WellFormed) (hargs : args.Valid)
    (hfirst : s.freeBlocks.find? (searchSpaceAt s.heap args) = some p) {ret : Int} {address : Word}
    (hsmall : args.minAddressKon.toNat ≤ 2 ^ 24)
    (hproc : pmMemoryAllocationProcedure s args new = .ok (ret, address, s')) :
    ∃ fb, s.heap (throughInt p) = some fb ∧ s'.heap (throughInt p) ≠ some fb := by
  obtain ⟨l₁, l₂, hlist, hpop⟩ := popMatch_first hfirst
  rw [pmMemoryAllocationProcedure, hpop] at hproc
  dsimp only at hproc
  split at hproc
  · cases hproc
  obtain ⟨fb, hread, hproc⟩ := Outcome.bind_eq_ok.1 hproc
  obtain ⟨t, -, hret⟩ := Outcome.bind_eq_ok.1 hproc
  obtain ⟨hnull, hheap⟩ := readBlock_eq_ok.1 hread
  have hfb : fb.WellFormed := hs.wellFormed fb (Owned.mem_contents.2 ⟨_, hs.owns.mem hheap, hheap⟩)
  obtain ⟨horder, hbus⟩ := FreeBlock.wellFormed_iff.1 hfb
  refine ⟨fb, hheap, ?_⟩
  cases hret
  intro hsame
  have hcases := t.pushAfter_heap (throughInt p)
    { fb with startAddress := startResultingAddress fb args + args.minAddressKon }
  rcases hcases with hpushed | hfreed
  · -- the start has grown
    have hstart : startResultingAddress fb args + args.minAddressKon = fb.startAddress :=
      congrArg FreeBlock.startAddress (Option.some.inj (hpushed.symm.trans hsame))
    obtain ⟨hkon, hle, hlimit⟩ := hargs
    unfold startResultingAddress at hstart
    split at hstart <;> bv_omega
  · cases hfreed.symm.trans hsame

/-- On a well-formed list the procedure carves the range out of the first block that the search
accepts if and only if the pointer of that block is the same after a conversion to `int` and back.
Reference: `__pm_memory_allocation_procedure` (`src/memory_s.c:186`),
`linkedlist_pop_first_match_from_rear` (`src/linkedlist.c:129`). -/
theorem carves_iff (hs : s.WellFormed) (hargs : args.Valid)
    (hfirst : s.freeBlocks.find? (searchSpaceAt s.heap args) = some p) (hp : s.heap p = some fb)
    (hroom : args.minAddressKon.toNat ≤ fb.overlap args) (hnew : s.heap new = none)
    (hnewNull : new ≠ NULL) :
    (∃ address s', pmMemoryAllocationProcedure s args new = .ok (0, address, s') ∧
      s.Carves args p address s') ↔ throughInt p = p := by
  constructor
  · intro h
    obtain ⟨address, s', hproc, hcarves⟩ := h
    by_contra hne
    obtain ⟨fb', hheap, hchanged⟩ := pmMemoryAllocationProcedure_changes hs hargs hfirst
      (hroom.trans (fb.overlap_le hargs)) hproc
    have hkept := hcarves.untouched _ (hs.owns.mem hheap) hne
    exact hchanged (hkept.2.trans hheap)
  · intro hint
    obtain ⟨s', hproc, hcarves⟩ := pmMemoryAllocationProcedure_carves hs hargs hfirst hp hroom hnew
      hnewNull hint
    exact ⟨_, s', hproc, hcarves⟩

end

/-- The list that `pmemo_init` builds, its block at `p`. Reference: `pmemo_init`
(`src/memory_s.c:318`). -/
def pmemoInitBlocks (p : VoidPtr) : BlockMemory :=
  ⟨Function.update (fun _ => none) p (some ⟨kernelSpaceStartAddress, memSpaceEndAddress⟩),
    Seq.linkedlistPush [] p⟩

theorem pmemoInitBlocks_wellFormed {p : VoidPtr} (hnull : p ≠ NULL) :
    (pmemoInitBlocks p).WellFormed := by
  have howns : Owned.Owns (fun _ : VoidPtr => (none : Option FreeBlock)) [] :=
    ⟨List.nodup_nil, by simp⟩
  have hblocks : (pmemoInitBlocks p).blocks = [⟨kernelSpaceStartAddress, memSpaceEndAddress⟩] :=
    howns.contents_add rfl _
  refine ⟨Function.update_of_ne hnull.symm _ (fun _ => none), howns.add rfl _, ?_, ?_⟩
  · rw [hblocks]
    decide
  · rw [hblocks]
    exact List.pairwise_singleton _ _

/-- A frame out of the memory that `pmemo_init` sets up, with a block below 2^31. -/
theorem carves_iff_init : ∃ address s',
    pmMemoryAllocationProcedure (pmemoInitBlocks 0x1000) ⟨0x400000, 0xFFFFFF, 256⟩ 0x2000 =
      .ok (0, address, s') ∧
    (pmemoInitBlocks 0x1000).Carves ⟨0x400000, 0xFFFFFF, 256⟩ 0x1000 address s' :=
  (carves_iff (pmemoInitBlocks_wellFormed (by decide)) ⟨by decide, by decide, by decide⟩ rfl rfl
    (by decide) rfl (by decide)).2 (by decide)

/-- The same with a block where `malloc` puts it on a machine with pointers of 64 bits: the object
that the procedure reads is none. -/
theorem carve_dangles : (pmemoInitBlocks 0x5555557692A0).WellFormed ∧
    (pmemoInitBlocks 0x5555557692A0).freeBlocks.find?
      (searchSpaceAt (pmemoInitBlocks 0x5555557692A0).heap ⟨0x400000, 0xFFFFFF, 256⟩) =
        some 0x5555557692A0 ∧
    256 ≤ FreeBlock.overlap ⟨0, 0xFFFFFF⟩ ⟨0x400000, 0xFFFFFF, 256⟩ ∧
    pmMemoryAllocationProcedure (pmemoInitBlocks 0x5555557692A0) ⟨0x400000, 0xFFFFFF, 256⟩
      0x5555557692C0 = .error .dangling ∧
    ¬ ∃ address s', pmMemoryAllocationProcedure (pmemoInitBlocks 0x5555557692A0)
        ⟨0x400000, 0xFFFFFF, 256⟩ 0x5555557692C0 = .ok (0, address, s') ∧
      (pmemoInitBlocks 0x5555557692A0).Carves ⟨0x400000, 0xFFFFFF, 256⟩ 0x5555557692A0
        address s' := by
  have hdangles : pmMemoryAllocationProcedure (pmemoInitBlocks 0x5555557692A0)
      ⟨0x400000, 0xFFFFFF, 256⟩ 0x5555557692C0 = .error .dangling := rfl
  refine ⟨pmemoInitBlocks_wellFormed (by decide), rfl, by decide, hdangles, ?_⟩
  intro h
  obtain ⟨address, s', hok, -⟩ := h
  rw [hdangles] at hok
  cases hok

end SeKernel
