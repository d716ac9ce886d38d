import SeKernel.Fault
import SeKernel.LinkedList.Sequence
import SeKernel.Memory.Word

/-!
# The free list

Allocation requests and the freeing of frames in `src/memory_s.c`. The free list is the sequence of
its blocks (`SeKernel.Seq`). `linkedlist_get_first_match_from_rear`, which is declared and not
defined, is `linkedlist_peek_first_match_from_rear`.
-/

namespace SeKernel

/-- Reference: `struct free_block` (`headers/memory_s.h:39`). -/
structure FreeBlock where
  startAddress : Word
  endAddress : Word
  deriving DecidableEq, Repr

/-- Reference: `struct free_block_search_args` (`headers/memory_s.h:57`). -/
structure FreeBlockSearchArgs where
  startLimitAddress : Word
  endLimitAddress : Word
  minAddressKon : Word
  deriving DecidableEq, Repr

/-- Reference: `struct physical_memory` (`headers/memory_s.h:34`). -/
structure PhysicalMemory where
  memory : Memory
  freeBlocks : List FreeBlock

/-- Reference: `KERNEL_SPACE_START_ADDRESS` (`headers/memory_s.h:23`). -/
def kernelSpaceStartAddress : Word := 0x000000

/-- Reference: `KERNEL_SPACE_END_ADDRESS` (`headers/memory_s.h:24`). -/
def kernelSpaceEndAddress : Word := 0x3FFFFF

/-- Reference: `MEM_SPACE_START_ADDRESS` (`headers/memory_s.h:25`). -/
def memSpaceStartAddress : Word := 0x400000

/-- Reference: `MEM_SPACE_END_ADDRESS` (`headers/memory_s.h:26`). -/
def memSpaceEndAddress : Word := 0xFFFFFF

/-- The free list that `pmemo_init` builds. Reference: `pmemo_init` (`src/memory_s.c:318`). -/
def pmemoInitFreeBlocks : List FreeBlock :=
  Seq.linkedlistPush [] ⟨kernelSpaceStartAddress, memSpaceEndAddress⟩

/-- Reference: `__search_space` (`src/memory_s.c:33`). -/
def searchSpace (fb : FreeBlock) (args : FreeBlockSearchArgs) : Bool :=
  if fb.endAddress < args.startLimitAddress ∨ fb.startAddress > args.endLimitAddress then
    false
  else
    let validStart :=
      if fb.startAddress < args.startLimitAddress then args.startLimitAddress else fb.startAddress
    let validEnd :=
      if fb.endAddress > args.endLimitAddress then args.endLimitAddress else fb.endAddress
    validStart - validEnd + 1 ≥ args.minAddressKon

/-- Reference: `__search_address` (`src/memory_s.c:47`). -/
def searchAddress (fb : FreeBlock) (address : Word) : Bool :=
  fb.startAddress ≤ address ∧ fb.endAddress ≥ address

/-- What a request leaves of the block it takes. Reference: `pm_memory_allocation_request`
(`src/memory_s.c:168`). -/
def pushRemainders (freeBlocks : List FreeBlock) (fb : FreeBlock) (request : FreeBlockSearchArgs) :
    List FreeBlock :=
  let freeBlocks :=
    if fb.startAddress < request.startLimitAddress then
      Seq.linkedlistPush freeBlocks ⟨fb.startAddress, request.startLimitAddress - 1⟩
    else freeBlocks
  if fb.endAddress > request.endLimitAddress then
    Seq.linkedlistPush freeBlocks ⟨request.endLimitAddress + 1, fb.endAddress⟩
  else freeBlocks

/-- The return value, the address returned through `return_address`, and the memory. The pointers
passed are those of objects, so the test of the arguments always passes. Reference:
`pm_memory_allocation_request` (`src/memory_s.c:151`). -/
def pmMemoryAllocationRequest (ps : PhysicalMemory) (request : FreeBlockSearchArgs) :
    Outcome (Int × Word × PhysicalMemory) :=
  match Seq.linkedlistPeekFirstMatchFromRear ps.freeBlocks (searchSpace · request) with
  | none => throw (.err 1 "pm_memory_allocation_request: no free space found")
  | some _ =>
    match Seq.linkedlistPop ps.freeBlocks with
    | (none, _) => throw (.err 1 "pm_memory_allocation_request: linkedlist_pop failed")
    | (some fb, freeBlocks) =>
      return (0, request.startLimitAddress,
        { ps with freeBlocks := pushRemainders freeBlocks fb request })

/-- Reference: `pm_m_frame_free` (`src/memory_s.c:72`). -/
def pmMFrameFree (ps : PhysicalMemory) (physicalAddress : Word) : Outcome (Int × PhysicalMemory) :=
  let frameStartAddress := physicalAddress &&& frameAddressMask
  match Seq.linkedlistPeekFirstMatchFromRear ps.freeBlocks (searchAddress · frameStartAddress) with
  | some _ => throw (.err 1 "pm_m_frame_free: frame not found")
  | none =>
    return (0, { ps with
      freeBlocks := Seq.linkedlistPush ps.freeBlocks
        ⟨frameStartAddress, frameStartAddress + frameSize - 1⟩ })

/-- A request that returns found some block, and took the last one of the list. -/
theorem pmMemoryAllocationRequest_eq_ok {ps ps' : PhysicalMemory} {request : FreeBlockSearchArgs}
    {ret : Int} {address : Word} :
    pmMemoryAllocationRequest ps request = .ok (ret, address, ps') ↔
      (∃ found ∈ ps.freeBlocks, searchSpace found request) ∧ ret = 0 ∧
      address = request.startLimitAddress ∧
      ∃ init fb, ps.freeBlocks = init ++ [fb] ∧
        ps' = { ps with freeBlocks := pushRemainders init fb request } := by
  unfold pmMemoryAllocationRequest Seq.linkedlistPeekFirstMatchFromRear Seq.linkedlistPop
  cases hfind : ps.freeBlocks.find? (searchSpace · request) with
  | none =>
    rw [List.find?_eq_none] at hfind
    constructor
    · intro h
      cases h
    · intro h
      obtain ⟨⟨found, hmem, hfound⟩, -⟩ := h
      exact absurd hfound (hfind found hmem)
  | some found =>
    have hmem := List.mem_of_find?_eq_some hfind
    have hfound : searchSpace found request = true := by simpa using List.find?_some hfind
    rcases List.eq_nil_or_concat' ps.freeBlocks with hnil | ⟨init, fb, hlist⟩
    · rw [hnil] at hmem
      cases hmem
    rw [hlist, List.getLast?_append_of_ne_nil _ (by simp), List.dropLast_concat]
    constructor
    · intro h
      cases h
      exact ⟨⟨found, hlist ▸ hmem, hfound⟩, rfl, rfl, init, fb, rfl, rfl⟩
    · intro h
      obtain ⟨-, rfl, rfl, init', fb', heq, rfl⟩ := h
      obtain ⟨rfl, hfb⟩ := List.append_inj' heq rfl
      cases hfb
      rfl

/-- A frame is freed when its first address is not free. -/
theorem pmMFrameFree_eq_ok {ps ps' : PhysicalMemory} {physicalAddress : Word} {ret : Int} :
    pmMFrameFree ps physicalAddress = .ok (ret, ps') ↔
      (∀ fb ∈ ps.freeBlocks, ¬ searchAddress fb (physicalAddress &&& frameAddressMask)) ∧ ret = 0 ∧
      ps' = { ps with freeBlocks := ps.freeBlocks ++ [⟨physicalAddress &&& frameAddressMask,
        (physicalAddress &&& frameAddressMask) + frameSize - 1⟩] } := by
  unfold pmMFrameFree Seq.linkedlistPeekFirstMatchFromRear Seq.linkedlistPush
  dsimp only
  rw [← List.find?_eq_none]
  cases ps.freeBlocks.find? (searchAddress · (physicalAddress &&& frameAddressMask)) with
  | some fb => simp
  | none =>
    simp only [Outcome.pure_eq, Except.ok.injEq, Prod.mk.injEq, true_and]
    exact and_congr eq_comm eq_comm

end SeKernel
