import SeKernel.Memory.AllocSafe

/-!
# Page tables

The allocation of frames and page tables and `mmu_malloc`. `pm_memory_allocation_request` returns 0
when it succeeds and its callers take 0 for a failure, so no allocation ever gets past the first
request (`mmuMalloc_exits`). `pm_m_frame_malloc_bulk` is written over the function that allocates
one frame. The frames it has stored in the caller's array are a list.
-/

namespace SeKernel

/-- Reference: `PAGETABLE_CORE_ADDRESS_KOP` (`headers/memory_s.h:15`). -/
def pagetableCoreAddressKop : Word := 4

/-- Reference: `PAGETABLE_ENTRY_ADDRESS_KOP` (`headers/memory_s.h:16`). -/
def pagetableEntryAddressKop : Word := 4

/-- Reference: `pm_m_frame_malloc` (`src/memory_s.c:56`). -/
def pmMFrameMalloc (ps : PhysicalMemory) : Outcome (Int × Word × PhysicalMemory) := do
  let args := ⟨memSpaceStartAddress, memSpaceEndAddress, frameSize⟩
  let (ret, result, ps) ← pmMemoryAllocationRequest ps args
  if ret = 0 then
    throw (.err 1 "pm_m_frame_malloc: pm_memory_allocation_request failed")
  return (0, result, ps)

/-- The allocations of `pm_m_frame_malloc_bulk`, `count` of them still to come. -/
def frameMallocLoop (frameMalloc : PhysicalMemory → Outcome (Int × Word × PhysicalMemory)) :
    Nat → PhysicalMemory → List Word → Outcome (List Word × PhysicalMemory)
  | 0, ps, frameAddressArray => return (frameAddressArray, ps)
  | count + 1, ps, frameAddressArray => do
    let (ret, frameAddress, ps) ← frameMalloc ps
    if ret = 0 then
      throw (.err 1 "pm_m_frame_malloc_bulk: pm_m_frame_malloc failed")
    frameMallocLoop frameMalloc count ps (frameAddressArray ++ [frameAddress])

/-- Reference: `pm_m_frame_malloc_bulk` (`src/memory_s.c:86`). -/
def pmMFrameMallocBulk (frameMalloc : PhysicalMemory → Outcome (Int × Word × PhysicalMemory))
    (ps : PhysicalMemory) (frameCount : Int) : Outcome (Int × List Word × PhysicalMemory) := do
  let (frameAddressArray, ps) ← frameMallocLoop frameMalloc frameCount.toNat ps []
  if frameAddressArray.length ≠ frameCount then
    let ps ← frameAddressArray.foldlM
      (fun ps frameAddress => do
        let (_, ps) ← pmMFrameFree ps frameAddress
        return ps)
      ps
    return (0, frameAddressArray, ps)
  return (0, frameAddressArray, ps)

/-- The entries of a new page table, written from `pageEntryAddress` on. Reference:
`pm_pt_page_table_malloc` (`src/memory_s.c:122`). -/
def writeEntries (memory : Memory) (pageEntryAddress : Word) (frameAddressArray : List Word)
    (entries : Word) : Outcome Memory := do
  let (memory, _) ← (List.range entries.toNat).foldlM
    (fun (memory, pageEntryAddress) currentEntry =>
      match frameAddressArray[currentEntry]? with
      | none => throw .outOfBounds
      | some frameAddress =>
        return (pmWriteWord memory pageEntryAddress frameAddress,
          pageEntryAddress + pagetableEntryAddressKop))
    (memory, pageEntryAddress)
  return memory

/-- Reference: `pm_pt_page_table_malloc` (`src/memory_s.c:104`). -/
def pmPtPageTableMalloc (ps : PhysicalMemory) (entries : Word) :
    Outcome (Int × Word × PhysicalMemory) := do
  let args := ⟨kernelSpaceStartAddress, kernelSpaceEndAddress,
    pagetableCoreAddressKop + pagetableEntryAddressKop * entries⟩
  let (ret, result, ps) ← pmMemoryAllocationRequest ps args
  if ret = 0 then
    throw (.err 1 "pm_pt_page_table_malloc: pm_memory_allocation_request failed")
  let (ret, frameAddressArray, ps) ← pmMFrameMallocBulk pmMFrameMalloc ps entries.toInt
  if ret = 0 then
    throw (.err 1 "pm_pt_page_table_malloc: pm_m_frame_malloc_bulk failed")
  let memory := pmWriteWord ps.memory result entries
  let memory ← writeEntries memory (result + pagetableCoreAddressKop) frameAddressArray entries
  return (0, result, { ps with memory })

/-- The number of frames for `word_kop` words, in `int` arithmetic. Reference: `mmu_malloc`
(`src/memory_s.c:336`). -/
def framesNeeded (wordKop : Word) : Word :=
  let framesNeeded := (wordKop * 4).sdiv frameSize
  if (wordKop * 4).srem frameSize ≠ 0 then framesNeeded + 1 else framesNeeded

/-- The return value, the address returned through `ptbr`, and the memory. Reference: `mmu_malloc`
(`src/memory_s.c:335`). -/
def mmuMalloc (ps : PhysicalMemory) (wordKop : Word) : Outcome (Int × Word × PhysicalMemory) :=
  pmPtPageTableMalloc ps (framesNeeded wordKop)

/-! ## What a page table is for -/

/-- The addresses that some free block holds. -/
def PhysicalMemory.free (ps : PhysicalMemory) : Set Nat := {a | ∃ fb ∈ ps.freeBlocks, a ∈ fb.region}

/-- The frame at `f`: 256 free addresses of the space for frames, from a frame boundary on. -/
structure PhysicalMemory.FreeFrame (ps : PhysicalMemory) (f : Nat) : Prop where
  aligned : f % 256 = 0
  inSpace : 0x400000 ≤ f ∧ f + 255 ≤ 0xFFFFFF
  free : ∀ a, f ≤ a → a < f + 256 → a ∈ ps.free

/-- There is room for a table of `k` entries and its frames: some block meets kernel space in the
size of the table, and there are `k` free frames. -/
def PhysicalMemory.Room (ps : PhysicalMemory) (k : Nat) : Prop :=
  (∃ fb ∈ ps.freeBlocks,
    fb.startAddress.toNat + (4 + 4 * k) ≤ min fb.endAddress.toNat 0x3FFFFF + 1) ∧
  ∃ frames : List Nat, frames.Nodup ∧ frames.length = k ∧ ∀ f ∈ frames, ps.FreeFrame f

/-- The call returns 0 and a table of `k` distinct free frames, in kernel space that was free. -/
def Delivers (ps : PhysicalMemory) (wordKop : Word) (k : Nat) : Prop :=
  ∃ ptbr ps', mmuMalloc ps wordKop = .ok (0, ptbr, ps') ∧
    (∀ a, ptbr.toNat ≤ a → a < ptbr.toNat + (4 + 4 * k) → a ≤ 0x3FFFFF ∧ a ∈ ps.free) ∧
    (pmReadWord ps'.memory ptbr).toNat = k ∧
    ∃ frames : List Nat, frames.Nodup ∧ (∀ f ∈ frames, ps.FreeFrame f) ∧ frames =
      (List.range k).map fun i => (pmReadWord ps'.memory (ptbr + 4 + BitVec.ofNat 32 (4 * i))).toNat

/-! ## The exit -/

/-- Reference: `pm_memory_allocation_request` (`src/memory_s.c:151`). It returns 0 or leaves through
`err`. -/
theorem pmMemoryAllocationRequest_returns_zero (ps : PhysicalMemory) (args : FreeBlockSearchArgs) :
    (∃ msg, pmMemoryAllocationRequest ps args = .error (.err 1 msg)) ∨
    ∃ address ps', pmMemoryAllocationRequest ps args = .ok (0, address, ps') := by
  unfold pmMemoryAllocationRequest
  split
  · exact .inl ⟨_, rfl⟩
  · split
    · exact .inl ⟨_, rfl⟩
    · exact .inr ⟨_, _, rfl⟩

/-- Reference: `pm_pt_page_table_malloc` (`src/memory_s.c:104`). -/
theorem pmPtPageTableMalloc_exits (ps : PhysicalMemory) (entries : Word) :
    ∃ msg, pmPtPageTableMalloc ps entries = .error (.err 1 msg) := by
  unfold pmPtPageTableMalloc
  dsimp only
  rcases pmMemoryAllocationRequest_returns_zero ps ⟨kernelSpaceStartAddress, kernelSpaceEndAddress,
    pagetableCoreAddressKop + pagetableEntryAddressKop * entries⟩ with ⟨msg, h⟩ | ⟨address, ps', h⟩
  · exact ⟨msg, by rw [h]; rfl⟩
  · exact ⟨_, by rw [h]; rfl⟩

/-- Whatever the memory and the size, `mmu_malloc` leaves the program through `err`; it delivers no
address space. Reference: `mmu_malloc` (`src/memory_s.c:335`). -/
theorem mmuMalloc_exits (ps : PhysicalMemory) (wordKop : Word) (k : Nat) :
    (∃ msg, mmuMalloc ps wordKop = .error (.err 1 msg)) ∧ ¬ Delivers ps wordKop k := by
  obtain ⟨msg, h⟩ := pmPtPageTableMalloc_exits ps (framesNeeded wordKop)
  refine ⟨⟨msg, h⟩, ?_⟩
  intro hdelivers
  obtain ⟨ptbr, ps', hok, -⟩ := hdelivers
  rw [mmuMalloc, h] at hok
  cases hok

/-- The memory of `pmemo_init` has room for one word, and the call for it exits. -/
theorem mmuMalloc_exits_with_room :
    (∀ fb ∈ pmemoInitFreeBlocks, fb.WellFormed) ∧
    (pmemoInitFreeBlocks.map FreeBlock.region).Pairwise Disjoint ∧
    framesNeeded 1 = 1 ∧ PhysicalMemory.Room ⟨fun _ => 0, pmemoInitFreeBlocks⟩ 1 ∧
    mmuMalloc ⟨fun _ => 0, pmemoInitFreeBlocks⟩ 1 =
      .error (.err 1 "pm_pt_page_table_malloc: pm_memory_allocation_request failed") ∧
    ¬ Delivers ⟨fun _ => 0, pmemoInitFreeBlocks⟩ 1 1 := by
  have hexit : mmuMalloc ⟨fun _ => 0, pmemoInitFreeBlocks⟩ 1 =
      .error (.err 1 "pm_pt_page_table_malloc: pm_memory_allocation_request failed") := by
    rfl
  refine ⟨by decide, by simp [pmemoInitFreeBlocks, Seq.linkedlistPush], by decide,
    ⟨?_, ?_⟩, hexit, ?_⟩
  · exact ⟨_, List.mem_singleton_self _, by decide⟩
  · refine ⟨[0x400000], by simp, rfl, ?_⟩
    intro f hf
    cases List.mem_singleton.1 hf
    refine ⟨rfl, by decide, fun a h₁ h₂ => ⟨_, List.mem_singleton_self _, ?_⟩⟩
    have hlast : memSpaceEndAddress.toNat = 0xFFFFFF := rfl
    rw [FreeBlock.mem_region, hlast]
    exact ⟨Nat.zero_le a, by omega⟩
  · intro hdelivers
    obtain ⟨ptbr, ps', hok, -⟩ := hdelivers
    rw [hexit] at hok
    cases hok

end SeKernel
