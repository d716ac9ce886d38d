import SeKernel.Memory.Consumption
import SeKernel.Memory.FrameFree

/-!
# Freeing an address space

`pm_pt_page_table_free` pushes the table before it reads the entries, and then frees one frame after
the other; `pm_m_frame_free` exits when it finds the base of its frame in the list, which has grown
by then. Table and frames of an address space in use (`AddressSpace`) are apart from each other and
from the free set, so no release meets an earlier one (`freeEntries_spec`) and the free set grows by
exactly them (`mmuFree_exact`).
-/

namespace SeKernel

/-- The frames named by the entries from `currentPteAddress` on, `count` of them still to be freed.
The counter `i` is compared with `entries` as an unsigned number. Reference:
`pm_pt_page_table_free` (`src/memory_s.c:143`). -/
def freeEntries : Nat → PhysicalMemory → Word → Outcome PhysicalMemory
  | 0, ps, _ => return ps
  | count + 1, ps, currentPteAddress => do
    let frameAddress := pmReadWord ps.memory currentPteAddress
    let (_, ps) ← pmMFrameFree ps frameAddress
    freeEntries count ps (currentPteAddress + pagetableEntryAddressKop)

/-- The block of the page table at `address` with `entries` entries. Reference:
`pm_pt_page_table_free` (`src/memory_s.c:139`). -/
def tableBlock (address entries : Word) : FreeBlock :=
  ⟨address, address + pagetableCoreAddressKop + pagetableEntryAddressKop * entries - 1⟩

/-- Reference: `pm_pt_page_table_free` (`src/memory_s.c:130`). -/
def pmPtPageTableFree (ps : PhysicalMemory) (address : Word) : Outcome (Int × PhysicalMemory) :=
  match Seq.linkedlistPeekFirstMatchFromRear ps.freeBlocks (searchAddress · address) with
  | some _ => throw (.err 1 "pm_pt_page_table_free: table not found")
  | none => do
    let entries := pmReadWord ps.memory address
    let ps := { ps with
      freeBlocks := Seq.linkedlistPush ps.freeBlocks (tableBlock address entries) }
    let ps ← freeEntries entries.toNat ps (address + pagetableCoreAddressKop)
    return (0, ps)

/-- Reference: `mmu_free` (`src/memory_s.c:341`). -/
def mmuFree (ps : PhysicalMemory) (ptbr : Word) : Outcome (Int × PhysicalMemory) :=
  pmPtPageTableFree ps ptbr

/-! ## Address spaces -/

/-- The first `n` entries of a table, the first of them at `pteAddress`. -/
def tableEntries (memory : Memory) (pteAddress : Word) (n : Nat) : List Word :=
  (List.range n).map fun i => pmReadWord memory (pteAddress + BitVec.ofNat 32 (4 * i))

/-- The addresses of a table of `n` entries. -/
def tableRegion (address : Word) (n : Nat) : Set Nat :=
  Set.Ico address.toNat (address.toNat + (4 + 4 * n))

/-- The addresses of the frame that starts at `frameAddress`. -/
def frameRegion (frameAddress : Word) : Set Nat :=
  Set.Icc frameAddress.toNat (frameAddress.toNat + 255)

/-- At `address` stands a page table of `n` entries in kernel space, for `n` frames of the space for
frames, and nothing of it is free. -/
structure AddressSpace (ps : PhysicalMemory) (address : Word) (n : Nat) : Prop where
  entries : (pmReadWord ps.memory address).toNat = n
  aligned : address.toNat % 4 = 0
  inKernelSpace : tableRegion address n ⊆ Set.Icc 0 0x3FFFFF
  nodup : (tableEntries ps.memory (address + 4) n).Nodup
  frameAligned : ∀ f ∈ tableEntries ps.memory (address + 4) n, f.toNat % 256 = 0
  inMemSpace : ∀ f ∈ tableEntries ps.memory (address + 4) n,
    0x400000 ≤ f.toNat ∧ f.toNat ≤ 0xFFFFFF
  tableInUse : ∀ a ∈ tableRegion address n, a ∉ ps.free
  framesInUse : ∀ f ∈ tableEntries ps.memory (address + 4) n, ∀ a ∈ frameRegion f, a ∉ ps.free

section

variable {ps : PhysicalMemory} {address pteAddress : Word} {n : Nat}

theorem tableEntries_succ (memory : Memory) (pteAddress : Word) (n : Nat) :
    tableEntries memory pteAddress (n + 1) =
      pmReadWord memory pteAddress :: tableEntries memory (pteAddress + 4) n := by
  have haddr (i : Nat) : pteAddress + BitVec.ofNat 32 (4 * (i + 1)) =
      pteAddress + 4 + BitVec.ofNat 32 (4 * i) := by
    rw [BitVec.add_assoc, show 4 * (i + 1) = 4 + 4 * i by omega, BitVec.ofNat_add]
    rfl
  unfold tableEntries
  rw [List.range_succ_eq_map, List.map_cons, List.map_map]
  refine congrArg₂ _ ?_ (List.map_congr_left fun i _ => ?_)
  · rw [Nat.mul_zero, BitVec.add_zero]
  · rw [Function.comp_apply, Nat.succ_eq_add_one, haddr]

/-- A frame address names the frame that starts there. -/
theorem frameBlock_of_aligned {f : Word} (haligned : f.toNat % 256 = 0)
    (hbus : f.toNat ≤ 0xFFFFFF) :
    (frameBlock f).startAddress = f ∧ (frameBlock f).region = frameRegion f := by
  have hmask : (f &&& frameAddressMask).toNat = f.toNat % 2 ^ 24 / 2 ^ 8 * 2 ^ 8 :=
    Masks.toNat_and_mask (k := 8) (m := 24) f (by decide) (by decide)
  have hstart : (frameBlock f).startAddress = f := by
    refine BitVec.eq_of_toNat_eq ?_
    rw [frameBlock, hmask]
    omega
  refine ⟨hstart, ?_⟩
  rw [FreeBlock.region, (frameBlock_toNat f).2.2, hstart]
  rfl

/-- The frames at two aligned addresses are apart. -/
theorem disjoint_frameRegion {f g : Word} (hf : f.toNat % 256 = 0) (hg : g.toNat % 256 = 0)
    (hne : f ≠ g) : Disjoint (frameRegion f) (frameRegion g) := by
  have hne' : f.toNat ≠ g.toNat := fun h => hne (BitVec.eq_of_toNat_eq h)
  rw [Set.disjoint_left]
  intro a ha hag
  rw [frameRegion, Set.mem_Icc] at ha hag
  omega

/-! ## The release of the frames -/

/-- A frame that is apart from the free set is freed. -/
theorem pmMFrameFree_of_apart {f : Word} (hapart : ∀ a ∈ (frameBlock f).region, a ∉ ps.free) :
    pmMFrameFree ps f = .ok (0, { ps with freeBlocks := ps.freeBlocks ++ [frameBlock f] }) := by
  have hbase : (frameBlock f).startAddress.toNat ∉ ps.free := by
    refine hapart _ (Set.mem_Icc.2 ⟨le_rfl, ?_⟩)
    rw [(frameBlock_toNat f).2.2]
    omega
  rcases pmMFrameFree_cases ps f with ⟨hfound, -⟩ | ⟨-, hrun⟩
  · exact absurd ((exists_searchAddress_iff ps _).1 hfound) hbase
  · exact hrun

/-- Frames that are apart from each other and from the free set are freed one after the other. The
induction is on the entries that are left: the free set has grown by a frame that is apart from all
the later ones. Reference: `pm_pt_page_table_free` (`src/memory_s.c:143`). -/
theorem freeEntries_spec
    (hpairwise : (tableEntries ps.memory pteAddress n).Pairwise fun f g =>
      Disjoint (frameBlock f).region (frameBlock g).region)
    (hapart : ∀ f ∈ tableEntries ps.memory pteAddress n,
      ∀ a ∈ (frameBlock f).region, a ∉ ps.free) :
    freeEntries n ps pteAddress = .ok { ps with
      freeBlocks := ps.freeBlocks ++ (tableEntries ps.memory pteAddress n).map frameBlock } := by
  induction n generalizing ps pteAddress with
  | zero => simp [freeEntries, tableEntries]
  | succ n ih =>
    rw [tableEntries_succ] at hpairwise hapart ⊢
    obtain ⟨hfirst, hrest⟩ := List.pairwise_cons.1 hpairwise
    obtain ⟨hfirstApart, hrestApart⟩ := List.forall_mem_cons.1 hapart
    have hround := @ih
      { ps with freeBlocks := ps.freeBlocks ++ [frameBlock (pmReadWord ps.memory pteAddress)] }
      (pteAddress + 4) hrest ?_
    · rw [freeEntries, pmMFrameFree_of_apart hfirstApart, Outcome.ok_bind]
      refine hround.trans ?_
      rw [List.append_assoc]
      rfl
    · intro f hf a ha
      rw [ps.free_push, Set.mem_union, not_or]
      exact ⟨hrestApart f hf a ha, Set.disjoint_right.1 (hfirst f hf) ha⟩

/-! ## The release of the table -/

theorem AddressSpace.tableBlock_region (h : AddressSpace ps address n) :
    (tableBlock address (pmReadWord ps.memory address)).WellFormed ∧
    (tableBlock address (pmReadWord ps.memory address)).region = tableRegion address n := by
  have hlast : address.toNat + (4 + 4 * n) - 1 ≤ 0x3FFFFF := by
    have hmem := h.inKernelSpace (show address.toNat + (4 + 4 * n) - 1 ∈ tableRegion address n from
      Set.mem_Ico.2 (by omega))
    exact (Set.mem_Icc.1 hmem).2
  have hentries := h.entries
  have hend : (tableBlock address (pmReadWord ps.memory address)).endAddress.toNat =
      address.toNat + (4 + 4 * n) - 1 := by
    rw [tableBlock, pagetableCoreAddressKop, pagetableEntryAddressKop]
    bv_omega
  have hstart : (tableBlock address (pmReadWord ps.memory address)).startAddress = address := rfl
  constructor
  · rw [FreeBlock.wellFormed_iff, hend, hstart]
    omega
  · ext a
    rw [FreeBlock.mem_region, hend, hstart, tableRegion, Set.mem_Ico]
    omega

/-- The frames of an address space, as the blocks that are pushed for them: apart from each other,
from the table and from the free set. -/
theorem AddressSpace.frames_apart (h : AddressSpace ps address n) :
    (tableEntries ps.memory (address + 4) n).Pairwise (fun f g =>
      Disjoint (frameBlock f).region (frameBlock g).region) ∧
    ∀ f ∈ tableEntries ps.memory (address + 4) n,
      (frameBlock f).region = frameRegion f ∧
      ∀ a ∈ (frameBlock f).region, a ∉ ps.free ∧ a ∉ tableRegion address n := by
  have hregion (f : Word) (hf : f ∈ tableEntries ps.memory (address + 4) n) :
      (frameBlock f).region = frameRegion f :=
    (frameBlock_of_aligned (h.frameAligned f hf) (h.inMemSpace f hf).2).2
  constructor
  · refine h.nodup.imp_of_mem fun {f g} hf hg hne => ?_
    rw [hregion f hf, hregion g hg]
    exact disjoint_frameRegion (h.frameAligned f hf) (h.frameAligned g hg) hne
  · intro f hf
    refine ⟨hregion f hf, fun a ha => ?_⟩
    rw [hregion f hf] at ha
    refine ⟨h.framesInUse f hf a ha, fun htable => ?_⟩
    have hbelow := (Set.mem_Icc.1 (h.inKernelSpace htable)).2
    have hframe := (h.inMemSpace f hf).1
    have habove := (Set.mem_Icc.1 ha).1
    omega

/-- The pushed blocks, in the order of the pushes: table first. Reference: `pm_pt_page_table_free`
(`src/memory_s.c:130`). -/
theorem pmPtPageTableFree_spec (h : AddressSpace ps address n) :
    pmPtPageTableFree ps address = .ok (0, { ps with
      freeBlocks := ps.freeBlocks ++ (tableBlock address (pmReadWord ps.memory address) ::
        (tableEntries ps.memory (address + 4) n).map frameBlock) }) := by
  have hnone : ¬ ∃ fb ∈ ps.freeBlocks, searchAddress fb address := by
    rw [exists_searchAddress_iff]
    exact h.tableInUse _ (Set.mem_Ico.2 (by omega))
  have hfind : ps.freeBlocks.find? (searchAddress · address) = none := by
    rw [List.find?_eq_none]
    exact fun fb hfb hsearch => hnone ⟨fb, hfb, hsearch⟩
  obtain ⟨hpairwise, hframes⟩ := h.frames_apart
  have hfrees := @freeEntries_spec
    { ps with freeBlocks := ps.freeBlocks ++ [tableBlock address (pmReadWord ps.memory address)] }
    (address + 4) n hpairwise ?_
  · unfold pmPtPageTableFree Seq.linkedlistPeekFirstMatchFromRear Seq.linkedlistPush
    rw [hfind]
    dsimp only
    rw [h.entries, pagetableCoreAddressKop, hfrees, Outcome.ok_bind, List.append_assoc]
    rfl
  · intro f hf a ha
    obtain ⟨hfree, htable⟩ := (hframes f hf).2 a ha
    rw [ps.free_push, Set.mem_union, not_or, h.tableBlock_region.2]
    exact ⟨hfree, htable⟩

/-- Freeing an address space in use returns 0; the free set grows by the table and its frames, the
blocks stay well formed and disjoint, and the memory is not written. Reference: `mmu_free`
(`src/memory_s.c:341`), `pm_pt_page_table_free` (`src/memory_s.c:130`). -/
theorem mmuFree_exact (hwf : ∀ fb ∈ ps.freeBlocks, fb.WellFormed)
    (hdisj : (ps.freeBlocks.map FreeBlock.region).Pairwise Disjoint)
    (h : AddressSpace ps address n) :
    ∃ ps', mmuFree ps address = .ok (0, ps') ∧
      ps'.free = ps.free ∪ tableRegion address n ∪
        {a | ∃ f ∈ tableEntries ps.memory (address + 4) n, a ∈ frameRegion f} ∧
      (ps'.freeBlocks.map FreeBlock.region).Pairwise Disjoint ∧
      (∀ fb ∈ ps'.freeBlocks, fb.WellFormed) ∧ ps'.memory = ps.memory := by
  obtain ⟨htableWf, htable⟩ := h.tableBlock_region
  obtain ⟨hpairwise, hframes⟩ := h.frames_apart
  refine ⟨_, pmPtPageTableFree_spec h, ?_, ?_, ?_, rfl⟩
  · rw [PhysicalMemory.free_eq_cover, PhysicalMemory.free_eq_cover, List.map_append,
      Regions.cover_append, List.map_cons, Regions.cover_cons, htable, Set.union_assoc]
    congr 2
    ext a
    simp only [Regions.cover, List.map_map, List.mem_map, Function.comp_apply,
      exists_exists_and_eq_and, Set.mem_ofPred_eq]
    exact exists_congr fun f => and_congr_right fun hf => by rw [(hframes f hf).1]
  · rw [List.map_append, List.map_cons, List.map_map, List.pairwise_append, List.pairwise_cons]
    refine ⟨hdisj, ⟨?_, List.pairwise_map.2 hpairwise⟩, ?_⟩
    · intro A hA
      obtain ⟨f, hf, rfl⟩ := List.mem_map.1 hA
      rw [htable, Set.disjoint_right]
      exact fun a ha => ((hframes f hf).2 a ha).2
    · intro A hA B hB
      obtain ⟨fb, hfb, rfl⟩ := List.mem_map.1 hA
      rw [Set.disjoint_right]
      intro a ha hab
      rcases List.mem_cons.1 hB with rfl | hB
      · rw [htable] at ha
        exact h.tableInUse a ha ⟨fb, hfb, hab⟩
      · obtain ⟨f, hf, rfl⟩ := List.mem_map.1 hB
        exact ((hframes f hf).2 a ha).1 ⟨fb, hfb, hab⟩
  · refine List.forall_mem_append.2 ⟨hwf, List.forall_mem_cons.2 ⟨htableWf, ?_⟩⟩
    intro fb hfb
    obtain ⟨f, -, rfl⟩ := List.mem_map.1 hfb
    exact frameBlock_wellFormed f

end

/-- A memory with a page table of two entries at `0x1000`. -/
def twoFrames : PhysicalMemory where
  memory := pmWriteWord (pmWriteWord (pmWriteWord (fun _ => 0) 0x1000 2) 0x1004 0x400200) 0x1008
    0xFFFF00
  freeBlocks := [⟨0x400300, 0xFFFEFF⟩, ⟨0, 0xFFF⟩, ⟨0x400000, 0x4001FF⟩]

theorem twoFrames_addressSpace : AddressSpace twoFrames 0x1000 2 := by
  have hentries : tableEntries twoFrames.memory (0x1000 + 4) 2 = [0x400200, 0xFFFF00] := by decide
  have hfree (a : Nat) (ha : a ∈ twoFrames.free) :
      a ≤ 0xFFF ∨ 0x400000 ≤ a ∧ a ≤ 0x4001FF ∨ 0x400300 ≤ a ∧ a ≤ 0xFFFEFF := by
    obtain ⟨fb, hfb, hmem⟩ := ha
    simp only [twoFrames, List.mem_cons, List.not_mem_nil, or_false] at hfb
    rcases hfb with rfl | rfl | rfl
    all_goals
      rw [FreeBlock.mem_region] at hmem
      bv_omega
  have htable (a : Nat) (ha : a ∈ tableRegion 0x1000 2) : 0x1000 ≤ a ∧ a ≤ 0x100B := by
    rw [tableRegion, Set.mem_Ico] at ha
    bv_omega
  refine ⟨by decide, by decide, ?_, by rw [hentries]; decide, ?_, ?_, ?_, ?_⟩
  · intro a ha
    have hrange := htable a ha
    rw [Set.mem_Icc]
    omega
  · rw [hentries]
    exact List.forall_mem_cons.2 ⟨by decide, List.forall_mem_singleton.2 (by decide)⟩
  · rw [hentries]
    exact List.forall_mem_cons.2 ⟨by decide, List.forall_mem_singleton.2 (by decide)⟩
  · intro a ha hmem
    have hrange := htable a ha
    have hcases := hfree a hmem
    omega
  · rw [hentries]
    intro f hf a ha hmem
    have hcases := hfree a hmem
    simp only [List.mem_cons, List.not_mem_nil, or_false] at hf
    rcases hf with rfl | rfl
    all_goals
      rw [frameRegion, Set.mem_Icc] at ha
      bv_omega

/-- The address space of `twoFrames` is freed. -/
theorem mmuFree_exact_twoFrames : ∃ ps', mmuFree twoFrames 0x1000 = .ok (0, ps') ∧
    ps'.free = twoFrames.free ∪ tableRegion 0x1000 2 ∪
      {a | ∃ f ∈ tableEntries twoFrames.memory (0x1000 + 4) 2, a ∈ frameRegion f} ∧
    (ps'.freeBlocks.map FreeBlock.region).Pairwise Disjoint ∧
    (∀ fb ∈ ps'.freeBlocks, fb.WellFormed) ∧ ps'.memory = twoFrames.memory := by
  refine mmuFree_exact (by decide) ?_ twoFrames_addressSpace
  simp only [twoFrames, List.map_cons, List.map_nil, List.pairwise_cons, List.mem_cons,
    List.not_mem_nil, or_false, forall_eq_or_imp, forall_eq, List.Pairwise.nil, and_true]
  exact ⟨⟨(FreeBlock.disjoint_of_lt (by decide)).symm, (FreeBlock.disjoint_of_lt (by decide)).symm⟩,
    FreeBlock.disjoint_of_lt (by decide), fun _ h => h.elim⟩

end SeKernel
