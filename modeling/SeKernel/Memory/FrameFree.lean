import SeKernel.Memory.PageTable

/-!
# Freeing a frame

`pm_m_frame_free` looks up the first address of the frame only. In a list whose blocks consist of
whole frames in the space for frames (`PhysicalMemory.FrameAligned`) that address is free as soon as
one of the 256 is (`FreeBlock.Aligned.mem_base`), so a second free of a frame, or of a part of it,
is detected (`pmMFrameFree_exact`). A freed frame is a block of this kind again.
-/

namespace SeKernel

/-- In the space for frames the block consists of whole frames. -/
structure FreeBlock.Aligned (fb : FreeBlock) : Prop where
  first : 0x400000 ≤ fb.startAddress.toNat → fb.startAddress.toNat % 256 = 0
  last : 0x400000 ≤ fb.endAddress.toNat → fb.endAddress.toNat % 256 = 255

/-- The free list holds well-formed, disjoint blocks of whole frames. -/
structure PhysicalMemory.FrameAligned (ps : PhysicalMemory) : Prop where
  wellFormed : ∀ fb ∈ ps.freeBlocks, fb.WellFormed
  disjoint : (ps.freeBlocks.map FreeBlock.region).Pairwise Disjoint
  aligned : ∀ fb ∈ ps.freeBlocks, fb.Aligned

/-- The block that `pm_m_frame_free` pushes: the frame of the address. -/
def frameBlock (physicalAddress : Word) : FreeBlock :=
  ⟨physicalAddress &&& frameAddressMask, (physicalAddress &&& frameAddressMask) + frameSize - 1⟩

/-- `pm_m_frame_free` with the memory at the point where it ends, by its return or by `err`.
Reference: `pm_m_frame_free` (`src/memory_s.c:72`). -/
def pmMFrameFreeState (physicalAddress : Word) : ExceptT Fault (StateM PhysicalMemory) Int := do
  let frameStartAddress := physicalAddress &&& frameAddressMask
  let ps ← get
  match Seq.linkedlistPeekFirstMatchFromRear ps.freeBlocks (searchAddress · frameStartAddress) with
  | some _ => throw (.err 1 "pm_m_frame_free: frame not found")
  | none =>
    set { ps with
      freeBlocks := Seq.linkedlistPush ps.freeBlocks
        ⟨frameStartAddress, frameStartAddress + frameSize - 1⟩ }
    return 0

section

variable {ps : PhysicalMemory} {fb : FreeBlock} {physicalAddress : Word}

/-- The two readings of the function agree, and `err` comes before any write. -/
theorem pmMFrameFreeState_run (ps : PhysicalMemory) (physicalAddress : Word) :
    (pmMFrameFreeState physicalAddress).run.run ps =
      match pmMFrameFree ps physicalAddress with
      | .ok (ret, ps') => (.ok ret, ps')
      | .error e => (.error e, ps) := by
  have hget : (get : ExceptT Fault (StateM PhysicalMemory) PhysicalMemory).run.run ps =
      pure (.ok ps, ps) := rfl
  unfold pmMFrameFreeState pmMFrameFree
  simp only [ExceptT.run_bind, StateT.run_bind, hget, pure_bind]
  cases Seq.linkedlistPeekFirstMatchFromRear ps.freeBlocks
    (searchAddress · (physicalAddress &&& frameAddressMask)) with
  | some fb => rfl
  | none => rfl

/-- The two ends of the function. -/
theorem pmMFrameFree_cases (ps : PhysicalMemory) (physicalAddress : Word) :
    ((∃ fb ∈ ps.freeBlocks, searchAddress fb (frameBlock physicalAddress).startAddress) ∧
      pmMFrameFree ps physicalAddress = .error (.err 1 "pm_m_frame_free: frame not found")) ∨
    ((¬ ∃ fb ∈ ps.freeBlocks, searchAddress fb (frameBlock physicalAddress).startAddress) ∧
      pmMFrameFree ps physicalAddress =
        .ok (0, { ps with freeBlocks := ps.freeBlocks ++ [frameBlock physicalAddress] })) := by
  unfold pmMFrameFree Seq.linkedlistPeekFirstMatchFromRear Seq.linkedlistPush frameBlock
  dsimp only
  cases hfind : ps.freeBlocks.find? (searchAddress · (physicalAddress &&& frameAddressMask)) with
  | some fb =>
    have hfound : searchAddress fb (physicalAddress &&& frameAddressMask) = true := by
      simpa using List.find?_some hfind
    exact .inl ⟨⟨fb, List.mem_of_find?_eq_some hfind, hfound⟩, rfl⟩
  | none =>
    rw [List.find?_eq_none] at hfind
    exact .inr ⟨fun ⟨fb, hfb, hsearch⟩ => hfind fb hfb hsearch, rfl⟩

/-- The addresses of a frame. -/
theorem frameBlock_toNat (physicalAddress : Word) :
    (frameBlock physicalAddress).startAddress.toNat % 256 = 0 ∧
    (frameBlock physicalAddress).startAddress.toNat ≤ 0xFFFF00 ∧
    (frameBlock physicalAddress).endAddress.toNat =
      (frameBlock physicalAddress).startAddress.toNat + 255 := by
  have hbase : (physicalAddress &&& frameAddressMask).toNat =
      physicalAddress.toNat % 2 ^ 24 / 2 ^ 8 * 2 ^ 8 :=
    Masks.toNat_and_mask (k := 8) (m := 24) physicalAddress (by decide) (by decide)
  unfold frameBlock
  dsimp only
  refine ⟨by omega, by omega, ?_⟩
  rw [show frameSize = 256 from rfl]
  bv_omega

theorem frameBlock_wellFormed (physicalAddress : Word) :
    (frameBlock physicalAddress).WellFormed := by
  obtain ⟨-, hbus, hend⟩ := frameBlock_toNat physicalAddress
  rw [FreeBlock.wellFormed_iff]
  omega

theorem frameBlock_aligned (physicalAddress : Word) : (frameBlock physicalAddress).Aligned := by
  obtain ⟨hbase, -, hend⟩ := frameBlock_toNat physicalAddress
  exact ⟨fun _ => hbase, fun _ => by omega⟩

/-- A block of whole frames that meets a frame of the space for frames holds the frame's base. -/
theorem FreeBlock.Aligned.mem_base (h : fb.Aligned)
    (hframe : 0x400000 ≤ (frameBlock physicalAddress).startAddress.toNat) {a : Nat}
    (ha : a ∈ fb.region) (haframe : a ∈ (frameBlock physicalAddress).region) :
    (frameBlock physicalAddress).startAddress.toNat ∈ fb.region := by
  obtain ⟨hbase, -, hend⟩ := frameBlock_toNat physicalAddress
  have hfirst := h.first
  rw [FreeBlock.mem_region] at *
  omega

/-- The search for an address finds a block if and only if the address is free. Reference:
`__search_address` (`src/memory_s.c:47`). -/
theorem exists_searchAddress_iff (ps : PhysicalMemory) (address : Word) :
    (∃ fb ∈ ps.freeBlocks, searchAddress fb address) ↔ address.toNat ∈ ps.free := by
  refine exists_congr fun fb => and_congr_right fun _ => ?_
  simp [searchAddress, BitVec.le_def]

/-- In a list of whole frames a frame's base is free if some address of the frame is. -/
theorem PhysicalMemory.FrameAligned.base_free_iff (h : ps.FrameAligned) (physicalAddress : Word)
    (hframe : 0x400000 ≤ (frameBlock physicalAddress).startAddress.toNat) :
    (frameBlock physicalAddress).startAddress.toNat ∈ ps.free ↔
      ∃ a ∈ (frameBlock physicalAddress).region, a ∈ ps.free := by
  obtain ⟨-, -, hend⟩ := frameBlock_toNat physicalAddress
  constructor
  · intro hfree
    refine ⟨_, ?_, hfree⟩
    exact Set.mem_Icc.2 ⟨le_rfl, by omega⟩
  · intro hfree
    obtain ⟨a, haframe, fb, hfb, ha⟩ := hfree
    exact ⟨fb, hfb, (h.aligned fb hfb).mem_base hframe ha haframe⟩

/-- Pushing a block none of whose addresses is free. -/
theorem PhysicalMemory.FrameAligned.push (h : ps.FrameAligned) (hwf : fb.WellFormed)
    (haligned : fb.Aligned) (hapart : ∀ a ∈ fb.region, a ∉ ps.free) :
    PhysicalMemory.FrameAligned { ps with freeBlocks := ps.freeBlocks ++ [fb] } := by
  refine ⟨?_, ?_, ?_⟩
  · exact List.forall_mem_append.2 ⟨h.wellFormed, List.forall_mem_singleton.2 hwf⟩
  · rw [List.map_append, List.pairwise_append]
    refine ⟨h.disjoint, List.pairwise_singleton _ _, ?_⟩
    intro A hA B hB
    obtain ⟨b, hb, rfl⟩ := List.mem_map.1 hA
    cases List.mem_singleton.1 hB
    rw [Set.disjoint_right]
    intro a ha hab
    exact hapart a ha ⟨b, hb, hab⟩
  · exact List.forall_mem_append.2 ⟨h.aligned, List.forall_mem_singleton.2 haligned⟩

/-- The free set after a push. -/
theorem PhysicalMemory.free_push (ps : PhysicalMemory) (fb : FreeBlock) :
    PhysicalMemory.free { ps with freeBlocks := ps.freeBlocks ++ [fb] } = ps.free ∪ fb.region := by
  ext a
  simp [PhysicalMemory.free, or_and_right, exists_or]

/-- From a list of whole frames `pm_m_frame_free` takes the error path, and leaves the memory as it
is, if and only if some address of the frame is free; otherwise it returns 0, the free set grows by
the frame, and the list is of this kind again. Reference: `pm_m_frame_free`
(`src/memory_s.c:72`). -/
theorem pmMFrameFree_exact (h : ps.FrameAligned) {f : Nat}
    (hf : f = (physicalAddress &&& frameAddressMask).toNat) (hframe : 0x400000 ≤ f) :
    ((pmMFrameFreeState physicalAddress).run.run ps =
        (.error (.err 1 "pm_m_frame_free: frame not found"), ps) ↔
      ∃ a ∈ Set.Icc f (f + 255), a ∈ ps.free) ∧
    ((¬ ∃ a ∈ Set.Icc f (f + 255), a ∈ ps.free) →
      ∃ ps', (pmMFrameFreeState physicalAddress).run.run ps = (.ok 0, ps') ∧
        ps'.free = ps.free ∪ Set.Icc f (f + 255) ∧ ps'.FrameAligned) := by
  have hregion : (frameBlock physicalAddress).region = Set.Icc f (f + 255) := by
    rw [FreeBlock.region, (frameBlock_toNat physicalAddress).2.2, hf]
    rfl
  have hbase := h.base_free_iff physicalAddress (hf ▸ hframe)
  rw [← exists_searchAddress_iff, hregion] at hbase
  rw [← hbase, pmMFrameFreeState_run]
  rcases pmMFrameFree_cases ps physicalAddress with ⟨hfound, hrun⟩ | ⟨hnone, hrun⟩
  · rw [hrun]
    exact ⟨iff_of_true rfl hfound, fun hno => absurd hfound hno⟩
  · rw [hrun]
    refine ⟨iff_of_false (fun heq => by cases (Prod.mk.inj heq).1) hnone, fun _ => ⟨_, rfl, ?_, ?_⟩⟩
    · rw [ps.free_push, hregion]
    · refine h.push (frameBlock_wellFormed _) (frameBlock_aligned _) ?_
      rw [hbase, ← hregion] at hnone
      exact fun a ha hfree => hnone ⟨a, ha, hfree⟩

/-- The second frame of the space for frames is freed between two free blocks. -/
theorem pmMFrameFree_exact_second :
    ∃ ps', (pmMFrameFreeState 0x4001A0).run.run
        ⟨fun _ => 0, [⟨0x1000, 0x4000FF⟩, ⟨0x400200, 0xFFFFFF⟩]⟩ = (.ok 0, ps') ∧
      ps'.free = PhysicalMemory.free ⟨fun _ => 0, [⟨0x1000, 0x4000FF⟩, ⟨0x400200, 0xFFFFFF⟩]⟩ ∪
        Set.Icc 0x400100 0x4001FF ∧ ps'.FrameAligned := by
  refine (pmMFrameFree_exact ⟨by decide, ?_, ?_⟩ rfl (by decide)).2 ?_
  · exact List.pairwise_pair.2 (FreeBlock.disjoint_of_lt (by decide))
  · exact List.forall_mem_cons.2 ⟨⟨by decide, by decide⟩,
      List.forall_mem_singleton.2 ⟨by decide, by decide⟩⟩
  · intro h
    obtain ⟨a, ha, fb, hfb, hfree⟩ := h
    rw [show ((0x4001A0 : Word) &&& frameAddressMask).toNat = 0x400100 from by decide] at ha
    rw [Set.mem_Icc] at ha
    rw [FreeBlock.mem_region] at hfree
    rcases List.mem_cons.1 hfb with rfl | hfb
    · bv_omega
    · cases List.mem_singleton.1 hfb
      bv_omega

end

end SeKernel
