import SeKernel.Memory.Room

/-!
# What an allocation consumes

`pm_memory_allocation_request` pushes back what the block it takes has outside the limits, and
nothing of what it has inside: it consumes the block's overlap with the limits, whatever it was
asked for (`request_consumes_iff`). So the first frame that is allocated after `pmemo_init` takes
the whole space for frames, and there is no second one (`frameRequests_succeed_iff`).
-/

namespace SeKernel

/-- The number of addresses of a block. -/
def FreeBlock.size (fb : FreeBlock) : Nat := fb.endAddress.toNat + 1 - fb.startAddress.toNat

/-- The number of addresses in the free list. -/
def PhysicalMemory.freeTotal (ps : PhysicalMemory) : Nat := (ps.freeBlocks.map FreeBlock.size).sum

section

variable {ps ps' : PhysicalMemory} {fb rem : FreeBlock} {args : FreeBlockSearchArgs}
  {init : List FreeBlock}

theorem FreeBlock.size_eq_ncard (fb : FreeBlock) : fb.size = fb.region.ncard :=
  (Regions.ncard_Icc _ _).symm

theorem FreeBlock.finite_region (fb : FreeBlock) : fb.region.Finite := Set.finite_Icc _ _

theorem PhysicalMemory.free_eq_cover (ps : PhysicalMemory) :
    ps.free = Regions.cover (ps.freeBlocks.map FreeBlock.region) := by
  ext a
  simp [PhysicalMemory.free, Regions.cover]

theorem PhysicalMemory.finite_free (ps : PhysicalMemory) : ps.free.Finite := by
  rw [ps.free_eq_cover]
  refine Regions.finite_cover fun A hA => ?_
  obtain ⟨fb, -, rfl⟩ := List.mem_map.1 hA
  exact fb.finite_region

/-- Disjoint blocks have as many addresses as are free. -/
theorem PhysicalMemory.freeTotal_eq_ncard
    (hdisj : (ps.freeBlocks.map FreeBlock.region).Pairwise Disjoint) :
    ps.freeTotal = ps.free.ncard := by
  rw [ps.free_eq_cover, Regions.ncard_cover hdisj, List.map_map, PhysicalMemory.freeTotal]
  · congr 1
    exact List.map_congr_left fun fb _ => fb.size_eq_ncard
  · intro A hA
    obtain ⟨fb, -, rfl⟩ := List.mem_map.1 hA
    exact fb.finite_region

/-! ## The remainders -/

/-- A block that meets the limits: its remainders lie in it. -/
theorem pushRemainders_subset (hfb : fb.WellFormed) (hargs : args.Valid)
    (hoverlap : 0 < fb.overlap args)
    (hrem : rem ∈ pushRemainders [] fb args) : rem.region ⊆ fb.region := by
  obtain ⟨horder, hbus⟩ := FreeBlock.wellFormed_iff.1 hfb
  obtain ⟨-, hle, hlimit⟩ := hargs
  unfold FreeBlock.overlap at hoverlap
  rcases mem_pushRemainders hrem with ⟨hlt, rfl⟩ | ⟨hlt, rfl⟩
  · refine Set.Icc_subset_Icc le_rfl ?_
    show (args.startLimitAddress - 1).toNat ≤ fb.endAddress.toNat
    bv_omega
  · refine Set.Icc_subset_Icc ?_ le_rfl
    show fb.startAddress.toNat ≤ (args.endLimitAddress + 1).toNat
    bv_omega

/-- A block that does not meet the limits lies in one of its remainders. -/
theorem subset_pushRemainders (hfb : fb.WellFormed) (hargs : args.Valid)
    (hoverlap : fb.overlap args = 0) :
    ∃ rem ∈ pushRemainders [] fb args, fb.region ⊆ rem.region := by
  obtain ⟨horder, hbus⟩ := FreeBlock.wellFormed_iff.1 hfb
  obtain ⟨-, hle, hlimit⟩ := hargs
  unfold FreeBlock.overlap at hoverlap
  have hside : fb.endAddress < args.startLimitAddress ∨ args.endLimitAddress < fb.startAddress := by
    bv_omega
  unfold pushRemainders Seq.linkedlistPush
  rcases hside with hend | hstart
  · have hbelow : fb.startAddress < args.startLimitAddress := by bv_omega
    have habove : ¬ fb.endAddress > args.endLimitAddress := by bv_omega
    simp only [if_pos hbelow, if_neg habove]
    refine ⟨_, List.mem_singleton_self _, Set.Icc_subset_Icc le_rfl ?_⟩
    show fb.endAddress.toNat ≤ (args.startLimitAddress - 1).toNat
    bv_omega
  · have hbelow : ¬ fb.startAddress < args.startLimitAddress := by bv_omega
    have habove : fb.endAddress > args.endLimitAddress := by bv_omega
    simp only [if_neg hbelow, if_pos habove]
    refine ⟨_, List.mem_singleton_self _, Set.Icc_subset_Icc ?_ le_rfl⟩
    show (args.endLimitAddress + 1).toNat ≤ fb.startAddress.toNat
    bv_omega

/-- The addresses of the remainders. -/
theorem pushRemainders_size (hfb : fb.WellFormed) (hargs : args.Valid) :
    ((pushRemainders [] fb args).map FreeBlock.size).sum =
      (args.startLimitAddress.toNat - fb.startAddress.toNat) +
        (fb.endAddress.toNat - args.endLimitAddress.toNat) := by
  obtain ⟨horder, hbus⟩ := FreeBlock.wellFormed_iff.1 hfb
  obtain ⟨-, hle, hlimit⟩ := hargs
  unfold pushRemainders Seq.linkedlistPush
  by_cases hbelow : fb.startAddress < args.startLimitAddress
  · by_cases habove : fb.endAddress > args.endLimitAddress
    · simp only [if_pos hbelow, if_pos habove, List.nil_append, List.singleton_append,
        List.map_cons, List.map_nil, List.sum_cons, List.sum_nil, FreeBlock.size]
      bv_omega
    · simp only [if_pos hbelow, if_neg habove, List.nil_append, List.map_cons, List.map_nil,
        List.sum_cons, List.sum_nil, FreeBlock.size]
      bv_omega
  · by_cases habove : fb.endAddress > args.endLimitAddress
    · simp only [if_neg hbelow, if_pos habove, List.nil_append, List.map_cons, List.map_nil,
        List.sum_cons, List.sum_nil, FreeBlock.size]
      bv_omega
    · simp only [if_neg hbelow, if_neg habove, List.map_nil, List.sum_nil]
      bv_omega

/-- Exchanging the last block for its remainders keeps the blocks disjoint when the block meets the
limits. -/
theorem pairwise_pushRemainders (hdisj : ((init ++ [fb]).map FreeBlock.region).Pairwise Disjoint)
    (hfb : fb.WellFormed) (hargs : args.Valid) (hoverlap : 0 < fb.overlap args) :
    ((init ++ pushRemainders [] fb args).map FreeBlock.region).Pairwise Disjoint := by
  have hperm : ((init ++ [fb]).map FreeBlock.region).Perm
      (fb.region :: init.map FreeBlock.region) := by
    rw [List.map_append]
    exact List.perm_append_singleton _ _
  have hparts : ((pushRemainders [] fb args).map FreeBlock.region).Pairwise Disjoint :=
    pushRemainders_disjoint hargs.ordered hargs.onBus
  have hnew := Regions.pairwise_replace (Regions.pairwise_perm hperm hdisj) hparts ?_
  · refine Regions.pairwise_perm ?_ hnew
    rw [List.map_append]
    exact List.perm_append_comm
  · intro P hP
    obtain ⟨rem, hrem, rfl⟩ := List.mem_map.1 hP
    exact pushRemainders_subset hfb hargs hoverlap hrem

/-! ## Requests -/

/-- A request that returns consumes the addresses that the last block has within the limits: in the
sum over the blocks, and in the set of free addresses. Reference: `pm_memory_allocation_request`
(`src/memory_s.c:151`). -/
theorem request_consumes (hwf : ∀ fb ∈ ps.freeBlocks, fb.WellFormed)
    (hdisj : (ps.freeBlocks.map FreeBlock.region).Pairwise Disjoint) (hargs : args.Valid)
    {address : Word} (hreq : pmMemoryAllocationRequest ps args = .ok (0, address, ps')) :
    ∃ fb, ps.freeBlocks.getLast? = some fb ∧
      (ps'.freeTotal + args.minAddressKon.toNat = ps.freeTotal ↔
        fb.overlap args = args.minAddressKon.toNat) ∧
      (ps'.free.ncard + args.minAddressKon.toNat = ps.free.ncard ↔
        fb.overlap args = args.minAddressKon.toNat) := by
  obtain ⟨-, -, -, init, fb, hlist, rfl⟩ := pmMemoryAllocationRequest_eq_ok.1 hreq
  have hfb : fb.WellFormed := hwf fb (by simp [hlist])
  obtain ⟨horder, hbus⟩ := FreeBlock.wellFormed_iff.1 hfb
  have hkon := hargs.kon
  have htotal : ps.freeTotal = (init.map FreeBlock.size).sum + fb.size := by
    simp [PhysicalMemory.freeTotal, hlist]
  have htotal' : PhysicalMemory.freeTotal { ps with freeBlocks := pushRemainders init fb args } =
      (init.map FreeBlock.size).sum + ((args.startLimitAddress.toNat - fb.startAddress.toNat) +
        (fb.endAddress.toNat - args.endLimitAddress.toNat)) := by
    rw [PhysicalMemory.freeTotal, pushRemainders_eq, List.map_append, List.sum_append,
      pushRemainders_size hfb hargs]
  have hsum : PhysicalMemory.freeTotal { ps with freeBlocks := pushRemainders init fb args } +
      args.minAddressKon.toNat = ps.freeTotal ↔ fb.overlap args = args.minAddressKon.toNat := by
    have hle := hargs.ordered
    rw [htotal, htotal']
    unfold FreeBlock.size FreeBlock.overlap
    omega
  refine ⟨fb, by simp [hlist], hsum, ?_⟩
  rcases Nat.eq_zero_or_pos (fb.overlap args) with hzero | hpos
  · -- the block lies in a remainder, so nothing is consumed
    refine iff_of_false ?_ (by omega)
    have hsub : ps.free ⊆
        PhysicalMemory.free { ps with freeBlocks := pushRemainders init fb args } := by
      intro a ha
      obtain ⟨fb', hfb', ha⟩ := ha
      rw [hlist] at hfb'
      dsimp only [PhysicalMemory.free]
      rw [pushRemainders_eq]
      rcases List.mem_append.1 hfb' with hinit | hlast
      · exact ⟨fb', List.mem_append_left _ hinit, ha⟩
      · cases List.mem_singleton.1 hlast
        obtain ⟨rem, hrem, hregion⟩ := subset_pushRemainders hfb hargs hzero
        exact ⟨rem, List.mem_append_right _ hrem, hregion ha⟩
    have hcard := Set.ncard_le_ncard hsub (PhysicalMemory.finite_free _)
    omega
  · rw [← hsum, PhysicalMemory.freeTotal_eq_ncard hdisj, PhysicalMemory.freeTotal_eq_ncard]
    rw [pushRemainders_eq]
    exact pairwise_pushRemainders (hlist ▸ hdisj) hfb hargs hpos

end

/-- The request for a frame. Reference: `pm_m_frame_malloc` (`src/memory_s.c:57`). -/
def frameRequest : FreeBlockSearchArgs := ⟨memSpaceStartAddress, memSpaceEndAddress, frameSize⟩

/-- All of `k` requests for a frame, one after the other from `pmemo_init`, return 0. -/
def FrameRequestsSucceed (memory : Memory) (k : Nat) : Prop :=
  ∃ rets s, Machine.run AllocCmd.exec (List.replicate k (.request frameRequest))
    (allocInit memory) = .ok (rets, s) ∧ ∀ ret ∈ rets, ret = 0

/-- There is one frame. Reference: `pmemo_init` (`src/memory_s.c:318`). -/
theorem frameRequests_succeed_iff (memory : Memory) (k : Nat) :
    FrameRequestsSucceed memory k ↔ k ≤ 1 := by
  match k with
  | 0 => exact iff_of_true ⟨_, _, rfl, by simp⟩ (by decide)
  | 1 => exact iff_of_true ⟨_, _, rfl, by simp⟩ (by decide)
  | k + 2 =>
    refine iff_of_false ?_ (by omega)
    intro h
    obtain ⟨rets, s, hrun, -⟩ := h
    have herr : Machine.run AllocCmd.exec (List.replicate (k + 2) (.request frameRequest))
        (allocInit memory) = .error (.err 1 "pm_memory_allocation_request: no free space found") :=
      Machine.run_cons_eq_error.2 (.inr ⟨_, _, rfl, Machine.run_cons_eq_error.2 (.inl rfl)⟩)
    rw [herr] at hrun
    cases hrun

/-- A request that returns consumes exactly what it asked for if and only if the last block of the
list has exactly that many addresses within the limits, and only the first request for a frame
succeeds. Reference: `pm_memory_allocation_request` (`src/memory_s.c:151`). -/
theorem request_consumes_iff {ps ps' : PhysicalMemory} {args : FreeBlockSearchArgs} {address : Word}
    (hwf : ∀ fb ∈ ps.freeBlocks, fb.WellFormed)
    (hdisj : (ps.freeBlocks.map FreeBlock.region).Pairwise Disjoint) (hargs : args.Valid)
    (hreq : pmMemoryAllocationRequest ps args = .ok (0, address, ps')) (memory : Memory) (k : Nat) :
    (ps'.freeTotal + args.minAddressKon.toNat = ps.freeTotal ↔
      ∃ fb, ps.freeBlocks.getLast? = some fb ∧ fb.overlap args = args.minAddressKon.toNat) ∧
    (ps'.free.ncard + args.minAddressKon.toNat = ps.free.ncard ↔
      ∃ fb, ps.freeBlocks.getLast? = some fb ∧ fb.overlap args = args.minAddressKon.toNat) ∧
    (FrameRequestsSucceed memory k ↔ k ≤ 1) := by
  obtain ⟨fb, hlast, hsum, hcard⟩ := request_consumes hwf hdisj hargs hreq
  have hiff : (∃ fb', ps.freeBlocks.getLast? = some fb' ∧
        fb'.overlap args = args.minAddressKon.toNat) ↔
      fb.overlap args = args.minAddressKon.toNat := by
    simp [hlast]
  rw [hiff]
  exact ⟨hsum, hcard, frameRequests_succeed_iff memory k⟩

/-- A frame from a list whose last block is one frame of the space for frames. -/
theorem request_consumes_iff_frame : ∃ ps',
    pmMemoryAllocationRequest ⟨fun _ => 0, [⟨0x1000, 0x1FFF⟩, ⟨0x3FFFF0, 0x4000FF⟩]⟩ frameRequest =
      .ok (0, 0x400000, ps') ∧ ps'.freeTotal + 256 = 0x1110 := by
  let ps : PhysicalMemory := ⟨fun _ => 0, [⟨0x1000, 0x1FFF⟩, ⟨0x3FFFF0, 0x4000FF⟩]⟩
  have hdisj : (ps.freeBlocks.map FreeBlock.region).Pairwise Disjoint :=
    List.pairwise_pair.2 (FreeBlock.disjoint_of_lt (by decide))
  have hwf : ∀ fb ∈ ps.freeBlocks, fb.WellFormed := by decide
  have hargs : frameRequest.Valid := ⟨by decide, by decide, by decide⟩
  exact ⟨_, rfl, (request_consumes_iff hwf hdisj hargs rfl (fun _ => 0) 1).1.2 ⟨_, rfl, by decide⟩⟩

/-- The first frame takes all `0xC00000` addresses of the space for frames, and the second request
leaves the program. -/
theorem request_consumes_all : ∃ ps',
    pmMemoryAllocationRequest ⟨fun _ => 0, pmemoInitFreeBlocks⟩ frameRequest =
      .ok (0, 0x400000, ps') ∧
    PhysicalMemory.freeTotal ⟨fun _ => 0, pmemoInitFreeBlocks⟩ = 0x1000000 ∧
    ps'.freeTotal = 0x400000 ∧
    ps'.freeTotal + frameRequest.minAddressKon.toNat ≠
      PhysicalMemory.freeTotal ⟨fun _ => 0, pmemoInitFreeBlocks⟩ ∧
    ¬ FrameRequestsSucceed (fun _ => 0) 2 := by
  refine ⟨_, rfl, by decide, by decide, by decide, ?_⟩
  rw [frameRequests_succeed_iff]
  decide

end SeKernel
