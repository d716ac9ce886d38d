import SeKernel.Memory.PageTable

/-!
# Room for a request

The addresses of a free block within the limits of a request (`FreeBlock.overlap`), and what the
test of `__search_space` makes of their number: it computes `valid_start - valid_end + 1` where the
number is `valid_end - valid_start + 1`, so it refuses an overlap of two addresses and accepts every
longer one, whatever the request asks for (`searchSpace_iff`).
-/

namespace SeKernel

/-- The number of addresses of the block within the limits of the request. -/
def FreeBlock.overlap (fb : FreeBlock) (args : FreeBlockSearchArgs) : Nat :=
  min fb.endAddress.toNat args.endLimitAddress.toNat + 1 -
    max fb.startAddress.toNat args.startLimitAddress.toNat

/-- A request for at least one address, with ordered limits on the bus. -/
structure FreeBlockSearchArgs.Valid (args : FreeBlockSearchArgs) : Prop where
  kon : 1 ≤ args.minAddressKon.toNat
  ordered : args.startLimitAddress.toNat ≤ args.endLimitAddress.toNat
  onBus : args.endLimitAddress.toNat ≤ 0xFFFFFF

/-- Some free block has the addresses that the request asks for within its limits. -/
def PhysicalMemory.HasRoom (ps : PhysicalMemory) (args : FreeBlockSearchArgs) : Prop :=
  ∃ fb ∈ ps.freeBlocks, args.minAddressKon.toNat ≤ fb.overlap args

section

variable {fb : FreeBlock} {args : FreeBlockSearchArgs}

/-- The overlap counts the block's addresses within the limits. -/
theorem FreeBlock.overlap_eq_ncard (fb : FreeBlock) (args : FreeBlockSearchArgs) :
    fb.overlap args =
      (fb.region ∩ Set.Icc args.startLimitAddress.toNat args.endLimitAddress.toNat).ncard := by
  rw [FreeBlock.region, Set.Icc_inter_Icc, Regions.ncard_Icc]
  rfl

/-- The test in numbers: `valid_start - valid_end + 1` is 2 less the overlap, modulo 2^32.
Reference: `__search_space` (`src/memory_s.c:33`). -/
theorem searchSpace_iff (hfb : fb.WellFormed) (hargs : args.Valid) :
    searchSpace fb args ↔ (fb.overlap args = 1 ∧ args.minAddressKon.toNat = 1) ∨
      (3 ≤ fb.overlap args ∧ fb.overlap args + args.minAddressKon.toNat ≤ 2 ^ 32 + 2) := by
  obtain ⟨horder, hbus⟩ := FreeBlock.wellFormed_iff.1 hfb
  obtain ⟨hkon, hle, hlimit⟩ := hargs
  have hmin := args.minAddressKon.isLt
  unfold searchSpace FreeBlock.overlap
  by_cases hout : fb.endAddress < args.startLimitAddress ∨ fb.startAddress > args.endLimitAddress
  · rw [if_pos hout]
    simp only [Bool.false_eq_true, false_iff]
    bv_omega
  · rw [if_neg hout]
    -- the ends of the overlap, as the code clips them
    have hstart : (if fb.startAddress < args.startLimitAddress then args.startLimitAddress
        else fb.startAddress).toNat = max fb.startAddress.toNat args.startLimitAddress.toNat := by
      split <;> bv_omega
    have hend : (if fb.endAddress > args.endLimitAddress then args.endLimitAddress
        else fb.endAddress).toNat = min fb.endAddress.toNat args.endLimitAddress.toNat := by
      split <;> bv_omega
    rw [not_or, gt_iff_lt, BitVec.not_lt, BitVec.not_lt, BitVec.le_def, BitVec.le_def] at hout
    simp only [decide_eq_true_eq, ge_iff_le, BitVec.le_def, BitVec.toNat_add, BitVec.toNat_sub,
      hstart, hend]
    have hone : (1 : Word).toNat = 1 := rfl
    rw [hone]
    omega

theorem FreeBlock.overlap_le (fb : FreeBlock) (hargs : args.Valid) : fb.overlap args ≤ 2 ^ 24 := by
  have := hargs.onBus
  unfold FreeBlock.overlap
  omega

/-! ## Requests -/

variable {ps : PhysicalMemory}

/-- The search of the request accepts some block. -/
def PhysicalMemory.Accepts (ps : PhysicalMemory) (args : FreeBlockSearchArgs) : Prop :=
  ∃ fb ∈ ps.freeBlocks, searchSpace fb args

/-- A request returns when its search accepts a block, and otherwise leaves the program before the
list is changed. Reference: `pm_memory_allocation_request` (`src/memory_s.c:151`). -/
theorem pmMemoryAllocationRequest_cases (ps : PhysicalMemory) (args : FreeBlockSearchArgs) :
    (ps.Accepts args ∧ ∃ address ps', pmMemoryAllocationRequest ps args = .ok (0, address, ps')) ∨
    (¬ ps.Accepts args ∧ pmMemoryAllocationRequest ps args =
      .error (.err 1 "pm_memory_allocation_request: no free space found")) := by
  by_cases haccepts : ps.Accepts args
  · refine .inl ⟨haccepts, ?_⟩
    obtain ⟨found, hmem, hfound⟩ := haccepts
    rcases List.eq_nil_or_concat' ps.freeBlocks with hnil | ⟨init, fb, hlist⟩
    · rw [hnil] at hmem
      cases hmem
    · exact ⟨_, _, pmMemoryAllocationRequest_eq_ok.2
        ⟨⟨found, hmem, hfound⟩, rfl, rfl, init, fb, hlist, rfl⟩⟩
  · refine .inr ⟨haccepts, ?_⟩
    have hnone : ps.freeBlocks.find? (searchSpace · args) = none :=
      List.find?_eq_none.2 fun fb hfb h => haccepts ⟨fb, hfb, h⟩
    unfold pmMemoryAllocationRequest Seq.linkedlistPeekFirstMatchFromRear
    rw [hnone]
    rfl

/-- What a request is meant to do: return exactly when there is room, and otherwise leave the
program before the list is changed. -/
structure AllocatesIffRoom (ps : PhysicalMemory) (args : FreeBlockSearchArgs) : Prop where
  returns : (∃ address ps', pmMemoryAllocationRequest ps args = .ok (0, address, ps')) ↔
    ps.HasRoom args
  exits : ¬ ps.HasRoom args → pmMemoryAllocationRequest ps args =
    .error (.err 1 "pm_memory_allocation_request: no free space found")

/-- Some block has at least three addresses within the limits, and none has as many as asked for. -/
def PhysicalMemory.AcceptsTooSmall (ps : PhysicalMemory) (args : FreeBlockSearchArgs) : Prop :=
  (∃ fb ∈ ps.freeBlocks, 3 ≤ fb.overlap args ∧
    fb.overlap args + args.minAddressKon.toNat ≤ 2 ^ 32 + 2) ∧
  ∀ fb ∈ ps.freeBlocks, fb.overlap args < args.minAddressKon.toNat

/-- One or two addresses are asked for, some block has exactly two within the limits, and no other
number that would do. -/
def PhysicalMemory.RefusesTwo (ps : PhysicalMemory) (args : FreeBlockSearchArgs) : Prop :=
  args.minAddressKon.toNat ≤ 2 ∧ (∃ fb ∈ ps.freeBlocks, fb.overlap args = 2) ∧
  ∀ fb ∈ ps.freeBlocks, fb.overlap args ≤ 2 ∧ (fb.overlap args = 1 → args.minAddressKon.toNat ≠ 1)

theorem PhysicalMemory.acceptsTooSmall_iff (hwf : ∀ fb ∈ ps.freeBlocks, fb.WellFormed)
    (hargs : args.Valid) : ps.AcceptsTooSmall args ↔ ps.Accepts args ∧ ¬ ps.HasRoom args := by
  unfold AcceptsTooSmall Accepts HasRoom
  push Not
  refine and_congr_left fun hsmall => ?_
  refine exists_congr fun fb => and_congr_right fun hfb => ?_
  rw [searchSpace_iff (hwf fb hfb) hargs]
  have := hsmall fb hfb
  omega

theorem PhysicalMemory.refusesTwo_iff (hwf : ∀ fb ∈ ps.freeBlocks, fb.WellFormed)
    (hargs : args.Valid) : ps.RefusesTwo args ↔ ps.HasRoom args ∧ ¬ ps.Accepts args := by
  have hkon := hargs.kon
  unfold RefusesTwo Accepts HasRoom
  push Not
  constructor
  · intro h
    obtain ⟨hmin, ⟨fb, hfb, htwo⟩, hall⟩ := h
    refine ⟨⟨fb, hfb, by omega⟩, fun fb' hfb' => ?_⟩
    have := hall fb' hfb'
    rw [ne_eq, searchSpace_iff (hwf fb' hfb') hargs]
    omega
  · intro h
    obtain ⟨⟨fb, hfb, hroom⟩, hnone⟩ := h
    have hoverlap (fb' : FreeBlock) (hfb' : fb' ∈ ps.freeBlocks) :
        ¬ ((fb'.overlap args = 1 ∧ args.minAddressKon.toNat = 1) ∨ (3 ≤ fb'.overlap args ∧
          fb'.overlap args + args.minAddressKon.toNat ≤ 2 ^ 32 + 2)) :=
      fun h => hnone fb' hfb' ((searchSpace_iff (hwf fb' hfb') hargs).2 h)
    have hle := fb.overlap_le hargs
    have hfb₂ := hoverlap fb hfb
    refine ⟨by omega, ⟨fb, hfb, by omega⟩, fun fb' hfb' => ?_⟩
    have hle' := fb'.overlap_le hargs
    have hfb₂' := hoverlap fb' hfb'
    omega

/-- Over well-formed blocks a request returns exactly when there is room, unless it accepts a block
that is too small or refuses the only one that is large enough. Reference:
`pm_memory_allocation_request` (`src/memory_s.c:151`), `__search_space` (`src/memory_s.c:33`). -/
theorem allocatesIffRoom_iff (hwf : ∀ fb ∈ ps.freeBlocks, fb.WellFormed) (hargs : args.Valid) :
    AllocatesIffRoom ps args ↔ ¬ ps.AcceptsTooSmall args ∧ ¬ ps.RefusesTwo args := by
  rw [ps.acceptsTooSmall_iff hwf hargs, ps.refusesTwo_iff hwf hargs]
  rcases pmMemoryAllocationRequest_cases ps args with ⟨haccepts, hok⟩ | ⟨hnot, herr⟩
  · constructor
    · intro h
      exact ⟨fun hsmall => hsmall.2 (h.returns.1 hok), fun htwo => htwo.2 haccepts⟩
    · intro h
      have hroom : ps.HasRoom args := by_contra fun hno => h.1 ⟨haccepts, hno⟩
      exact ⟨iff_of_true hok hroom, fun hno => absurd hroom hno⟩
  · have hfails : ¬ ∃ address ps', pmMemoryAllocationRequest ps args = .ok (0, address, ps') := by
      intro h
      obtain ⟨address, ps', h⟩ := h
      rw [herr] at h
      cases h
    constructor
    · intro h
      exact ⟨fun hsmall => hnot hsmall.1, fun htwo => hfails (h.returns.2 htwo.1)⟩
    · intro h
      have hno : ¬ ps.HasRoom args := fun hroom => h.2 ⟨hroom, hnot⟩
      exact ⟨iff_of_false hfails hno, fun _ => herr⟩

end

/-- A request for a frame of the memory that `pmemo_init` sets up. -/
theorem allocatesIffRoom_iff_init :
    AllocatesIffRoom ⟨fun _ => 0, pmemoInitFreeBlocks⟩ ⟨0x400000, 0xFFFFFF, 256⟩ := by
  refine (allocatesIffRoom_iff (by decide) ⟨by decide, by decide, by decide⟩).2 ⟨?_, ?_⟩
  · intro h
    exact absurd (h.2 _ (List.mem_singleton_self _)) (by decide)
  · intro h
    exact absurd h.1 (by decide)

/-- A frame is handed out from a block of four addresses, and two addresses are not handed out from
a block of two. -/
theorem allocates_without_room :
    (∃ ps', pmMemoryAllocationRequest ⟨fun _ => 0, [⟨0x400000, 0x400003⟩]⟩
      ⟨0x400000, 0xFFFFFF, 256⟩ =
      .ok (0, 0x400000, ps')) ∧
    ¬ AllocatesIffRoom ⟨fun _ => 0, [⟨0x400000, 0x400003⟩]⟩ ⟨0x400000, 0xFFFFFF, 256⟩ ∧
    ¬ AllocatesIffRoom ⟨fun _ => 0, [⟨0x400000, 0x400001⟩]⟩ ⟨0x400000, 0xFFFFFF, 2⟩ := by
  refine ⟨⟨_, rfl⟩, ?_, ?_⟩
  · intro h
    obtain ⟨fb, hfb, hroom⟩ := h.returns.1 ⟨_, _, rfl⟩
    cases List.mem_singleton.1 hfb
    revert hroom
    decide
  · intro h
    obtain ⟨address, ps', hok⟩ := h.returns.2 ⟨_, List.mem_singleton_self _, by decide⟩
    cases hok

end SeKernel
