import SeKernel.Lib.Machine
import SeKernel.Lib.Masks
import SeKernel.Lib.Regions
import SeKernel.Memory.Alloc
import Mathlib.Algebra.Order.Group.Multiset
import Mathlib.Tactic.Abel

/-!
# Runs of the allocator

A run is a list of requests and frame frees from the free list of `pmemo_init`. The ranges handed
out and the free blocks are regions of addresses; a run is safe while they are pairwise disjoint.
A request removes the last block of the list whatever block its search found, so it is safe only
when that block holds the range it hands out (`AllocCmd.LastBlockFits`).
-/

namespace SeKernel

/-- A range that a request has handed out: `min_address_kon` addresses from the one returned. -/
structure LiveRange where
  startAddress : Word
  addressKon : Word
  deriving DecidableEq, Repr

/-- The memory and the ranges handed out and not yet freed. -/
structure AllocState where
  ps : PhysicalMemory
  live : List LiveRange

/-- The calls of a run. -/
inductive AllocCmd
  | request (args : FreeBlockSearchArgs)
  | frameFree (physicalAddress : Word)
  deriving DecidableEq, Repr

/-- One call and what it makes of the live ranges. -/
def AllocCmd.exec : AllocCmd → AllocState → Outcome (Int × AllocState)
  | .request args, s => do
    let (ret, address, ps) ← pmMemoryAllocationRequest s.ps args
    return (ret, ⟨ps, s.live ++ [⟨address, args.minAddressKon⟩]⟩)
  | .frameFree physicalAddress, s => do
    let (ret, ps) ← pmMFrameFree s.ps physicalAddress
    return (ret, ⟨ps, s.live.erase ⟨physicalAddress, frameSize⟩⟩)

/-- The calls a run may make: requests for at least one address between ordered limits on the bus,
and frees of live frames that start on a frame boundary. -/
def AllocCmd.Valid : AllocCmd → AllocState → Prop
  | .request args, _ =>
    1 ≤ args.minAddressKon ∧ args.startLimitAddress ≤ args.endLimitAddress ∧
      args.endLimitAddress ≤ memSpaceEndAddress
  | .frameFree physicalAddress, s =>
    physicalAddress.toNat % 256 = 0 ∧ ⟨physicalAddress, frameSize⟩ ∈ s.live

/-- The addresses of a live range. -/
def LiveRange.region (r : LiveRange) : Set Nat :=
  Set.Ico r.startAddress.toNat (r.startAddress.toNat + r.addressKon.toNat)

/-- The addresses of a free block. -/
def FreeBlock.region (fb : FreeBlock) : Set Nat := Set.Icc fb.startAddress.toNat fb.endAddress.toNat

/-- A block of addresses on the bus. -/
def FreeBlock.WellFormed (fb : FreeBlock) : Prop :=
  fb.startAddress ≤ fb.endAddress ∧ fb.endAddress ≤ memSpaceEndAddress

@[simp] theorem LiveRange.mem_region {r : LiveRange} {a : Nat} :
    a ∈ r.region ↔
      r.startAddress.toNat ≤ a ∧ a < r.startAddress.toNat + r.addressKon.toNat := Iff.rfl

@[simp] theorem FreeBlock.mem_region {fb : FreeBlock} {a : Nat} :
    a ∈ fb.region ↔ fb.startAddress.toNat ≤ a ∧ a ≤ fb.endAddress.toNat := Iff.rfl

theorem FreeBlock.wellFormed_iff {fb : FreeBlock} : fb.WellFormed ↔
    fb.startAddress.toNat ≤ fb.endAddress.toNat ∧ fb.endAddress.toNat ≤ 0xFFFFFF := Iff.rfl

/-- No address is handed out twice, free twice, or both handed out and free. -/
structure AllocState.Safe (s : AllocState) : Prop where
  wellFormed : ∀ fb ∈ s.ps.freeBlocks, fb.WellFormed
  live : (s.live.map LiveRange.region).Pairwise Disjoint
  free : (s.ps.freeBlocks.map FreeBlock.region).Pairwise Disjoint
  separate : ∀ r ∈ s.live, ∀ fb ∈ s.ps.freeBlocks, Disjoint r.region fb.region

/-- The block holds the range that a request with these limits hands out, and the range ends within
the limits. -/
def FreeBlock.Fits (fb : FreeBlock) (args : FreeBlockSearchArgs) : Prop :=
  fb.startAddress ≤ args.startLimitAddress ∧
  args.startLimitAddress.toNat + args.minAddressKon.toNat ≤ fb.endAddress.toNat + 1 ∧
  args.startLimitAddress.toNat + args.minAddressKon.toNat ≤ args.endLimitAddress.toNat + 1

/-- When the search of a request finds a block, the last block of the list fits the request. -/
def AllocCmd.LastBlockFits : AllocCmd → AllocState → Prop
  | .request args, s => (∃ found ∈ s.ps.freeBlocks, searchSpace found args) →
    ∀ fb, s.ps.freeBlocks.getLast? = some fb → fb.Fits args
  | .frameFree _, _ => True

instance : DecidablePred FreeBlock.WellFormed := fun _ => inferInstanceAs (Decidable (_ ∧ _))

instance (fb : FreeBlock) (args : FreeBlockSearchArgs) : Decidable (fb.Fits args) :=
  inferInstanceAs (Decidable (_ ∧ _))

instance (cmd : AllocCmd) (s : AllocState) : Decidable (cmd.Valid s) :=
  match cmd with
  | .request _ => inferInstanceAs (Decidable (_ ∧ _))
  | .frameFree _ => inferInstanceAs (Decidable (_ ∧ _))

/-- The state `pmemo_init` leaves, nothing handed out. -/
def allocInit (memory : Memory) : AllocState := ⟨⟨memory, pmemoInitFreeBlocks⟩, []⟩

/-! ## The invariant -/

/-- The regions of a state. -/
def AllocState.regions (s : AllocState) : List (Set Nat) :=
  s.live.map LiveRange.region ++ s.ps.freeBlocks.map FreeBlock.region

/-- What a run keeps: all regions disjoint, all blocks and live ranges start on the bus. -/
structure AllocState.Inv (s : AllocState) : Prop where
  wellFormed : ∀ fb ∈ s.ps.freeBlocks, fb.WellFormed
  onBus : ∀ r ∈ s.live, r.startAddress ≤ memSpaceEndAddress
  disjoint : s.regions.Pairwise Disjoint

variable {s s' : AllocState} {ret : Int}

theorem AllocState.Inv.safe (h : s.Inv) : s.Safe := by
  obtain ⟨hlive, hfree, hsep⟩ := List.pairwise_append.1 h.disjoint
  refine ⟨h.wellFormed, hlive, hfree, ?_⟩
  intro r hr fb hfb
  exact hsep _ (List.mem_map_of_mem hr) _ (List.mem_map_of_mem hfb)

/-- Reference: `pmemo_init` (`src/memory_s.c:318`). -/
theorem allocInit_inv (memory : Memory) : (allocInit memory).Inv := by
  refine ⟨?_, ?_, ?_⟩
  · intro fb hfb
    simp only [allocInit, pmemoInitFreeBlocks, Seq.linkedlistPush, List.nil_append,
      List.mem_singleton] at hfb
    subst hfb
    decide
  · intro r hr
    cases hr
  · simp [AllocState.regions, allocInit, pmemoInitFreeBlocks, Seq.linkedlistPush]

/-- The blocks pushed back are what is left of the block on both sides of the limits. -/
theorem pushRemainders_eq (freeBlocks : List FreeBlock) (fb : FreeBlock)
    (args : FreeBlockSearchArgs) :
    pushRemainders freeBlocks fb args = freeBlocks ++ pushRemainders [] fb args := by
  unfold pushRemainders Seq.linkedlistPush
  dsimp only
  split <;> split <;> simp

/-- A remainder ends right before the limits or starts right after them, and lies in the block. -/
theorem mem_pushRemainders {fb rem : FreeBlock} {args : FreeBlockSearchArgs}
    (hrem : rem ∈ pushRemainders [] fb args) :
    (fb.startAddress < args.startLimitAddress ∧
      rem = ⟨fb.startAddress, args.startLimitAddress - 1⟩) ∨
    (args.endLimitAddress < fb.endAddress ∧ rem = ⟨args.endLimitAddress + 1, fb.endAddress⟩) := by
  unfold pushRemainders Seq.linkedlistPush at hrem
  dsimp only at hrem
  split at hrem <;> split at hrem <;> simp_all

section

variable {args : FreeBlockSearchArgs} {fb : FreeBlock}

/-- What the remainders of a fitting block are: blocks on the bus, inside the block, outside the
range handed out. -/
theorem FreeBlock.Fits.remainder (hfits : fb.Fits args) (hwf : fb.WellFormed)
    (hkon : 1 ≤ args.minAddressKon) {rem : FreeBlock} (hrem : rem ∈ pushRemainders [] fb args) :
    rem.WellFormed ∧ rem.region ⊆ fb.region ∧
      Disjoint (LiveRange.region ⟨args.startLimitAddress, args.minAddressKon⟩) rem.region := by
  obtain ⟨hstart, hend, hlimit⟩ := hfits
  obtain ⟨horder, hbus⟩ := FreeBlock.wellFormed_iff.1 hwf
  rw [FreeBlock.wellFormed_iff, Set.disjoint_left]
  simp only [LiveRange.mem_region, FreeBlock.mem_region]
  rcases mem_pushRemainders hrem with ⟨hlt, rfl⟩ | ⟨hlt, rfl⟩
  · have hlast : (args.startLimitAddress - 1).toNat = args.startLimitAddress.toNat - 1 := by
      bv_omega
    refine ⟨⟨?_, ?_⟩, ?_, ?_⟩
    · bv_omega
    · bv_omega
    · refine Set.Icc_subset_Icc le_rfl ?_
      show (args.startLimitAddress - 1).toNat ≤ fb.endAddress.toNat
      bv_omega
    · intro a ha
      rw [hlast]
      bv_omega
  · have hfirst : (args.endLimitAddress + 1).toNat = args.endLimitAddress.toNat + 1 := by bv_omega
    refine ⟨⟨?_, hbus⟩, ?_, ?_⟩
    · bv_omega
    · refine Set.Icc_subset_Icc ?_ le_rfl
      show fb.startAddress.toNat ≤ (args.endLimitAddress + 1).toNat
      bv_omega
    · intro a ha
      rw [hfirst]
      omega

/-- The range handed out lies in the block. -/
theorem FreeBlock.Fits.range_subset (hfits : fb.Fits args) :
    LiveRange.region ⟨args.startLimitAddress, args.minAddressKon⟩ ⊆ fb.region := by
  obtain ⟨hstart, hend, -⟩ := hfits
  intro a ha
  rw [LiveRange.mem_region] at ha
  rw [FreeBlock.mem_region]
  bv_omega

/-- Blocks one after the other do not meet. -/
theorem FreeBlock.disjoint_of_lt {fb fb' : FreeBlock} (h : fb.endAddress < fb'.startAddress) :
    Disjoint fb.region fb'.region := by
  rw [Set.disjoint_left]
  intro a ha ha'
  have := ha.2
  have := ha'.1
  bv_omega

/-- The remainders on the two sides of the limits do not meet. -/
theorem pushRemainders_disjoint (hle : args.startLimitAddress ≤ args.endLimitAddress)
    (hlimit : args.endLimitAddress ≤ memSpaceEndAddress) :
    ((pushRemainders [] fb args).map FreeBlock.region).Pairwise Disjoint := by
  unfold pushRemainders Seq.linkedlistPush
  dsimp only
  split
  · next hlt =>
    split
    · unfold memSpaceEndAddress at hlimit
      refine List.pairwise_pair.2 (FreeBlock.disjoint_of_lt ?_)
      show args.startLimitAddress - 1 < args.endLimitAddress + 1
      bv_omega
    · simp
  · split <;> simp

end

/-! ## Steps and runs -/

/-- Replacing the last block by the range handed out and the remainders keeps the invariant. -/
theorem AllocState.Inv.request (h : s.Inv) {args : FreeBlockSearchArgs}
    (hvalid : (AllocCmd.request args).Valid s) (hfits : (AllocCmd.request args).LastBlockFits s)
    (hexec : (AllocCmd.request args).exec s = .ok (ret, s')) : s'.Inv := by
  obtain ⟨hkon, hle, hlimit⟩ := hvalid
  unfold AllocCmd.exec at hexec
  obtain ⟨⟨r, address, ps⟩, hreq, hret⟩ := Outcome.bind_eq_ok.1 hexec
  obtain ⟨hfound, rfl, rfl, init, fb, hlist, rfl⟩ := pmMemoryAllocationRequest_eq_ok.1 hreq
  cases hret
  have hfit : fb.Fits args := hfits hfound fb (by simp [hlist])
  have hfb : fb.WellFormed := h.wellFormed fb (by simp [hlist])
  rw [pushRemainders_eq]
  refine ⟨?_, ?_, ?_⟩
  · intro b hb
    rcases List.mem_append.1 hb with hb | hb
    · exact h.wellFormed b (by simp [hlist, hb])
    · exact (hfit.remainder hfb hkon hb).1
  · intro r hr
    rcases List.mem_append.1 hr with hr | hr
    · exact h.onBus r hr
    · cases List.mem_singleton.1 hr
      exact BitVec.le_trans hle hlimit
  · have hold : s.regions.Perm
        (fb.region :: (s.live.map LiveRange.region ++ init.map FreeBlock.region)) := by
      rw [AllocState.regions, hlist, List.map_append, ← List.append_assoc]
      exact List.perm_append_singleton _ _
    have hpieces : (LiveRange.region ⟨args.startLimitAddress, args.minAddressKon⟩ ::
        (pushRemainders [] fb args).map FreeBlock.region).Pairwise Disjoint := by
      refine List.pairwise_cons.2 ⟨?_, pushRemainders_disjoint hle hlimit⟩
      intro P hP
      obtain ⟨rem, hrem, rfl⟩ := List.mem_map.1 hP
      exact (hfit.remainder hfb hkon hrem).2.2
    have hnew := Regions.pairwise_replace (Regions.pairwise_perm hold h.disjoint) hpieces ?_
    · refine Regions.pairwise_perm ?_ hnew
      simp only [AllocState.regions, List.map_append, List.map_cons, List.map_nil,
        ← Multiset.coe_eq_coe, ← Multiset.coe_add, ← Multiset.cons_coe, ← Multiset.singleton_add,
        List.cons_append, Multiset.coe_nil, add_zero]
      abel
    · intro P hP
      rcases List.mem_cons.1 hP with rfl | hP
      · exact hfit.range_subset
      · obtain ⟨rem, hrem, rfl⟩ := List.mem_map.1 hP
        exact (hfit.remainder hfb hkon hrem).2.1

/-- A frame's base address is itself. Reference: `FRAME_ADDRESS_MASK` (`headers/memory_s.h:14`). -/
theorem and_frameAddressMask {a : Word} (haligned : a.toNat % 256 = 0)
    (hbus : a ≤ memSpaceEndAddress) : a &&& frameAddressMask = a := by
  refine BitVec.eq_of_toNat_eq ?_
  rw [Masks.toNat_and_mask (k := 8) (m := 24) a (by decide) (by decide)]
  unfold memSpaceEndAddress at hbus
  bv_omega

/-- Handing a live frame back keeps the invariant. -/
theorem AllocState.Inv.frameFree (h : s.Inv) {physicalAddress : Word}
    (hvalid : (AllocCmd.frameFree physicalAddress).Valid s)
    (hexec : (AllocCmd.frameFree physicalAddress).exec s = .ok (ret, s')) : s'.Inv := by
  obtain ⟨haligned, hlive⟩ := hvalid
  have hbus : physicalAddress ≤ memSpaceEndAddress := h.onBus _ hlive
  have hlast : (physicalAddress + frameSize - 1).toNat = physicalAddress.toNat + 255 := by
    unfold memSpaceEndAddress at hbus
    rw [show frameSize = 256 from rfl]
    bv_omega
  have hregion : FreeBlock.region ⟨physicalAddress, physicalAddress + frameSize - 1⟩ =
      LiveRange.region ⟨physicalAddress, frameSize⟩ := by
    ext a
    simp only [FreeBlock.mem_region, LiveRange.mem_region, hlast]
    have : frameSize.toNat = 256 := by decide
    omega
  unfold AllocCmd.exec at hexec
  obtain ⟨⟨r, ps⟩, hfree, hret⟩ := Outcome.bind_eq_ok.1 hexec
  obtain ⟨-, rfl, rfl⟩ := pmMFrameFree_eq_ok.1 hfree
  cases hret
  rw [and_frameAddressMask haligned hbus]
  refine ⟨?_, ?_, ?_⟩
  · intro b hb
    rcases List.mem_append.1 hb with hb | hb
    · exact h.wellFormed b hb
    · cases List.mem_singleton.1 hb
      refine FreeBlock.wellFormed_iff.2 ?_
      unfold memSpaceEndAddress at hbus
      bv_omega
  · intro r hr
    exact h.onBus r (List.mem_of_mem_erase hr)
  · refine Regions.pairwise_perm ?_ h.disjoint
    have hperm := (List.perm_cons_erase hlive).map LiveRange.region
    simp only [AllocState.regions, List.map_append, List.map_cons, List.map_nil, hregion]
    refine (hperm.append_right _).trans ?_
    simp only [← Multiset.coe_eq_coe, ← Multiset.coe_add, List.map_cons, ← Multiset.cons_coe,
      ← Multiset.singleton_add, List.cons_append, Multiset.coe_nil, add_zero]
    abel

/-- Every step that meets the condition keeps the invariant. -/
theorem AllocCmd.exec_inv {cmd : AllocCmd} (h : s.Inv) (hcond : cmd.Valid s ∧ cmd.LastBlockFits s)
    (hexec : cmd.exec s = .ok (ret, s')) : s'.Inv := by
  cases cmd with
  | request args => exact h.request hcond.1 hcond.2 hexec
  | frameFree physicalAddress => exact h.frameFree hcond.1 hexec

/-- In every run in which each request that finds a block also finds that the last block fits it,
every state reached is safe. Reference: `pm_memory_allocation_request` (`src/memory_s.c:151`),
`pm_m_frame_free` (`src/memory_s.c:72`). -/
theorem allocator_safe_of_lastBlockFits {memory : Memory} {cmds : List AllocCmd} {rets : List Int}
    (hmeets : Machine.Meets AllocCmd.exec (fun cmd s => cmd.Valid s ∧ cmd.LastBlockFits s) cmds
      (allocInit memory))
    (hrun : Machine.run AllocCmd.exec cmds (allocInit memory) = .ok (rets, s)) : s.Safe := by
  have hinv : s.Inv := Machine.run_invariant_of_meets (fun cmd s ret s' hs hcond hexec =>
    AllocCmd.exec_inv hs hcond hexec) (allocInit_inv memory) hmeets hrun
  exact hinv.safe

/-- A frame, a page table, the frame back and taken again. -/
theorem allocator_safe_of_lastBlockFits_four : ∃ rets s,
    Machine.run AllocCmd.exec [.request ⟨0x400000, 0xFFFFFF, 256⟩, .request ⟨0, 0x3FFFFF, 8⟩,
      .frameFree 0x400000, .request ⟨0x400000, 0xFFFFFF, 256⟩] (allocInit fun _ => 0) =
        .ok (rets, s) ∧
    s.live = [⟨0, 8⟩, ⟨0x400000, 256⟩] ∧ s.Safe := by
  have hmeets : Machine.Meets AllocCmd.exec (fun cmd s => cmd.Valid s ∧ cmd.LastBlockFits s)
      [.request ⟨0x400000, 0xFFFFFF, 256⟩, .request ⟨0, 0x3FFFFF, 8⟩, .frameFree 0x400000,
        .request ⟨0x400000, 0xFFFFFF, 256⟩] (allocInit fun _ => 0) := by
    refine .cons ⟨by decide, fun _ fb hfb => ?_⟩ rfl <| .cons ⟨by decide, fun _ fb hfb => ?_⟩ rfl <|
      .cons ⟨by decide, trivial⟩ rfl <| .cons ⟨by decide, fun _ fb hfb => ?_⟩ rfl trivial
    all_goals
      cases hfb
      decide
  exact ⟨_, _, rfl, rfl, allocator_safe_of_lastBlockFits hmeets rfl⟩

/-- A range handed out at `0x1000`; the next request, for addresses below it, takes the block above
it and pushes that block back from `0x1000` on. -/
theorem allocator_overlaps : ∃ rets s,
    Machine.Meets AllocCmd.exec AllocCmd.Valid [.request ⟨0x1000, 0x1FFF, 16⟩,
      .request ⟨0, 0xFFF, 16⟩] (allocInit fun _ => 0) ∧
    Machine.run AllocCmd.exec [.request ⟨0x1000, 0x1FFF, 16⟩, .request ⟨0, 0xFFF, 16⟩]
      (allocInit fun _ => 0) = .ok (rets, s) ∧ ¬ s.Safe := by
  refine ⟨_, _, .cons (by decide) rfl <| .cons (by decide) rfl trivial, rfl, ?_⟩
  intro hsafe
  have hd := hsafe.separate ⟨0x1000, 16⟩ (by decide) ⟨0x1000, 0xFFFFFF⟩ (by decide)
  have hlive : 0x1000 ∈ LiveRange.region ⟨0x1000, 16⟩ := by simp
  have hfree : 0x1000 ∈ FreeBlock.region ⟨0x1000, 0xFFFFFF⟩ := by simp
  exact Set.disjoint_left.1 hd hlive hfree

end SeKernel
