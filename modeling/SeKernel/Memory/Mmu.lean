import SeKernel.Fault
import SeKernel.Memory.PageTable

/-!
# Address translation

The MMU of `src/memory_s.c`: the TLB, the walk of a page table, and `mmu_resolve`. The TLB has
`tlb_max_space = n` slots, `n` positive, and a page has one slot, its number modulo `n`. The memory
that an MMU points to is shared, so it is an argument.
-/

namespace SeKernel

/-- Reference: `struct pte` (`headers/memory_s.h:44`). -/
structure Pte where
  virtualAddress : Word
  physicalAddress : Word
  active : Bool
  deriving DecidableEq, Repr

/-- Reference: `struct mmu` (`headers/memory_s.h:51`). -/
structure Mmu (n : Nat) where
  tlbHashArr : Fin n → Pte

/-- `virtual_address >> FRAME_OFFSET`. -/
def pageNumber (virtualAddress : Word) : Word := virtualAddress >>> frameOffset

/-- The TLB slot of an address: `page_number % p_mmu->tlb_max_space`. -/
def tlbHash (n : Nat) [NeZero n] (virtualAddress : Word) : Fin n :=
  Fin.ofNat n (pageNumber virtualAddress).toNat

variable {n : Nat} [NeZero n]

/-- Reference: `tlb_get_match` (`src/memory_s.c:284`). -/
def tlbGetMatch (mmu : Mmu n) (virtualAddress : Word) : Option Pte :=
  let potentialMatchPte := mmu.tlbHashArr (tlbHash n virtualAddress)
  if potentialMatchPte.active ∧
      potentialMatchPte.virtualAddress &&& ~~~frameOffsetMask =
        virtualAddress &&& ~~~frameOffsetMask then
    some potentialMatchPte
  else
    none

/-- Reference: `tlb_add_entry` (`src/memory_s.c:299`). -/
def tlbAddEntry (mmu : Mmu n) (virtualAddress physicalAddress : Word) : Mmu n where
  tlbHashArr := Function.update mmu.tlbHashArr (tlbHash n virtualAddress)
    ⟨virtualAddress &&& ~~~frameOffsetMask, physicalAddress &&& ~~~frameOffsetMask, true⟩

/-- Where the walk of the table at `ptbr` reads the entry of a page. Reference:
`mmu_resolve_frame_root_address_from_mem` (`src/memory_s.c:279`). -/
def pteAddress (ptbr selectedPageNumb : Word) : Word :=
  ptbr + pagetableCoreAddressKop + selectedPageNumb * pagetableEntryAddressKop

/-- Reference: `mmu_resolve_frame_root_address_from_mem` (`src/memory_s.c:272`). -/
def mmuResolveFrameRootAddressFromMem (memory : Memory) (ptbr virtualAddress : Word) :
    Outcome Word :=
  let selectedPageNumb := (virtualAddress &&& ~~~frameOffsetMask) >>> frameOffset
  if pmReadWord memory ptbr < selectedPageNumb then
    throw (.err 1 "mmu_resolve_frame_root_address_from_mem: invalid page number")
  else
    return pmReadWord memory (pteAddress ptbr selectedPageNumb) &&& ~~~frameOffsetMask

/-- The physical address and the MMU after the call. Reference: `mmu_resolve`
(`src/memory_s.c:258`). -/
def mmuResolve (mmu : Mmu n) (memory : Memory) (ptbr virtualAddress : Word) :
    Outcome (Word × Mmu n) := do
  let (frameAddress, mmu) ←
    match tlbGetMatch mmu virtualAddress with
    | some matchPte => pure (matchPte.physicalAddress, mmu)
    | none => do
      let frameAddress ← mmuResolveFrameRootAddressFromMem memory ptbr virtualAddress
      pure (frameAddress, tlbAddEntry mmu virtualAddress frameAddress)
  return (frameAddress &&& ~~~frameOffsetMask ||| virtualAddress &&& frameOffsetMask, mmu)

/-- Reference: `tlb_flush` (`src/memory_s.c:308`). -/
def tlbFlush (n : Nat) : Mmu n where
  tlbHashArr _ := ⟨0, 0, false⟩

end SeKernel
