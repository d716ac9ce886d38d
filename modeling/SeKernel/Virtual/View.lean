import Mathlib.Data.Fintype.Card
import SeKernel.Cpu.FlatStore
import SeKernel.Process.Transparency
import SeKernel.Virtual.Machine

/-!
# The virtual machine in physical memory

The words that the page table of a thread leads to, with the thread's registers, are a virtual
machine (`view`). Where the table's frames are distinct, on the bus and apart from the table, a word
of the machine is one word of physical memory: reading and writing through the table is `load` and
`store` (`view_load`, `view_store`), and what happens outside the table's frames is not seen
(`view_congr`).
-/

namespace SeKernel

/-- The virtual address of word `i`. -/
def virtualAddress (i : Nat) : Word := BitVec.ofNat 32 (4 * i)

/-- The registers `cpu` with the words that the table at `ptbr` leads to. -/
def view (pages : Nat) (m : Memory) (ptbr : Word) (cpu : CpuSnapshot) : VirtualMachine pages where
  cpu
  words i := pmReadWord m (physicalAddress m ptbr (virtualAddress i))

/-- A page table of `pages` distinct frames of the bus that are apart from the table. -/
structure PageTable (m : Memory) (ptbr : Word) (pages : Nat) : Prop extends FlatTable m ptbr where
  count : (pmReadWord m ptbr).toNat = pages

variable {pages : Nat} {m m' : Memory} {ptbr v : Word} {cpu : CpuSnapshot}

/-! ## The words of the table -/

namespace PageTable

/-- There are no more than `2 ^ 16` frames on the bus. -/
theorem le (h : PageTable m ptbr pages) : pages ≤ 2 ^ 16 := by
  have hentry (q : Fin pages) : BitVec.ofNat 32 q < pmReadWord m ptbr := by
    rw [BitVec.lt_def, h.count, BitVec.toNat_ofNat]
    exact Nat.lt_of_le_of_lt (Nat.mod_le _ _) q.isLt
  let frame (q : Fin pages) : Fin (2 ^ 16) :=
    ⟨(pageFrame m ptbr (BitVec.ofNat 32 q)).toNat / 256, by
      have hlt : (pageFrame m ptbr (BitVec.ofNat 32 q)).toNat < 2 ^ 24 := h.inSpace _ (hentry q)
      omega⟩
  have hinj : Function.Injective frame := by
    intro q q' heq
    have hdiv := congrArg Fin.val heq
    simp only [frame] at hdiv
    have hq := pageFrame_toNat m ptbr (BitVec.ofNat 32 q)
    have hq' := pageFrame_toNat m ptbr (BitVec.ofNat 32 q')
    have hsame := congrArg BitVec.toNat
      (h.distinct _ (hentry q) _ (hentry q') (BitVec.eq_of_toNat_eq (by omega)))
    have hpages : pages < 2 ^ 32 := h.count ▸ (pmReadWord m ptbr).isLt
    rw [BitVec.toNat_ofNat, BitVec.toNat_ofNat, Nat.mod_eq_of_lt (by omega),
      Nat.mod_eq_of_lt (by omega)] at hsame
    exact Fin.ext hsame
  simpa using Fintype.card_le_of_injective frame hinj

/-- A page of the table, and a word of the machine. -/
theorem pageNumber_lt_iff (h : PageTable m ptbr pages) (v : Word) :
    pageNumber v < pmReadWord m ptbr ↔ v.toNat / 4 < 64 * pages := by
  rw [BitVec.lt_def, pageNumber_toNat, h.count]
  omega

theorem virtualAddress_toNat (h : PageTable m ptbr pages) (i : Fin (64 * pages)) :
    (virtualAddress i).toNat = 4 * i := by
  have hle := h.le
  rw [virtualAddress, BitVec.toNat_ofNat, Nat.mod_eq_of_lt (by omega)]

theorem pageNumber_virtualAddress (h : PageTable m ptbr pages) (i : Fin (64 * pages)) :
    pageNumber (virtualAddress i) < pmReadWord m ptbr := by
  rw [h.pageNumber_lt_iff, h.virtualAddress_toNat]
  omega

/-- An address and a word of the machine meet in physical memory when the address is in the
word. -/
theorem wordStartAddress_eq_iff (h : PageTable m ptbr pages) (i : Fin (64 * pages))
    (hv : pageNumber v < pmReadWord m ptbr) :
    wordStartAddress (physicalAddress m ptbr v) =
      wordStartAddress (physicalAddress m ptbr (virtualAddress i)) ↔ v.toNat / 4 = i := by
  rw [h.wordStartAddress_inj hv (h.pageNumber_virtualAddress i), ← BitVec.toNat_inj,
    virtualWord_toNat, virtualWord_toNat, h.virtualAddress_toNat]
  omega

/-! ## Reading and writing -/

/-- Reading through the table is loading. -/
theorem view_load (h : PageTable m ptbr pages) (cpu : CpuSnapshot) (v : Word) :
    (view pages m ptbr cpu).load v =
      if pageNumber v < pmReadWord m ptbr then .ok (pmReadWord m (physicalAddress m ptbr v))
      else .error invalidPage := by
  unfold VirtualMachine.load
  by_cases hv : v.toNat / 4 < 64 * pages
  · have hpage := (h.pageNumber_lt_iff v).2 hv
    rw [dif_pos hv, if_pos hpage]
    exact congrArg Except.ok (pmReadWord_congr_word m
      ((h.wordStartAddress_eq_iff ⟨_, hv⟩ hpage).2 rfl).symm)
  · rw [dif_neg hv, if_neg (mt (h.pageNumber_lt_iff v).1 hv)]
    rfl

/-- The table's own words are not among those that it leads to. -/
theorem agree_table (h : PageTable m ptbr pages) (hm : AgreeOn (listedFrames m ptbr)ᶜ m m') :
    AgreeOn (tableFrames m ptbr) m m' :=
  hm.mono fun _ hf hlisted => Set.disjoint_left.1 h.apart hlisted hf

/-- A memory with the same table has the same page table. -/
theorem congr (h : PageTable m ptbr pages) (hm : AgreeOn (tableFrames m ptbr) m m') :
    PageTable m' ptbr pages where
  distinct q hq q' hq' := by
    rw [entryCount_congr hm] at hq hq'
    rw [pageFrame_congr hm hq, pageFrame_congr hm hq']
    exact h.distinct q hq q' hq'
  inSpace q hq := by
    rw [entryCount_congr hm] at hq
    rw [pageFrame_congr hm hq]
    exact h.inSpace q hq
  apart := by
    rw [listedFrames_congr hm, tableFrames_congr hm]
    exact h.apart
  count := by
    rw [entryCount_congr hm]
    exact h.count

theorem physicalAddress_congr (hm : AgreeOn (tableFrames m ptbr) m m')
    (hv : pageNumber v < pmReadWord m ptbr) :
    physicalAddress m' ptbr v = physicalAddress m ptbr v := by
  rw [physicalAddress, physicalAddress, pageFrame_congr hm hv]

/-- What happens outside the table and its frames is not seen. -/
theorem view_congr (h : PageTable m ptbr pages)
    (hm : AgreeOn (listedFrames m ptbr ∪ tableFrames m ptbr) m m') (cpu : CpuSnapshot) :
    view pages m' ptbr cpu = view pages m ptbr cpu := by
  unfold view
  congr 1
  funext i
  have hi := h.pageNumber_virtualAddress i
  rw [physicalAddress_congr (hm.mono Set.subset_union_right) hi]
  exact (pmReadWord_congr hm (.inl (busFrame_physicalAddress_mem hi))).symm

/-- A write through the table stays in its frames. -/
theorem agree_pmWriteWord (hv : pageNumber v < pmReadWord m ptbr) (w : Word) :
    AgreeOn (listedFrames m ptbr)ᶜ m (pmWriteWord m (physicalAddress m ptbr v) w) :=
  pmWriteWord_agree fun hout => hout (busFrame_physicalAddress_mem hv)

/-- Writing through the table is storing. -/
theorem view_store (h : PageTable m ptbr pages) (hv : pageNumber v < pmReadWord m ptbr)
    (cpu : CpuSnapshot) (w : Word) :
    (view pages m ptbr cpu).store v w =
      .ok (view pages (pmWriteWord m (physicalAddress m ptbr v) w) ptbr cpu) := by
  have hindex := (h.pageNumber_lt_iff v).1 hv
  have hm := h.agree_table (agree_pmWriteWord hv w)
  unfold VirtualMachine.store
  rw [dif_pos hindex]
  refine congrArg Except.ok (VirtualMachine.ext rfl ?_)
  funext i
  simp only [view]
  rw [physicalAddress_congr hm (h.pageNumber_virtualAddress i)]
  by_cases hi : i = ⟨v.toNat / 4, hindex⟩
  · subst hi
    rw [Function.update_self, ← pmReadWord_congr_word _
      ((h.wordStartAddress_eq_iff ⟨_, hindex⟩ hv).2 rfl), pmReadWord_pmWriteWord]
  · rw [Function.update_of_ne hi, pmReadWord_pmWriteWord_of_ne]
    intro heq
    exact hi (Fin.ext ((h.wordStartAddress_eq_iff i hv).1 heq).symm)

end PageTable

/-! ## Several tables -/

section

variable {κ : Type} {pgb : κ → Word} {i j : κ}

/-- What is written to the frames of one of the tables leaves the words of all of them. -/
theorem TablesApart.agree_table (h : TablesApart m pgb)
    (hm : AgreeOn (listedFrames m (pgb i))ᶜ m m') (j : κ) :
    AgreeOn (tableFrames m (pgb j)) m m' :=
  hm.mono fun _ hf hlisted => Set.disjoint_left.1 (h.tables i j) hlisted hf

/-- It leaves the frames of the other tables too. -/
theorem TablesApart.agree_frames (h : TablesApart m pgb)
    (hm : AgreeOn (listedFrames m (pgb i))ᶜ m m') (hji : j ≠ i) :
    AgreeOn (listedFrames m (pgb j) ∪ tableFrames m (pgb j)) m m' := by
  refine hm.mono fun f hf hlisted => ?_
  rcases hf with hf | hf
  · exact Set.disjoint_left.1 (h.frames i j hji.symm) hlisted hf
  · exact Set.disjoint_left.1 (h.tables i j) hlisted hf

theorem TablesApart.congr (h : TablesApart m pgb)
    (hm : ∀ i, AgreeOn (tableFrames m (pgb i)) m m') : TablesApart m' pgb where
  frames i j hij := by
    rw [listedFrames_congr (hm i), listedFrames_congr (hm j)]
    exact h.frames i j hij
  tables i j := by
    rw [listedFrames_congr (hm i), tableFrames_congr (hm j)]
    exact h.tables i j

end

end SeKernel
