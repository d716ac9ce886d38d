import SeKernel.Memory.Frame
import SeKernel.Memory.Mmu

/-!
# What a translation returns

The frames that a page table lists (`listedFrames`) and the frames its own words lie in
(`tableFrames`); the TLB as a partial map from page numbers; and the result of `mmu_resolve` where
the TLB agrees with the table (`NotStale`): the address lies in the frame that the table lists for
the page, and the memory outside the table's words does not matter.
-/

namespace SeKernel

/-! ## Page tables in memory -/

/-- The frame base in entry `q` of the table at `ptbr`. -/
def pageFrame (m : Memory) (ptbr q : Word) : Word :=
  pmReadWord m (pteAddress ptbr q) &&& ~~~frameOffsetMask

/-- The frames of the bus that the table at `ptbr` lists. -/
def listedFrames (m : Memory) (ptbr : Word) : Set Nat :=
  {f | ∃ q < pmReadWord m ptbr, busFrame (pageFrame m ptbr q) = f}

/-- The frames of the bus that hold the words of the table at `ptbr`. -/
def tableFrames (m : Memory) (ptbr : Word) : Set Nat :=
  {f | f = busFrame ptbr ∨ ∃ q < pmReadWord m ptbr, busFrame (pteAddress ptbr q) = f}

section

variable {F : Set Nat} {m m' : Memory} {ptbr q va : Word}

theorem entryCount_congr (h : AgreeOn (tableFrames m ptbr) m m') :
    pmReadWord m' ptbr = pmReadWord m ptbr :=
  (pmReadWord_congr h (.inl rfl)).symm

theorem pageFrame_congr (h : AgreeOn (tableFrames m ptbr) m m') (hq : q < pmReadWord m ptbr) :
    pageFrame m' ptbr q = pageFrame m ptbr q := by
  unfold pageFrame
  rw [pmReadWord_congr h (.inr ⟨q, hq, rfl⟩)]

/-- Memories that agree on a table's words list the same frames. -/
theorem listedFrames_congr (h : AgreeOn (tableFrames m ptbr) m m') :
    listedFrames m' ptbr = listedFrames m ptbr := by
  ext f
  unfold listedFrames
  rw [entryCount_congr h]
  constructor
  · intro hf
    obtain ⟨q, hq, hf⟩ := hf
    exact ⟨q, hq, by rw [← pageFrame_congr h hq, hf]⟩
  · intro hf
    obtain ⟨q, hq, hf⟩ := hf
    exact ⟨q, hq, by rw [pageFrame_congr h hq, hf]⟩

/-- A table of one entry lists one frame. -/
theorem listedFrames_of_one (h : pmReadWord m ptbr = 1) :
    listedFrames m ptbr = {busFrame (pageFrame m ptbr 0)} := by
  ext f
  unfold listedFrames
  rw [h]
  constructor
  · intro hf
    obtain ⟨q, hq, rfl⟩ := hf
    obtain rfl : q = 0 := by bv_omega
    rfl
  · intro hf
    exact ⟨0, by decide, hf.symm⟩

/-- A table of one entry has two words. -/
theorem tableFrames_of_one (h : pmReadWord m ptbr = 1) :
    tableFrames m ptbr = {busFrame ptbr, busFrame (pteAddress ptbr 0)} := by
  ext f
  unfold tableFrames
  rw [h]
  constructor
  · intro hf
    rcases hf with rfl | ⟨q, hq, rfl⟩
    · exact .inl rfl
    · obtain rfl : q = 0 := by bv_omega
      exact .inr rfl
  · intro hf
    rcases hf with rfl | rfl
    · exact .inl rfl
    · exact .inr ⟨0, by decide, rfl⟩

theorem tableFrames_congr (h : AgreeOn (tableFrames m ptbr) m m') :
    tableFrames m' ptbr = tableFrames m ptbr := by
  unfold tableFrames
  rw [entryCount_congr h]

end

/-- The frames that a family of page tables lists are apart from each other and from the words of
all the tables. -/
structure TablesApart {ι : Type} (m : Memory) (pgb : ι → Word) : Prop where
  frames : ∀ i j, i ≠ j → Disjoint (listedFrames m (pgb i)) (listedFrames m (pgb j))
  tables : ∀ i j, Disjoint (listedFrames m (pgb i)) (tableFrames m (pgb j))

/-! ## Page numbers and offsets -/

theorem pageNumber_toNat (va : Word) : (pageNumber va).toNat = va.toNat / 256 := by
  unfold pageNumber frameOffset
  rw [BitVec.toNat_ushiftRight, Nat.shiftRight_eq_div_pow]

theorem and_not_frameOffsetMask_toNat (a : Word) :
    (a &&& ~~~frameOffsetMask).toNat = a.toNat / 256 * 256 := by
  rw [Masks.toNat_and_mask (k := 8) (m := 32) a (by decide) (by decide), Nat.mod_eq_of_lt a.isLt]
  rfl

theorem and_frameOffsetMask_toNat (a : Word) : (a &&& frameOffsetMask).toNat = a.toNat % 256 := by
  rw [Masks.toNat_and_mask (k := 0) (m := 8) a (by decide) (by decide)]
  omega

/-- The comparison of `tlb_get_match` is one of page numbers. -/
theorem and_not_frameOffsetMask_inj {a b : Word} :
    a &&& ~~~frameOffsetMask = b &&& ~~~frameOffsetMask ↔ pageNumber a = pageNumber b := by
  rw [← BitVec.toNat_inj, ← BitVec.toNat_inj, and_not_frameOffsetMask_toNat,
    and_not_frameOffsetMask_toNat, pageNumber_toNat, pageNumber_toNat]
  omega

@[simp] theorem pageNumber_and_not_frameOffsetMask (a : Word) :
    pageNumber (a &&& ~~~frameOffsetMask) = pageNumber a := by
  rw [← BitVec.toNat_inj, pageNumber_toNat, pageNumber_toNat, and_not_frameOffsetMask_toNat]
  omega

/-- The page number that the walk selects. -/
theorem selectedPageNumb_eq (va : Word) :
    (va &&& ~~~frameOffsetMask) >>> frameOffset = pageNumber va :=
  pageNumber_and_not_frameOffsetMask va

@[simp] theorem and_not_frameOffsetMask_idem (a : Word) :
    a &&& ~~~frameOffsetMask &&& ~~~frameOffsetMask = a &&& ~~~frameOffsetMask := by
  rw [BitVec.and_assoc, BitVec.and_self]

/-- A frame base joined with an offset is their sum. -/
theorem join_toNat (f va : Word) : (f &&& ~~~frameOffsetMask ||| va &&& frameOffsetMask).toNat =
    f.toNat / 256 * 256 + va.toNat % 256 := by
  rw [Masks.toNat_or_offset (k := 8), and_not_frameOffsetMask_toNat, and_frameOffsetMask_toNat]
  · rw [and_not_frameOffsetMask_toNat]
    exact Dvd.intro_left _ rfl
  · rw [and_frameOffsetMask_toNat]
    omega

/-- The frame of a frame base joined with an offset is the frame of the base. -/
theorem busFrame_join (f va : Word) :
    busFrame (f &&& ~~~frameOffsetMask ||| va &&& frameOffsetMask) = busFrame f := by
  unfold busFrame
  rw [join_toNat]
  omega

/-! ## The TLB -/

section

variable {n : Nat} [NeZero n] {mmu mmu' : Mmu n} {m m' : Memory} {ptbr va va' p : Word} {e : Pte}

/-- A match depends on the page number only. -/
theorem tlbGetMatch_congr (mmu : Mmu n) (h : pageNumber va = pageNumber va') :
    tlbGetMatch mmu va = tlbGetMatch mmu va' := by
  unfold tlbGetMatch tlbHash
  rw [h, and_not_frameOffsetMask_inj.2 h]

/-- A new entry serves its page, and evicts the page that its slot served. -/
theorem tlbGetMatch_tlbAddEntry (mmu : Mmu n) (va f va' : Word) :
    tlbGetMatch (tlbAddEntry mmu va f) va' =
      if tlbHash n va' = tlbHash n va then
        if pageNumber va' = pageNumber va then
          some ⟨va &&& ~~~frameOffsetMask, f &&& ~~~frameOffsetMask, true⟩
        else none
      else tlbGetMatch mmu va' := by
  unfold tlbGetMatch tlbAddEntry
  dsimp only
  by_cases hslot : tlbHash n va' = tlbHash n va
  · rw [if_pos hslot, hslot, Function.update_self]
    by_cases hpage : pageNumber va' = pageNumber va
    · simp [hpage, and_not_frameOffsetMask_inj]
    · have hne : ¬ (va &&& ~~~frameOffsetMask) = va' &&& ~~~frameOffsetMask := by
        rw [and_not_frameOffsetMask_inj]
        exact fun h => hpage h.symm
      simp [hpage, hne]
  · rw [if_neg hslot, Function.update_of_ne hslot]

/-- A slot serves one page. -/
theorem pageNumber_eq_of_match {e' : Pte} (hslot : tlbHash n va = tlbHash n va')
    (h : tlbGetMatch mmu va = some e) (h' : tlbGetMatch mmu va' = some e') :
    pageNumber va = pageNumber va' := by
  unfold tlbGetMatch at h h'
  rw [← hslot] at h'
  dsimp only at h h'
  split at h
  · next hva =>
    split at h'
    · next hva' => exact and_not_frameOffsetMask_inj.1 (hva.2.symm.trans hva'.2)
    · cases h'
  · cases h

/-- The MMU after translating `va` through a table that lists `f` for its page. -/
def Mmu.fill (mmu : Mmu n) (va f : Word) : Mmu n :=
  match tlbGetMatch mmu va with
  | some _ => mmu
  | none => tlbAddEntry mmu va f

/-- The TLB has no entry for the page of `va`, or the one that the table at `ptbr` gives. -/
def NotStale (mmu : Mmu n) (m : Memory) (ptbr va : Word) : Prop :=
  ∀ e, tlbGetMatch mmu va = some e → e.physicalAddress = pageFrame m ptbr (pageNumber va)

instance (mmu : Mmu n) (m : Memory) (ptbr va : Word) : Decidable (NotStale mmu m ptbr va) :=
  inferInstanceAs (Decidable (∀ e ∈ tlbGetMatch mmu va, _ = _))

/-- Where `va` lies by the table at `ptbr`. -/
def physicalAddress (m : Memory) (ptbr va : Word) : Word :=
  pageFrame m ptbr (pageNumber va) &&& ~~~frameOffsetMask ||| va &&& frameOffsetMask

theorem busFrame_physicalAddress (m : Memory) (ptbr va : Word) :
    busFrame (physicalAddress m ptbr va) = busFrame (pageFrame m ptbr (pageNumber va)) :=
  busFrame_join _ _

theorem busFrame_physicalAddress_mem (hva : pageNumber va < pmReadWord m ptbr) :
    busFrame (physicalAddress m ptbr va) ∈ listedFrames m ptbr :=
  ⟨pageNumber va, hva, (busFrame_physicalAddress m ptbr va).symm⟩

theorem mmuResolve_of_match (he : tlbGetMatch mmu va = some e) :
    mmuResolve mmu m ptbr va =
      .ok (e.physicalAddress &&& ~~~frameOffsetMask ||| va &&& frameOffsetMask, mmu) := by
  unfold mmuResolve
  rw [he]
  rfl

/-- Reference: `mmu_resolve_frame_root_address_from_mem` (`src/memory_s.c:272`). -/
theorem mmuResolveFrameRootAddressFromMem_of_lt (hva : pageNumber va < pmReadWord m ptbr) :
    mmuResolveFrameRootAddressFromMem m ptbr va = .ok (pageFrame m ptbr (pageNumber va)) := by
  unfold mmuResolveFrameRootAddressFromMem
  rw [selectedPageNumb_eq]
  dsimp only
  rw [if_neg (BitVec.not_lt.2 (BitVec.le_of_lt hva))]
  rfl

/-- Where the TLB is not stale, a page of the table translates as the table says. Reference:
`mmu_resolve` (`src/memory_s.c:258`). -/
theorem mmuResolve_of_notStale (h : NotStale mmu m ptbr va)
    (hva : pageNumber va < pmReadWord m ptbr) :
    mmuResolve mmu m ptbr va =
      .ok (physicalAddress m ptbr va, mmu.fill va (pageFrame m ptbr (pageNumber va))) := by
  cases hmatch : tlbGetMatch mmu va with
  | some e =>
    rw [mmuResolve_of_match hmatch, h e hmatch]
    simp [Mmu.fill, hmatch, physicalAddress]
  | none =>
    unfold mmuResolve
    rw [hmatch, mmuResolveFrameRootAddressFromMem_of_lt hva]
    simp [Mmu.fill, hmatch, physicalAddress]

/-- Such a translation depends on the table's words only. -/
theorem mmuResolve_congr (h : NotStale mmu m ptbr va) (hva : pageNumber va < pmReadWord m ptbr)
    (hm : AgreeOn (tableFrames m ptbr) m m') :
    mmuResolve mmu m' ptbr va = mmuResolve mmu m ptbr va := by
  have hframe := pageFrame_congr hm hva
  have h' : NotStale mmu m' ptbr va := by
    intro e he
    rw [hframe]
    exact h e he
  rw [mmuResolve_of_notStale h hva, mmuResolve_of_notStale h' (by rwa [entryCount_congr hm]),
    physicalAddress, physicalAddress, hframe]

/-- Filling a slot leaves the other slots alone. -/
theorem tlbGetMatch_fill_of_ne {f : Word} (hslot : tlbHash n va' ≠ tlbHash n va) :
    tlbGetMatch (mmu.fill va f) va' = tlbGetMatch mmu va' := by
  unfold Mmu.fill
  split
  · rfl
  · rw [tlbGetMatch_tlbAddEntry, if_neg hslot]

/-- A filled TLB serves what it served before, and pages of the table as the table says. -/
theorem tlbGetMatch_fill (hva : pageNumber va < pmReadWord m ptbr)
    (he : tlbGetMatch (mmu.fill va (pageFrame m ptbr (pageNumber va))) va' = some e) :
    tlbGetMatch mmu va' = some e ∨ (pageNumber va' < pmReadWord m ptbr ∧
      e.physicalAddress = pageFrame m ptbr (pageNumber va')) := by
  unfold Mmu.fill at he
  cases hmatch : tlbGetMatch mmu va with
  | some _ =>
    rw [hmatch] at he
    exact .inl he
  | none =>
    rw [hmatch] at he
    simp only [tlbGetMatch_tlbAddEntry] at he
    split at he
    · split at he
      · next hpage =>
        cases he
        rw [hpage]
        exact .inr ⟨hva, and_not_frameOffsetMask_idem _⟩
      · cases he
    · exact .inl he

end

/-- Two page tables, at `0x0` and `0x100`, of one frame each: `0x400000` begins with a store of `R0`
at address 8, `0x400100` with a load of `R15` from there. -/
def twoTables : Memory :=
  [(0x0, 1), (0x4, 0x400000), (0x100, 1), (0x104, 0x400100), (0x400000, 0x10000008),
    (0x400100, 0x0F000008)].foldl (fun m (a, w) => pmWriteWord m a w) fun _ => 0

/-- Where the two tables are. -/
def twoPgb (x : Bool) : Word := if x then 0x100 else 0

theorem twoTables_apart : TablesApart twoTables twoPgb := by
  have hone : ∀ x, pmReadWord twoTables (twoPgb x) = 1 := by decide
  refine ⟨?_, ?_⟩
  · intro x y hxy
    rw [listedFrames_of_one (hone x), listedFrames_of_one (hone y), Set.disjoint_singleton]
    revert x y
    decide
  · intro x y
    rw [listedFrames_of_one (hone x), tableFrames_of_one (hone y), Set.disjoint_singleton_left,
      Set.mem_insert_iff, Set.mem_singleton_iff]
    revert x y
    decide

end SeKernel
