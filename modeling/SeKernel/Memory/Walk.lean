import SeKernel.Lib.Cache
import SeKernel.Lib.Machine
import SeKernel.Memory.Translation

/-!
# The walk and the TLB in front of it

The walk of a page table compares a page number `q` with the entry count `n` by `n < q`, so it also
accepts `q = n` and takes the word after the table for an entry (`walk_bounded_iff`). Whatever the
walk answers, the TLB of a flushed MMU answers it too: `mmu_resolve` is a read-through cache
(`SeKernel.Lib.Cache`) of the walk, and stays one while the words that the walk reads are not
written (`mmuResolve_agrees_with_walk`).
-/

namespace SeKernel

/-- The walk, and what `mmu_resolve` makes of it: the address without a TLB. -/
def resolveUncached (memory : Memory) (ptbr virtualAddress : Word) : Outcome Word := do
  let frameAddress ← mmuResolveFrameRootAddressFromMem memory ptbr virtualAddress
  return frameAddress &&& ~~~frameOffsetMask ||| virtualAddress &&& frameOffsetMask

/-- The words that the walk of the table at `ptbr` reads for some virtual address. -/
def walkWords (m : Memory) (ptbr : Word) : Set Word :=
  {x | x = wordStartAddress ptbr ∨ ∃ va, ¬ pmReadWord m ptbr < pageNumber va ∧
    x = wordStartAddress (pteAddress ptbr (pageNumber va))}

section

variable {m m' : Memory} {ptbr va va' : Word}

/-- The walk, with the page number that it selects. Reference:
`mmu_resolve_frame_root_address_from_mem` (`src/memory_s.c:272`). -/
theorem mmuResolveFrameRootAddressFromMem_eq (m : Memory) (ptbr va : Word) :
    mmuResolveFrameRootAddressFromMem m ptbr va =
      if pmReadWord m ptbr < pageNumber va then
        .error (.err 1 "mmu_resolve_frame_root_address_from_mem: invalid page number")
      else .ok (pageFrame m ptbr (pageNumber va)) := by
  unfold mmuResolveFrameRootAddressFromMem
  rw [selectedPageNumb_eq]
  rfl

/-- The walk depends on the words that it reads. -/
theorem mmuResolveFrameRootAddressFromMem_congr
    (h : ∀ a, wordStartAddress a ∈ walkWords m ptbr → pmReadWord m' a = pmReadWord m a)
    (va : Word) :
    mmuResolveFrameRootAddressFromMem m' ptbr va = mmuResolveFrameRootAddressFromMem m ptbr va := by
  rw [mmuResolveFrameRootAddressFromMem_eq, mmuResolveFrameRootAddressFromMem_eq, h ptbr (.inl rfl)]
  split
  · rfl
  · next hva =>
    unfold pageFrame
    rw [h (pteAddress ptbr (pageNumber va)) (.inr ⟨va, hva, rfl⟩)]

/-- Two addresses of one page walk alike. -/
theorem mmuResolveFrameRootAddressFromMem_page (m : Memory) (ptbr : Word)
    (h : pageNumber va = pageNumber va') :
    mmuResolveFrameRootAddressFromMem m ptbr va = mmuResolveFrameRootAddressFromMem m ptbr va' := by
  rw [mmuResolveFrameRootAddressFromMem_eq, mmuResolveFrameRootAddressFromMem_eq, h]

/-! ## The bound of the walk -/

variable {n : Nat} [NeZero n]

/-- What the walk of a table is meant to do for an address that the TLB does not hold: succeed for
the pages of the table only, with the frame of their entry, and leave the program for the others. -/
structure WalkBounded (mmu : Mmu n) (m : Memory) (ptbr va : Word) : Prop where
  resolves : (∃ a mmu', mmuResolve mmu m ptbr va = .ok (a, mmu')) ↔
    pageNumber va < pmReadWord m ptbr
  walks : (∃ f, mmuResolveFrameRootAddressFromMem m ptbr va = .ok f) ↔
    pageNumber va < pmReadWord m ptbr
  entry : ∀ a mmu', mmuResolve mmu m ptbr va = .ok (a, mmu') →
    mmuResolveFrameRootAddressFromMem m ptbr va = .ok (a &&& ~~~frameOffsetMask) ∧
      a &&& ~~~frameOffsetMask = pageFrame m ptbr (pageNumber va)
  exits : ¬ pageNumber va < pmReadWord m ptbr → mmuResolve mmu m ptbr va =
    .error (.err 1 "mmu_resolve_frame_root_address_from_mem: invalid page number")

variable {mmu mmu' : Mmu n}

/-- Reference: `mmu_resolve` (`src/memory_s.c:258`) without a matching entry. -/
theorem mmuResolve_of_none (m : Memory) (ptbr : Word) (hmiss : tlbGetMatch mmu va = none) :
    mmuResolve mmu m ptbr va =
      if pmReadWord m ptbr < pageNumber va then
        .error (.err 1 "mmu_resolve_frame_root_address_from_mem: invalid page number")
      else .ok (physicalAddress m ptbr va,
        tlbAddEntry mmu va (pageFrame m ptbr (pageNumber va))) := by
  unfold mmuResolve
  rw [hmiss, mmuResolveFrameRootAddressFromMem_eq]
  by_cases hva : pmReadWord m ptbr < pageNumber va
  · rw [if_pos hva, if_pos hva]
    rfl
  · rw [if_neg hva, if_neg hva]
    rfl

/-- The frame base of an address in a frame. -/
theorem physicalAddress_frame (m : Memory) (ptbr va : Word) :
    physicalAddress m ptbr va &&& ~~~frameOffsetMask = pageFrame m ptbr (pageNumber va) := by
  have hbase : pageFrame m ptbr (pageNumber va) &&& ~~~frameOffsetMask =
      pageFrame m ptbr (pageNumber va) := and_not_frameOffsetMask_idem _
  refine BitVec.eq_of_toNat_eq ?_
  rw [and_not_frameOffsetMask_toNat, physicalAddress, join_toNat, ← and_not_frameOffsetMask_toNat,
    hbase]
  have := and_not_frameOffsetMask_toNat (pageFrame m ptbr (pageNumber va))
  rw [hbase] at this
  omega

/-- Reference: `mmu_resolve_frame_root_address_from_mem` (`src/memory_s.c:275`): only the page right
after the last one of the table is wrongly accepted. -/
theorem walk_bounded_iff (hmiss : tlbGetMatch mmu va = none) :
    WalkBounded mmu m ptbr va ↔ pageNumber va ≠ pmReadWord m ptbr := by
  have hres := mmuResolve_of_none m ptbr hmiss
  have hwalk := mmuResolveFrameRootAddressFromMem_eq m ptbr va
  constructor
  · intro h heq
    have hle : ¬ pmReadWord m ptbr < pageNumber va := by
      rw [heq]
      exact BitVec.lt_irrefl _
    rw [if_neg hle] at hres
    have hlt := h.resolves.1 ⟨_, _, hres⟩
    rw [heq] at hlt
    exact BitVec.lt_irrefl _ hlt
  · intro hne
    -- apart from the boundary page the test of the code is the right one
    have hiff : pmReadWord m ptbr < pageNumber va ↔ ¬ pageNumber va < pmReadWord m ptbr := by
      have hne' : (pageNumber va).toNat ≠ (pmReadWord m ptbr).toNat :=
        fun h => hne (BitVec.eq_of_toNat_eq h)
      rw [BitVec.lt_def, BitVec.lt_def]
      omega
    by_cases hlt : pageNumber va < pmReadWord m ptbr
    · rw [if_neg fun h => hiff.1 h hlt] at hres hwalk
      refine ⟨iff_of_true ⟨_, _, hres⟩ hlt, iff_of_true ⟨_, hwalk⟩ hlt, ?_, fun h => absurd hlt h⟩
      intro a mmu' h
      rw [hres] at h
      cases h
      rw [physicalAddress_frame]
      exact ⟨hwalk, rfl⟩
    · rw [if_pos (hiff.2 hlt)] at hres hwalk
      refine ⟨iff_of_false ?_ hlt, iff_of_false ?_ hlt, ?_, fun _ => hres⟩
      · intro h
        obtain ⟨a, mmu', h⟩ := h
        rw [hres] at h
        cases h
      · intro h
        obtain ⟨f, h⟩ := h
        rw [hwalk] at h
        cases h
      · intro a mmu' h
        rw [hres] at h
        cases h

/-- The last page of a table, and the first page beyond the one after it. -/
theorem walk_bounded_iff_two :
    WalkBounded (tlbFlush 1) twoTables 0x100 0x0FF ∧
      WalkBounded (tlbFlush 1) twoTables 0x100 0x200 :=
  ⟨(walk_bounded_iff rfl).2 (by decide), (walk_bounded_iff rfl).2 (by decide)⟩

/-- The table at `0x100` has one entry. Page 1 resolves to frame 0, which holds another table, for
the word after the table is 0. -/
theorem walk_accepts_boundary :
    pmReadWord twoTables 0x100 = 1 ∧ pageNumber 0x104 = 1 ∧
      (mmuResolve (tlbFlush 1) twoTables 0x100 0x104).map (·.1) = .ok 0x4 ∧
      ¬ WalkBounded (tlbFlush 1) twoTables 0x100 0x104 := by
  refine ⟨by decide, by decide, by rfl, ?_⟩
  intro h
  have hlt := h.resolves.1 ⟨_, _, mmuResolve_of_none _ _ rfl⟩
  revert hlt
  decide

/-! ## The TLB as a cache of the walk -/

/-- The TLB in front of the walk: a page's frame base, served from its slot. -/
def tlbCache (n : Nat) [NeZero n] : Cache.Ops Word Word (Mmu n) where
  lookup mmu va := (tlbGetMatch mmu va).map (·.physicalAddress)
  insert := tlbAddEntry

/-- `mmu_resolve` reads the walk through the TLB. Reference: `mmu_resolve`
(`src/memory_s.c:258`). -/
theorem mmuResolve_eq_readThrough (mmu : Mmu n) (m : Memory) (ptbr va : Word) :
    mmuResolve mmu m ptbr va =
      (Cache.readThrough (tlbCache n) (mmuResolveFrameRootAddressFromMem m ptbr) va mmu).map
        fun (f, mmu) => (f &&& ~~~frameOffsetMask ||| va &&& frameOffsetMask, mmu) := by
  cases hmatch : tlbGetMatch mmu va with
  | some e =>
    rw [mmuResolve_of_match hmatch]
    simp [Cache.readThrough, tlbCache, hmatch, Except.map]
  | none =>
    unfold mmuResolve
    rw [hmatch]
    simp only [Cache.readThrough, tlbCache, hmatch, Option.map_none]
    cases mmuResolveFrameRootAddressFromMem m ptbr va <;> rfl

/-- A TLB entry for a page that was walked holds the walk's frame base, for the page alone. -/
theorem tlbCache_faithful (m : Memory) (ptbr : Word) (K : Set Word) :
    Cache.Faithful (tlbCache n) (mmuResolveFrameRootAddressFromMem m ptbr) K := by
  intro mmu va _ f hf va' _ f' hf'
  simp only [tlbCache, Option.map_eq_some_iff] at hf' ⊢
  obtain ⟨e, he, rfl⟩ := hf'
  rw [tlbGetMatch_tlbAddEntry] at he
  split at he
  · split at he
    · next hpage =>
      cases he
      right
      rw [mmuResolveFrameRootAddressFromMem_page m ptbr hpage, hf]
      rw [mmuResolveFrameRootAddressFromMem_eq] at hf
      split at hf
      · cases hf
      · cases hf
        exact congrArg Except.ok (and_not_frameOffsetMask_idem _).symm
    · cases he
  · exact .inl ⟨e, he, rfl⟩

/-- What `mmu_resolve` returns where the TLB holds what the walk gives. -/
theorem mmuResolve_of_sound {K : Set Word}
    (h : Cache.Sound (tlbCache n) (mmuResolveFrameRootAddressFromMem m ptbr) K mmu) (hK : va ∈ K)
    (hva : pageNumber va < pmReadWord m ptbr) :
    ∃ mmu', mmuResolve mmu m ptbr va = .ok (physicalAddress m ptbr va, mmu') ∧
      Cache.Sound (tlbCache n) (mmuResolveFrameRootAddressFromMem m ptbr) K mmu' := by
  have hfst := h.readThrough_fst hK
  rw [mmuResolveFrameRootAddressFromMem_of_lt hva] at hfst
  cases hread : Cache.readThrough (tlbCache n) (mmuResolveFrameRootAddressFromMem m ptbr)
    va mmu with
  | error e =>
    rw [hread] at hfst
    cases hfst
  | ok r =>
    rw [hread] at hfst
    obtain ⟨f, mmu'⟩ := r
    obtain rfl : f = pageFrame m ptbr (pageNumber va) := Except.ok.inj hfst
    refine ⟨mmu', ?_, h.readThrough (tlbCache_faithful m ptbr K) hK hread⟩
    rw [mmuResolve_eq_readThrough, hread]
    rfl

/-- A flushed TLB serves no page. -/
theorem tlbGetMatch_of_inactive {mmu : Mmu n} (h : ∀ k, (mmu.tlbHashArr k).active = false)
    (va : Word) : tlbGetMatch mmu va = none := by
  unfold tlbGetMatch
  simp [h]

/-- A flushed TLB is a sound cache. -/
theorem tlbCache_sound_of_inactive {mmu : Mmu n} (h : ∀ k, (mmu.tlbHashArr k).active = false)
    (m : Memory) (ptbr : Word) (K : Set Word) :
    Cache.Sound (tlbCache n) (mmuResolveFrameRootAddressFromMem m ptbr) K mmu :=
  .of_empty fun va _ => by simp [tlbCache, tlbGetMatch_of_inactive h va]

/-- The calls of a run: translations and writes of physical words. -/
inductive MmuCmd
  | resolve (virtualAddress : Word)
  | write (address word : Word)
  deriving DecidableEq, Repr

/-- One call on the MMU and the memory, with the address that a translation returns. -/
def MmuCmd.exec (ptbr : Word) : MmuCmd → Mmu n × Memory → Outcome (Option Word × Mmu n × Memory)
  | .resolve virtualAddress, (mmu, memory) => do
    let (address, mmu) ← mmuResolve mmu memory ptbr virtualAddress
    return (some address, mmu, memory)
  | .write address word, (mmu, memory) => return (none, mmu, pmWriteWord memory address word)

/-- The same call without a TLB. -/
def MmuCmd.execUncached (ptbr : Word) : MmuCmd → Memory → Outcome (Option Word × Memory)
  | .resolve virtualAddress, memory => do
    let address ← resolveUncached memory ptbr virtualAddress
    return (some address, memory)
  | .write address word, memory => return (none, pmWriteWord memory address word)

/-- The call writes no word that the walk of the table at `ptbr` can read. -/
def MmuCmd.SparesWalk (m : Memory) (ptbr : Word) : MmuCmd → Prop
  | .resolve _ => True
  | .write address _ => wordStartAddress address ∉ walkWords m ptbr

/-- The state with a TLB and the one without: the same memory, the words of the walk as they were at
the start, and a TLB that holds what the walk gives. -/
structure CachedWalk (m₀ : Memory) (ptbr : Word) (s : Mmu n × Memory) (m : Memory) : Prop where
  memory : s.2 = m
  words : ∀ a, wordStartAddress a ∈ walkWords m₀ ptbr → pmReadWord m a = pmReadWord m₀ a
  sound : Cache.Sound (tlbCache n) (mmuResolveFrameRootAddressFromMem m₀ ptbr) Set.univ s.1

/-- A call answers, or stops, like the call without a TLB. -/
theorem CachedWalk.step {m₀ m : Memory} {ptbr : Word} {s : Mmu n × Memory}
    (h : CachedWalk m₀ ptbr s m)
    {cmd : MmuCmd} (hcmd : cmd.SparesWalk m₀ ptbr) :
    Machine.Agrees (CachedWalk m₀ ptbr) (cmd.exec ptbr s) (cmd.execUncached ptbr m) := by
  obtain ⟨mmu, m'⟩ := s
  obtain rfl : m' = m := h.memory
  cases cmd with
  | write a w =>
    refine ⟨rfl, rfl, fun b hb => ?_, h.sound⟩
    rw [← h.words b hb]
    exact pmReadWord_pmWriteWord_of_ne _ w fun hab => hcmd (hab ▸ hb)
  | resolve va =>
    have hwalk := mmuResolveFrameRootAddressFromMem_congr h.words
    have hsound := h.sound.congr fun k _ => hwalk k
    have hfst := hsound.readThrough_fst (Set.mem_univ va)
    simp only [MmuCmd.exec, MmuCmd.execUncached, resolveUncached]
    rw [mmuResolve_eq_readThrough, ← hfst]
    cases hread : Cache.readThrough (tlbCache n) (mmuResolveFrameRootAddressFromMem m' ptbr)
      va mmu with
    | error e => exact rfl
    | ok r =>
      refine ⟨rfl, rfl, h.words, ?_⟩
      have hsound' := hsound.readThrough (tlbCache_faithful m' ptbr _) (Set.mem_univ va) hread
      exact hsound'.congr fun k _ => (hwalk k).symm

/-- From a flushed TLB, translations interleaved with writes that spare the words of the walk return
what the walk gives, and leave the program when the walk does. Reference: `mmu_resolve`
(`src/memory_s.c:258`), `tlb_flush` (`src/memory_s.c:308`). -/
theorem mmuResolve_agrees_with_walk (n : Nat) [NeZero n] (m : Memory) (ptbr : Word)
    {cmds : List MmuCmd} (hcmds : ∀ cmd ∈ cmds, cmd.SparesWalk m ptbr) :
    Machine.Agrees (fun s m' => s.2 = m') (Machine.run (MmuCmd.exec ptbr) cmds (tlbFlush n, m))
      (Machine.run (MmuCmd.execUncached ptbr) cmds m) := by
  have hinit : CachedWalk m ptbr (tlbFlush n, m) m :=
    ⟨rfl, fun _ _ => rfl, tlbCache_sound_of_inactive (fun _ => rfl) m ptbr _⟩
  have hstep (cmd : MmuCmd) (s : Mmu n × Memory) (m' : Memory) (hcmd : cmd.SparesWalk m ptbr)
      (hs : CachedWalk m ptbr s m') : Machine.Agrees (CachedWalk m ptbr) (cmd.exec ptbr s)
        (cmd.execUncached ptbr m') := hs.step hcmd
  exact (Machine.run_agrees hstep hcmds hinit).mono fun s m' h => h.memory

/-- Two translations of a page, the second one from the TLB, a write to its frame in between, and a
translation that leaves the program. -/
theorem mmuResolve_agrees_with_walk_four :
    let cmds : List MmuCmd := [.resolve 0x10, .write 0x400010 5, .resolve 0x20, .resolve 0x200]
    (∀ cmd ∈ cmds, cmd.SparesWalk twoTables 0) ∧
      (∃ s, Machine.run (MmuCmd.exec 0) (cmds.take 3) (tlbFlush 20, twoTables) =
        .ok ([some 0x400010, none, some 0x400020], s)) ∧
      Machine.Agrees (fun s m' => s.2 = m')
        (Machine.run (MmuCmd.exec 0) cmds (tlbFlush 20, twoTables))
        (Machine.run (MmuCmd.execUncached 0) cmds twoTables) := by
  have hspares : wordStartAddress 0x400010 ∉ walkWords twoTables 0 := by
    intro h
    rcases h with h | ⟨va, hva, h⟩
    · revert h
      decide
    · have hone : pmReadWord twoTables 0 = 1 := by decide
      rw [hone] at hva
      have hpage : pageNumber va = 0 ∨ pageNumber va = 1 := by bv_omega
      rcases hpage with hpage | hpage
      all_goals
        rw [hpage] at h
        revert h
        decide
  have hcmds : ∀ cmd ∈ ([.resolve 0x10, .write 0x400010 5, .resolve 0x20, .resolve 0x200] :
      List MmuCmd), cmd.SparesWalk twoTables 0 := by
    simp only [List.forall_mem_cons, MmuCmd.SparesWalk, true_and]
    exact ⟨hspares, fun _ h => nomatch h⟩
  exact ⟨hcmds, ⟨_, rfl⟩, mmuResolve_agrees_with_walk 20 twoTables 0 hcmds⟩

end

end SeKernel
