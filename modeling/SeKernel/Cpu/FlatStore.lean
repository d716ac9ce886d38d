import SeKernel.Cpu.Executor
import SeKernel.Memory.Walk

/-!
# Virtual memory is a flat store of words

What a process sees of its memory: `FlatStore`, a store of words that remembers the stores made so
far. The loads and stores of the executor go through the TLB, the page table and the bytes of
physical memory, and give the same values (`virtualMemory_is_flatStore`), when the table's frames
are distinct, on the bus and apart from the table.
-/

namespace SeKernel

/-! ## The abstract store -/

/-- Where the word of a virtual address starts. -/
def virtualWord (v : Word) : Word := v &&& ~~~3

/-- Registers, the stores made so far, the latest one first, and the words before the first one. -/
structure FlatStore where
  R : Fin cpuRegisters → Word
  stores : List (Word × Word)
  initial : Word → Word

/-- The value of the last store to the word of `v`, or the word initially there. -/
def FlatStore.load (f : FlatStore) (v : Word) : Word :=
  match f.stores.find? fun store => virtualWord store.1 = virtualWord v with
  | some store => store.2
  | none => f.initial v

theorem FlatStore.load_store (f : FlatStore) (v w v' : Word) :
    FlatStore.load { f with stores := (v, w) :: f.stores } v' =
      if virtualWord v = virtualWord v' then w else f.load v' := by
  unfold FlatStore.load
  rw [List.find?_cons]
  by_cases h : virtualWord v = virtualWord v' <;> simp [h]

/-! ## The calls -/

/-- The calls of a run: loads, stores, and what else happens to the registers. -/
inductive MemCmd
  | LD (reg : Fin cpuRegisters) (address : Word)
  | ST (reg : Fin cpuRegisters) (virtualAddress : Word)
  | work (R : Fin cpuRegisters → Word)

/-- One call on a thread and the memory, with the value that a load loads. -/
def MemCmd.exec {n : Nat} [NeZero n] :
    MemCmd → Thread n × Memory → Outcome (Option Word × Thread n × Memory)
  | .LD reg address, (t, memory) => do
    let t ← exLD t memory reg address
    return (some (t.R reg), t, memory)
  | .ST reg virtualAddress, (t, memory) => do
    let (t, memory) ← exST t memory reg virtualAddress
    return (none, t, memory)
  | .work R, (t, memory) => return (none, { t with R }, memory)

/-- The same call on the abstract store. -/
def MemCmd.spec : MemCmd → FlatStore → Option Word × FlatStore
  | .LD reg address, f =>
      (some (f.load address), { f with R := Function.update f.R reg (f.load address) })
  | .ST reg virtualAddress, f => (none, { f with stores := (virtualAddress, f.R reg) :: f.stores })
  | .work R, f => (none, { f with R })

/-- The page of the call's address is a page of the table at `ptbr`. -/
def MemCmd.InTable (m : Memory) (ptbr : Word) : MemCmd → Prop
  | .LD _ address => pageNumber address < pmReadWord m ptbr
  | .ST _ virtualAddress => pageNumber virtualAddress < pmReadWord m ptbr
  | .work _ => True

/-- The call changes no byte but, if it is a store, the four bytes of the word that it addresses by
the table at `ptbr`. -/
def MemCmd.StoresOneWord {n : Nat} [NeZero n] (m : Memory) (ptbr : Word) (cmd : MemCmd)
    (s : Thread n × Memory) : Prop :=
  ∀ o s', cmd.exec s = .ok (o, s') → ∀ x,
    (∀ reg v, cmd = .ST reg v → ∀ i < busDataBytesSize,
      x ≠ wordStartAddress (physicalAddress m ptbr v) + BitVec.ofNat 32 i) → s'.2 x = s.2 x

/-- The frames of the table at `ptbr` are distinct, on the 24-bit bus, and apart from the frames of
the bus that the table's own words lie in. -/
structure FlatTable (m : Memory) (ptbr : Word) : Prop where
  distinct : ∀ q < pmReadWord m ptbr, ∀ q' < pmReadWord m ptbr,
    pageFrame m ptbr q = pageFrame m ptbr q' → q = q'
  inSpace : ∀ q < pmReadWord m ptbr, pageFrame m ptbr q < busAddressSpace
  apart : Disjoint (listedFrames m ptbr) (tableFrames m ptbr)

/-- The store that a thread starts with: the words its table leads to. -/
def flatStoreInit {n : Nat} (t : Thread n) (m : Memory) : FlatStore :=
  ⟨t.R, [], fun v => pmReadWord m (physicalAddress m t.PTBR v)⟩

/-! ## Distinct words -/

section

variable {m : Memory} {ptbr v v' : Word}

theorem virtualWord_toNat (v : Word) : (virtualWord v).toNat = v.toNat / 4 * 4 := by
  unfold virtualWord
  rw [Masks.toNat_and_mask (k := 2) (m := 32) v (by decide) (by decide), Nat.mod_eq_of_lt v.isLt]
  rfl

theorem pageFrame_toNat (m : Memory) (ptbr q : Word) :
    (pageFrame m ptbr q).toNat = (pageFrame m ptbr q).toNat / 256 * 256 := by
  have h : pageFrame m ptbr q &&& ~~~frameOffsetMask = pageFrame m ptbr q :=
    and_not_frameOffsetMask_idem _
  conv_lhs => rw [← h]
  exact and_not_frameOffsetMask_toNat _

/-- Where the word of a virtual address starts in physical memory. -/
theorem FlatTable.wordStartAddress_toNat (h : FlatTable m ptbr)
    (hv : pageNumber v < pmReadWord m ptbr) :
    (wordStartAddress (physicalAddress m ptbr v)).toNat =
      (pageFrame m ptbr (pageNumber v)).toNat + v.toNat % 256 / 4 * 4 := by
  have hframe := pageFrame_toNat m ptbr (pageNumber v)
  have hspace : (pageFrame m ptbr (pageNumber v)).toNat < 2 ^ 24 := h.inSpace _ hv
  rw [SeKernel.wordStartAddress_toNat, physicalAddress, join_toNat]
  omega

/-- Two virtual addresses share a physical word exactly when they share a virtual one. -/
theorem FlatTable.wordStartAddress_inj (h : FlatTable m ptbr)
    (hv : pageNumber v < pmReadWord m ptbr)
    (hv' : pageNumber v' < pmReadWord m ptbr) :
    wordStartAddress (physicalAddress m ptbr v) = wordStartAddress (physicalAddress m ptbr v') ↔
      virtualWord v = virtualWord v' := by
  rw [← BitVec.toNat_inj, ← BitVec.toNat_inj, h.wordStartAddress_toNat hv,
    h.wordStartAddress_toNat hv', virtualWord_toNat, virtualWord_toNat]
  have hframe := pageFrame_toNat m ptbr (pageNumber v)
  have hframe' := pageFrame_toNat m ptbr (pageNumber v')
  have hpage := pageNumber_toNat v
  have hpage' := pageNumber_toNat v'
  constructor
  · intro heq
    have hbase : (pageFrame m ptbr (pageNumber v)).toNat =
        (pageFrame m ptbr (pageNumber v')).toNat := by
      omega
    have hsame := congrArg BitVec.toNat (h.distinct _ hv _ hv' (BitVec.eq_of_toNat_eq hbase))
    omega
  · intro heq
    have hsame : pageNumber v = pageNumber v' := BitVec.eq_of_toNat_eq (by omega)
    rw [hsame]
    omega

end

/-! ## Runs -/

variable {n : Nat} [NeZero n]

/-- The state of a run and the abstract store: the same registers, the table as it was at the start,
a TLB that holds what the table gives, and in every word of the table's pages what the store
holds. -/
structure VirtualMemory (m₀ : Memory) (ptbr : Word) (s : Thread n × Memory) (f : FlatStore) :
    Prop where
  base : s.1.PTBR = ptbr
  R : s.1.R = f.R
  table : AgreeOn (tableFrames m₀ ptbr) m₀ s.2
  sound : Cache.Sound (tlbCache n) (mmuResolveFrameRootAddressFromMem m₀ ptbr)
    {v | pageNumber v < pmReadWord m₀ ptbr} s.1.memManagUnit
  words : ∀ v, pageNumber v < pmReadWord m₀ ptbr →
    pmReadWord s.2 (physicalAddress m₀ ptbr v) = f.load v

/-- The start of a run. -/
theorem virtualMemory_init {t : Thread n}
    (hinactive : ∀ k, (t.memManagUnit.tlbHashArr k).active = false)
    (m : Memory) : VirtualMemory m t.PTBR (t, m) (flatStoreInit t m) :=
  ⟨rfl, rfl, .refl _ _, tlbCache_sound_of_inactive hinactive m t.PTBR _, fun _ _ => rfl⟩

section

variable {m₀ : Memory} {ptbr : Word} {s : Thread n × Memory} {f : FlatStore} {v : Word}

/-- The walk of a page of the table gives what it gave at the start. -/
theorem VirtualMemory.walk_eq (h : VirtualMemory m₀ ptbr s f)
    (hv : pageNumber v < pmReadWord m₀ ptbr) :
    mmuResolveFrameRootAddressFromMem s.2 ptbr v = mmuResolveFrameRootAddressFromMem m₀ ptbr v := by
  have hv' : pageNumber v < pmReadWord s.2 ptbr := by rwa [entryCount_congr h.table]
  rw [mmuResolveFrameRootAddressFromMem_of_lt hv, mmuResolveFrameRootAddressFromMem_of_lt hv',
    pageFrame_congr h.table hv]

/-- A virtual address of the table translates as it did at the start, and the TLB stays sound. -/
theorem VirtualMemory.resolve (h : VirtualMemory m₀ ptbr s f)
    (hv : pageNumber v < pmReadWord m₀ ptbr) :
    ∃ mmu, mmuResolve s.1.memManagUnit s.2 s.1.PTBR v = .ok (physicalAddress m₀ ptbr v, mmu) ∧
      Cache.Sound (tlbCache n) (mmuResolveFrameRootAddressFromMem m₀ ptbr)
        {v | pageNumber v < pmReadWord m₀ ptbr} mmu := by
  have hsound := h.sound.congr fun k hk => h.walk_eq hk
  have hv' : pageNumber v < pmReadWord s.2 ptbr := by rwa [entryCount_congr h.table]
  obtain ⟨mmu, hres, hsound'⟩ := mmuResolve_of_sound hsound hv hv'
  refine ⟨mmu, ?_, hsound'.congr fun k hk => (h.walk_eq hk).symm⟩
  rw [h.base, hres, physicalAddress, physicalAddress, pageFrame_congr h.table hv]

/-- The table's own words are not written through the table. -/
theorem FlatTable.agree (htable : FlatTable m₀ ptbr) (hv : pageNumber v < pmReadWord m₀ ptbr)
    (m : Memory) (w : Word) :
    AgreeOn (tableFrames m₀ ptbr) m (pmWriteWord m (physicalAddress m₀ ptbr v) w) :=
  pmWriteWord_agree (Set.disjoint_left.1 htable.apart (busFrame_physicalAddress_mem hv))

/-- A call answers like the call on the abstract store. -/
theorem VirtualMemory.step (htable : FlatTable m₀ ptbr) (h : VirtualMemory m₀ ptbr s f)
    {cmd : MemCmd}
    (hcmd : cmd.InTable m₀ ptbr) :
    ∃ s', cmd.exec s = .ok ((cmd.spec f).1, s') ∧ VirtualMemory m₀ ptbr s' (cmd.spec f).2 := by
  obtain ⟨t, m⟩ := s
  cases cmd with
  | work R => exact ⟨_, rfl, h.base, rfl, h.table, h.sound, h.words⟩
  | LD reg v =>
    obtain ⟨mmu, hres, hsound⟩ := h.resolve hcmd
    have hload := h.words v hcmd
    refine ⟨({ t with memManagUnit := mmu }.setR reg (f.load v), m), ?_, h.base, ?_,
      h.table, hsound, h.words⟩
    · simp only [MemCmd.exec, exLD, hres, Outcome.ok_bind, Outcome.pure_eq, hload]
      simp [MemCmd.spec, Thread.setR]
    · simp only [Thread.setR, MemCmd.spec, ← h.R]
  | ST reg v =>
    obtain ⟨mmu, hres, hsound⟩ := h.resolve hcmd
    refine ⟨({ t with memManagUnit := mmu }, pmWriteWord m (physicalAddress m₀ ptbr v) (t.R reg)),
      ?_, h.base, h.R, h.table.trans (htable.agree hcmd m _), hsound, ?_⟩
    · simp only [MemCmd.exec, exST, hres, Outcome.ok_bind, Outcome.pure_eq]
      rfl
    · intro v' hv'
      simp only [MemCmd.spec, FlatStore.load_store]
      by_cases hsame : virtualWord v = virtualWord v'
      · have haddr := (htable.wordStartAddress_inj hcmd hv').2 hsame
        rw [if_pos hsame, pmReadWord_congr_word _ haddr.symm, pmReadWord_pmWriteWord]
        exact congrFun h.R reg
      · rw [if_neg hsame, pmReadWord_pmWriteWord_of_ne _ _
          (mt (htable.wordStartAddress_inj hcmd hv').1 hsame)]
        exact h.words v' hv'

end

/-- Of the bytes of memory a call changes those of the word that it stores only. -/
theorem VirtualMemory.storesOneWord {m₀ : Memory} {ptbr : Word} {s : Thread n × Memory}
    {f : FlatStore}
    (h : VirtualMemory m₀ ptbr s f) {cmd : MemCmd} (hcmd : cmd.InTable m₀ ptbr) :
    cmd.StoresOneWord m₀ ptbr s := by
  obtain ⟨t, m⟩ := s
  intro o s' hexec x hx
  cases cmd with
  | work R =>
    cases hexec
    rfl
  | LD reg v =>
    obtain ⟨mmu, hres, -⟩ := h.resolve hcmd
    simp only [MemCmd.exec, exLD, hres, Outcome.ok_bind, Outcome.pure_eq] at hexec
    cases hexec
    rfl
  | ST reg v =>
    obtain ⟨mmu, hres, -⟩ := h.resolve hcmd
    simp only [MemCmd.exec, exST, hres, Outcome.ok_bind, Outcome.pure_eq] at hexec
    cases hexec
    exact pmWriteWord_of_ne m _ _ (hx reg v rfl)

/-- In every sequence of loads and stores on the pages of a table, each load gives the value of the
last store to its word, or the word initially there, and each store changes its word only.
Reference: `__ex_LD` (`src/executor_s.c:76`), `__ex_ST` (`src/executor_s.c:82`). -/
theorem virtualMemory_is_flatStore {t : Thread n} {m : Memory} (htable : FlatTable m t.PTBR)
    (hinactive : ∀ k, (t.memManagUnit.tlbHashArr k).active = false) {cmds : List MemCmd}
    (hcmds : ∀ cmd ∈ cmds, cmd.InTable m t.PTBR) :
    (∃ s, Machine.run MemCmd.exec cmds (t, m) =
      .ok ((Machine.specRun MemCmd.spec cmds (flatStoreInit t m)).1, s)) ∧
    Machine.Meets MemCmd.exec (MemCmd.StoresOneWord m t.PTBR) cmds (t, m) := by
  have hinit := virtualMemory_init hinactive m
  have hstep (cmd : MemCmd) (s : Thread n × Memory) (f : FlatStore) (hcmd : cmd.InTable m t.PTBR)
      (hs : VirtualMemory m t.PTBR s f) : Machine.Agrees (VirtualMemory m t.PTBR) (cmd.exec s)
        (.ok (cmd.spec f) : Outcome _) := by
    obtain ⟨s', hexec, hs'⟩ := hs.step htable hcmd
    rw [hexec]
    exact ⟨rfl, hs'⟩
  constructor
  · have hrun := Machine.run_agrees hstep hcmds hinit
    rw [Machine.run_spec] at hrun
    obtain ⟨s, hs, -⟩ := hrun.exists_ok
    exact ⟨s, hs⟩
  · have hkeep (cmd : MemCmd) (s : Thread n × Memory) (o : Option Word) (s' : Thread n × Memory)
        (hs : ∃ f, VirtualMemory m t.PTBR s f) (hcmd : cmd.InTable m t.PTBR)
        (hexec : cmd.exec s = .ok (o, s')) : ∃ f, VirtualMemory m t.PTBR s' f := by
      obtain ⟨f, hf⟩ := hs
      obtain ⟨s₁, hexec₁, hs₁⟩ := hf.step htable hcmd
      rw [hexec] at hexec₁
      cases hexec₁
      exact ⟨_, hs₁⟩
    refine Machine.Meets.of_invariant ?_ hkeep ⟨_, hinit⟩ (Machine.Meets.of_forall hcmds _)
    intro cmd s hs hcmd
    obtain ⟨f, hf⟩ := hs
    exact hf.storesOneWord hcmd

/-- A word is stored, loaded through another address of it, and loaded again after the register with
the stored value has changed. -/
theorem virtualMemory_is_flatStore_four :
    let cmds : List MemCmd := [.LD 2 0x10, .ST 0 0x8, .work fun _ => 9, .LD 1 0xB]
    let t : Thread 1 := ⟨0, 0, 0, fun _ => 7, 0, tlbFlush 1⟩
    (∃ s, Machine.run MemCmd.exec cmds (t, twoTables) = .ok ([some 0, none, none, some 7], s)) ∧
      Machine.Meets MemCmd.exec (MemCmd.StoresOneWord twoTables 0) cmds (t, twoTables) := by
  have hone : pmReadWord twoTables 0 = 1 := by decide
  have htable : FlatTable twoTables 0 := by
    refine ⟨?_, ?_, ?_⟩
    · rw [hone]
      intro q hq q' hq' _
      bv_omega
    · rw [hone]
      intro q hq
      obtain rfl : q = 0 := by bv_omega
      decide
    · exact twoTables_apart.tables false false
  exact virtualMemory_is_flatStore (t := ⟨0, 0, 0, fun _ => 7, 0, tlbFlush 1⟩) htable (fun _ => rfl)
    (by simp [MemCmd.InTable]; decide)

end SeKernel
