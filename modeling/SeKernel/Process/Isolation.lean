import SeKernel.Cpu.Steps
import SeKernel.Lib.Machine
import SeKernel.Process.Pcb

/-!
# Isolation across context switches

One hardware thread runs processes in turn, each with its own page table. A switch changes the page
table base but leaves the TLB, so a page that the last process touched still translates through that
process's table. Every step stays inside the frames of the process loaded exactly when no step meets
such a stale entry (`switches_isolate_iff`).
-/

namespace SeKernel

variable {ι : Type} {n : Nat} [NeZero n]

/-- A hardware thread, the memory, the PCBs and the one loaded last. -/
structure SwitchState (ι : Type) (n : Nat) where
  thread : Thread n
  memory : Memory
  pcbs : PcbHeap ι
  current : Option ι

/-- A switch to a process, or one instruction of the process loaded. -/
inductive SwitchCmd (ι : Type)
  | dispatch (newPcb : ι)
  | execute
  deriving DecidableEq

/-- One switch or instruction. -/
def SwitchCmd.exec [DecidableEq ι] : SwitchCmd ι → SwitchState ι n → Outcome (Int × SwitchState ι n)
  | .dispatch newPcb, s => do
    let (pcbs, thread) ← dispDispatch s.pcbs s.current newPcb s.thread
    return (0, { s with pcbs, thread, current := some newPcb })
  | .execute, s => do
    let (ret, thread, memory) ← executeCurrent s.thread s.memory
    return (ret, { s with thread, memory })

/-- No process is loaded yet. -/
def switchInit (thread : Thread n) (memory : Memory) (pcbs : ι → Pcb) : SwitchState ι n :=
  ⟨thread, memory, fun i => some (pcbs i), none⟩

/-- The PCB of the process loaded. -/
def SwitchState.Loaded (s : SwitchState ι n) (i : ι) (pcb : Pcb) : Prop :=
  s.current = some i ∧ s.pcbs i = some pcb

/-- An instruction runs with a process loaded, and the virtual pages it uses are pages of that
process's table. -/
def SwitchCmd.Valid : SwitchCmd ι → SwitchState ι n → Prop
  | .dispatch _, _ => True
  | .execute, s => ∃ i pcb, s.Loaded i pcb ∧ ∀ x ∈ translations s.thread s.memory,
    pageNumber x.1 < pmReadWord s.memory pcb.memoryMap.pgb

/-- The words that an instruction reads as instruction or data, or writes, lie in frames of the
table of the process loaded. -/
def SwitchCmd.Confined : SwitchCmd ι → SwitchState ι n → Prop
  | .dispatch _, _ => True
  | .execute, s => ∀ i pcb, s.Loaded i pcb → ∀ x ∈ translations s.thread s.memory,
    ∀ p, x.2 = .ok p → busFrame p ∈ listedFrames s.memory pcb.memoryMap.pgb

/-- No page that an instruction uses is answered by a TLB entry of another process's table. -/
def SwitchCmd.MeetsNoStale : SwitchCmd ι → SwitchState ι n → Prop
  | .dispatch _, _ => True
  | .execute, s => Fresh s.thread s.memory

/-! ## The invariant -/

/-- What a run over processes with page tables at `pgb` in `m₀` keeps: the PCBs and the tables, and
a TLB whose entries each come from one of the tables. -/
structure SwitchState.Inv (m₀ : Memory) (pgb : ι → Word) (s : SwitchState ι n) : Prop where
  pcbs : ∀ i, (s.pcbs i).map (·.memoryMap.pgb) = some (pgb i)
  ptbr : ∀ i, s.current = some i → s.thread.PTBR = pgb i
  table : ∀ i, AgreeOn (tableFrames m₀ (pgb i)) m₀ s.memory
  tlb : ∀ va e, tlbGetMatch s.thread.memManagUnit va = some e →
    ∃ j, pageNumber va < pmReadWord m₀ (pgb j) ∧
      e.physicalAddress = pageFrame m₀ (pgb j) (pageNumber va)

variable {m₀ : Memory} {pgb : ι → Word} {s s' : SwitchState ι n} {i : ι} {pcb : Pcb} {ret : Int}

theorem switchInit_inv {thread : Thread n} {memory : Memory} {pcbs : ι → Pcb}
    (hinactive : ∀ k, (thread.memManagUnit.tlbHashArr k).active = false) :
    (switchInit thread memory pcbs).Inv memory fun i => (pcbs i).memoryMap.pgb where
  pcbs _ := rfl
  ptbr i hi := by cases hi
  table _ := .refl _ _
  tlb va e he := by
    unfold tlbGetMatch switchInit at he
    simp [hinactive] at he

/-- The thread's page table base is that of the process loaded. -/
theorem SwitchState.Inv.loaded (h : s.Inv m₀ pgb) (hi : s.Loaded i pcb) :
    pcb.memoryMap.pgb = s.thread.PTBR ∧ s.thread.PTBR = pgb i := by
  have hpgb := h.pcbs i
  rw [hi.2] at hpgb
  have hptbr := h.ptbr i hi.1
  exact ⟨(Option.some.inj hpgb).trans hptbr.symm, hptbr⟩

theorem SwitchState.Inv.listed_eq (h : s.Inv m₀ pgb) (i : ι) :
    listedFrames s.memory (pgb i) = listedFrames m₀ (pgb i) := listedFrames_congr (h.table i)

theorem SwitchState.Inv.pagesInTable (h : s.Inv m₀ pgb) (hvalid : SwitchCmd.execute.Valid s) :
    ∃ i pcb, s.Loaded i pcb ∧ PagesInTable s.thread s.memory := by
  obtain ⟨i, pcb, hi, hpages⟩ := hvalid
  rw [(h.loaded hi).1] at hpages
  exact ⟨i, pcb, hi, hpages⟩

/-- An entry that leads to a frame of the process loaded comes from that process's table, since the
other tables list other frames. -/
theorem SwitchState.Inv.notStale_of_confined (h : s.Inv m₀ pgb) (hapart : TablesApart m₀ pgb)
    (hi : s.Loaded i pcb) {va : Word}
    (hconf : ∀ e, tlbGetMatch s.thread.memManagUnit va = some e →
      busFrame e.physicalAddress ∈ listedFrames s.memory s.thread.PTBR) :
    NotStale s.thread.memManagUnit s.memory s.thread.PTBR va := by
  intro e he
  obtain ⟨j, hva, hframe⟩ := h.tlb va e he
  have hmem := hconf e he
  rw [(h.loaded hi).2, h.listed_eq i] at hmem
  have hj : j = i := by
    by_contra hne
    have hown : busFrame e.physicalAddress ∈ listedFrames m₀ (pgb j) :=
      ⟨pageNumber va, hva, by rw [hframe]⟩
    exact Set.disjoint_left.1 (hapart.frames j i hne) hown hmem
  subst hj
  rw [(h.loaded hi).2, pageFrame_congr (h.table j) hva]
  exact hframe

/-- An instruction stays inside the frames of the process loaded if and only if no page it uses is
answered by a stale entry. -/
theorem SwitchState.Inv.confined_iff (h : s.Inv m₀ pgb) (hapart : TablesApart m₀ pgb)
    (hvalid : SwitchCmd.execute.Valid s) :
    SwitchCmd.execute.MeetsNoStale s ↔ SwitchCmd.execute.Confined s := by
  obtain ⟨i, pcb, hi, hpages⟩ := h.pagesInTable hvalid
  constructor
  · intro hfresh j q hj x hx p hp
    obtain ⟨p', hp', hmem⟩ := (hpages.onTable hfresh).confined hx
    rw [hp'] at hp
    cases hp
    rw [(h.loaded hj).1]
    exact hmem
  · intro hconf
    have hconf' := hconf i pcb hi
    rw [(h.loaded hi).1] at hconf'
    have hfetch : NotStale s.thread.memManagUnit s.memory s.thread.PTBR s.thread.PC := by
      refine h.notStale_of_confined hapart hi fun e he => ?_
      obtain ⟨p, hp, hframe⟩ := exists_mem_translations_of_match he
      rw [← hframe]
      exact hconf' _ hp p rfl
    refine ⟨hfetch, fun x hx hslot => h.notStale_of_confined hapart hi fun e he => ?_⟩
    obtain ⟨p, hp, hframe⟩ := translation_of_match hpages.fetchPage hfetch hx hslot he
    rw [← hframe]
    exact hconf' x hx p hp

variable [DecidableEq ι]

/-- A switch keeps the invariant. -/
theorem SwitchState.Inv.dispatch (h : s.Inv m₀ pgb) {newPcb : ι}
    (hexec : (SwitchCmd.dispatch newPcb).exec s = .ok (ret, s')) : s'.Inv m₀ pgb := by
  unfold SwitchCmd.exec at hexec
  obtain ⟨⟨pcbs, thread⟩, hdisp, hret⟩ := Outcome.bind_eq_ok.1 hexec
  obtain ⟨hmmu, hptbr, hmaps⟩ := dispDispatch_frame hdisp
  cases hret
  refine ⟨?_, ?_, h.table, ?_⟩
  · intro i
    have hpgb := congrArg (Option.map MemoryMap.pgb) (hmaps i)
    simp only [Option.map_map] at hpgb
    exact hpgb.trans (h.pcbs i)
  · intro i hi
    cases hi
    exact Option.some.inj (hptbr.symm.trans (h.pcbs newPcb))
  · rw [hmmu]
    exact h.tlb

/-- An instruction that meets no stale entry writes no table and adds entries of its own table. -/
theorem SwitchState.Inv.execute (h : s.Inv m₀ pgb) (hapart : TablesApart m₀ pgb)
    (hvalid : SwitchCmd.execute.Valid s) (hfresh : SwitchCmd.execute.MeetsNoStale s)
    (hexec : SwitchCmd.execute.exec s = .ok (ret, s')) : s'.Inv m₀ pgb := by
  obtain ⟨i, pcb, hi, hpages⟩ := h.pagesInTable hvalid
  have hptbr := (h.loaded hi).2
  unfold SwitchCmd.exec at hexec
  obtain ⟨⟨r, t, m'⟩, hex, hret⟩ := Outcome.bind_eq_ok.1 hexec
  obtain ⟨p, store, hp, rfl, hbase, htlb, -⟩ := executeCurrent_onTable (hpages.onTable hfresh) hex
  cases hret
  refine ⟨h.pcbs, ?_, ?_, ?_⟩
  · intro j hj
    exact hbase.trans (h.ptbr j hj)
  · intro j
    rw [hptbr, h.listed_eq i] at hp
    exact (h.table j).trans (storeWord_agree store (Set.disjoint_left.1 (hapart.tables i j) hp))
  · intro va e he
    rcases htlb va e he with hold | ⟨hva, hframe⟩
    · exact h.tlb va e hold
    · rw [hptbr, entryCount_congr (h.table i)] at hva
      rw [hptbr, pageFrame_congr (h.table i) hva] at hframe
      exact ⟨i, hva, hframe⟩

/-! ## Runs -/

/-- Over processes whose page tables are apart, from an inactive TLB, a run of switches and
instructions stays inside the frames of the process loaded at every step if and only if no
instruction meets a TLB entry of another process's table. Reference: `disp_dispatch`
(`src/scheduler.c:129`), `mmu_resolve` (`src/memory_s.c:258`). -/
theorem switches_isolate_iff {thread : Thread n} {memory : Memory} {pcbs : ι → Pcb}
    (hinactive : ∀ k, (thread.memManagUnit.tlbHashArr k).active = false)
    (hapart : TablesApart memory fun i => (pcbs i).memoryMap.pgb) {cmds : List (SwitchCmd ι)}
    (hvalid : Machine.Meets SwitchCmd.exec SwitchCmd.Valid cmds (switchInit thread memory pcbs)) :
    Machine.Meets SwitchCmd.exec SwitchCmd.Confined cmds (switchInit thread memory pcbs) ↔
      Machine.Meets SwitchCmd.exec SwitchCmd.MeetsNoStale cmds (switchInit thread memory pcbs) := by
  refine (Machine.meets_congr_of_invariant ?_ ?_ (switchInit_inv hinactive) hvalid).symm
  · intro cmd s hs hv
    cases cmd with
    | dispatch _ => exact Iff.rfl
    | execute => exact hs.confined_iff hapart hv
  · intro cmd s ret s' hs hv hfresh hexec
    cases cmd with
    | dispatch _ => exact hs.dispatch hexec
    | execute => exact hs.execute hapart hv hfresh hexec

/-! ## Two processes of one page -/

/-- The processes of `twoTables`. -/
def twoPcbs (x : Bool) : Pcb :=
  ⟨if x then 1 else 0, 0, prReady, ⟨0, 0, twoPgb x⟩, ⟨0, 0, fun _ => 0, 0⟩⟩

/-- A hardware thread whose TLB has 20 slots, as `TLB_MAX_SPACE` says. -/
def idleThread : Thread 20 := ⟨0, 0, 0, fun _ => 0, 0, tlbFlush 20⟩

/-- A process that is loaded again finds its own entries. -/
theorem switches_isolate_iff_reload :
    Machine.Meets SwitchCmd.exec SwitchCmd.Confined
      [.dispatch false, .execute, .dispatch false, .execute]
      (switchInit idleThread twoTables twoPcbs) := by
  refine (switches_isolate_iff (fun _ => rfl) twoTables_apart ?_).2 ?_
  · exact .cons trivial rfl <| .cons ⟨false, _, ⟨rfl, rfl⟩, by decide⟩ rfl <|
      .cons trivial rfl <| .cons ⟨false, _, ⟨rfl, rfl⟩, by decide⟩ rfl trivial
  · refine .cons trivial rfl <| .cons ?_ rfl <| .cons trivial rfl <| .cons ?_ rfl trivial
    all_goals
      unfold SwitchCmd.MeetsNoStale
      decide

/-- The second process fetches from the page that the first one fetched from, and reads the first
one's frame. -/
theorem switches_leak : TablesApart twoTables (fun x => (twoPcbs x).memoryMap.pgb) ∧
    Machine.Meets SwitchCmd.exec SwitchCmd.Valid
      [.dispatch false, .execute, .dispatch true, .execute]
      (switchInit idleThread twoTables twoPcbs) ∧
    ¬ Machine.Meets SwitchCmd.exec SwitchCmd.Confined
      [.dispatch false, .execute, .dispatch true, .execute]
      (switchInit idleThread twoTables twoPcbs) := by
  refine ⟨twoTables_apart, ?_, ?_⟩
  · exact .cons trivial rfl <| .cons ⟨false, _, ⟨rfl, rfl⟩, by decide⟩ rfl <|
      .cons trivial rfl <| .cons ⟨true, _, ⟨rfl, rfl⟩, by decide⟩ rfl trivial
  · intro h
    have hconf := (((h.2 _ _ rfl).2 _ _ rfl).2 _ _ rfl).1
    have hmem := hconf true _ ⟨rfl, rfl⟩ (0, .ok 0x400000) (by decide) _ rfl
    rw [listedFrames_of_one (by decide)] at hmem
    revert hmem
    decide

end SeKernel
