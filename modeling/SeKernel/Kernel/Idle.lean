import SeKernel.Cpu.Init
import SeKernel.Scheduler.WorkConservation
import SeKernel.Virtual.Loaded

/-!
# The idle kernel

The scheduler, the executor and the memory as one system, after `sched_init`. While every core is on
`null_process`, the scheduler saves it and loads it again and changes no hardware thread, so that a
run is as many rounds of `execute_all` as it holds (`idle_kernel_only_executes`). The program that
`load_null_pcb` writes is one `EXIT` to itself: from `sched_init` on, whatever is queued, no step
changes the memory or moves a thread from address 0 (`idle_kernel_inert`).
-/

namespace SeKernel

variable {ι τ : Type} {k n : Nat}

/-! ## The system -/

/-- The scheduler, with the hardware threads, and the memory that they share. -/
structure Kernel (ι : Type) (k n : Nat) where
  sched : Sched ι Ptr k n
  memory : Memory

/-- A step of the scheduler, or what the timer of the executor does. -/
inductive KernelStep (ι : Type) (k : Nat)
  | sched (step : SchedStep ι k)
  | executor

/-- The rounds of `execute_all` in a step. -/
def KernelStep.rounds : KernelStep ι k → Nat
  | .sched _ => 0
  | .executor => 1

/-- The hardware threads and the memory. -/
def Kernel.threads (s : Kernel ι k n) : Threads fun _ : Ptr => n := ⟨s.sched.threads, s.memory⟩

variable [DecidableEq ι]

/-- Take a step. -/
def KernelStep.exec [NeZero n] (exec : ExecutorT) :
    KernelStep ι k → Kernel ι k n → Outcome (Kernel ι k n)
  | .sched step, s => do
    let sched ← step.exec s.sched
    return { s with sched }
  | .executor, s => do
    let t ← executorExec exec s.threads
    return ⟨{ s.sched with threads := t.thread }, t.memory⟩

/-- The step returns. -/
def KernelStep.Step [NeZero n] (exec : ExecutorT) (s : Kernel ι k n) (step : KernelStep ι k)
    (s' : Kernel ι k n) : Prop := step.exec exec s = .ok s'

/-- What `load_null_pcb` does to an MMU, to the PCB and to the memory. Reference: `load_null_pcb`
(`src/loader_s.c:131`). -/
def loadNullPcb {m : Nat} [NeZero m] (mmuMalloc : MmuMalloc) (ps : PhysicalMemory) (mmu : Mmu m)
    (pcb : Pcb) : Outcome (Mmu m × Pcb × PhysicalMemory) := do
  let (_, pgb, ps) ← mmuMalloc ps 1
  let pcb := { pcb with memoryMap := ⟨0, 0, pgb⟩, currentPriority := 0, pid := -1 }
  let pcb := cpuSnapshotInit pcb statusOffset 0
  let (address, _) ← mmuResolve mmu ps.memory pcb.memoryMap.pgb 0
  return (tlbFlush m, pcb, { ps with memory := pmWriteWord ps.memory address 0xF0000000 })

/-! ## An idle core -/

variable [DecidableEq τ] {c : Fin k} {s s' : Sched ι τ k n} {p : Pcb}

/-- What `null_process` is when it is loaded on a core: saved from it before, if it was there. -/
def Sched.savedNull (s : Sched ι τ k n) (c : Fin k) (p : Pcb) : Pcb :=
  (s.coreControlArray c).currentProcess.elim p fun _ =>
    dispUnload (s.threads (s.coreControlArray c).threadS) p

/-- `null_process` has been loaded on a core. -/
structure Sched.NullLoaded (c : Fin k) (p : Pcb) (s s' : Sched ι τ k n) : Prop where
  core : s'.coreControlArray c = { s.coreControlArray c with
    currentProcess := some .nullProcess
    currentProcessQuantum := schedulerBaseProcessRrFreq
    currrentCpuSchedStatus := nullProcessRun }
  cores : ∀ d, d ≠ c → s'.coreControlArray d = s.coreControlArray d
  threads : s'.threads = Function.update s.threads (s.coreControlArray c).threadS
    (dispLoad (s.threads (s.coreControlArray c).threadS) (s.savedNull c p)).1
  nullProcess : s'.pcbs .nullProcess =
    some (dispLoad (s.threads (s.coreControlArray c).threadS) (s.savedNull c p)).2

/-- Reference: `disp_dispatch` (`src/scheduler.c:129`). -/
theorem dispDispatch_null {old : Option (PcbPtr ι)} {pcbs : PcbHeap (PcbPtr ι)} (t : Thread n)
    (hold : old = none ∨ old = some .nullProcess) (hp : pcbs .nullProcess = some p) :
    ∃ pcbs', dispDispatch pcbs old .nullProcess t =
        .ok (pcbs', (dispLoad t (old.elim p fun _ => dispUnload t p)).1) ∧
      pcbs' .nullProcess = some (dispLoad t (old.elim p fun _ => dispUnload t p)).2 := by
  obtain ⟨pcbs₁, hunload, hread⟩ : ∃ pcbs₁, dispUnloadOld pcbs t old = .ok pcbs₁ ∧
      pcbs₁.read .nullProcess = .ok (old.elim p fun _ => dispUnload t p) := by
    rcases hold with rfl | rfl
    · exact ⟨pcbs, rfl, PcbHeap.read_eq_ok.2 hp⟩
    · refine ⟨pcbs.write .nullProcess (dispUnload t p), ?_, ?_⟩
      · rw [dispUnloadOld, PcbHeap.read_eq_ok.2 hp]
        rfl
      · exact PcbHeap.read_eq_ok.2 (Function.update_self ..)
  refine ⟨pcbs₁.write .nullProcess (dispLoad t (old.elim p fun _ => dispUnload t p)).2, ?_,
    Function.update_self ..⟩
  rw [dispDispatch, hunload, Outcome.ok_bind, hread]
  rfl

/-- Reference: `sched_dispatcher` (`src/scheduler.c:42`). -/
theorem schedDispatcher_nullLoaded (hidle : s.IdleMarked c) (hp : s.pcbs .nullProcess = some p) :
    ∃ s', schedDispatcher s c = .ok s' ∧ s.NullLoaded c p s' := by
  obtain ⟨hcurrent, hstatus⟩ := hidle
  let t := s.modifyCore c ({ · with currentProcessQuantum := schedulerBaseProcessRrFreq })
  have hcore : t.coreControlArray c =
      { s.coreControlArray c with currentProcessQuantum := schedulerBaseProcessRrFreq } :=
    s.modifyCore_self c _
  obtain ⟨pcbs, hdispatch, hnull⟩ :=
    dispDispatch_null (s.threads (s.coreControlArray c).threadS) hcurrent hp
  have hload : schedDispatcherLoad t c (s.coreControlArray c).currentProcess .nullProcess =
      .ok { t.modifyCore c ({ · with currentProcess := some .nullProcess }) with
        pcbs
        threads := Function.update s.threads (s.coreControlArray c).threadS
          (dispLoad (s.threads (s.coreControlArray c).threadS) (s.savedNull c p)).1 } := by
    rw [schedDispatcherLoad, hcore]
    show (dispDispatch s.pcbs _ _ (s.threads (s.coreControlArray c).threadS) >>= _) = _
    rw [hdispatch]
    rfl
  have hswitch : schedDispatcher s c =
      schedDispatcherSwitch t c (s.coreControlArray c).currentProcess .nullProcess := by
    unfold schedDispatcher schedGetNextProcessCleanQueue
    rw [if_pos hstatus]
    rfl
  rw [hswitch, schedDispatcherSwitch, hload, Outcome.ok_bind,
    schedDispatcherPutAway_idle _ (by simpa [t] using hstatus), Outcome.ok_bind]
  refine ⟨_, rfl, ?_, fun d hd => ?_, rfl, hnull⟩
  · simp [t]
  · simp [t, hd]

/-! ## Every core on `null_process` -/

omit [DecidableEq τ] in
/-- Changing another PCB. -/
theorem PcbHeap.write_pcb_nullProcess (heap : PcbHeap (PcbPtr ι)) (i : ι) (p : Pcb) :
    heap.write (.pcb i) p .nullProcess = heap .nullProcess := by
  have hne : PcbPtr.nullProcess ≠ .pcb i := nofun
  exact Function.update_of_ne hne _ heap

/-- Every core is on `null_process`, with its page table. -/
structure Sched.OnNull (s : Sched ι τ k n) : Prop where
  current : ∀ c, (s.coreControlArray c).currentProcess = some .nullProcess
  marked : ∀ c, (s.coreControlArray c).currrentCpuSchedStatus = nullProcessRun
  loaded : ∃ p, s.pcbs .nullProcess = some p ∧ p.status ≠ prFini ∧
    ∀ c, (s.threads (s.coreControlArray c).threadS).PTBR = p.memoryMap.pgb

/-- Saving a process and loading it again changes nothing on its thread. -/
theorem dispLoad_dispUnload {t : Thread n} (h : t.PTBR = p.memoryMap.pgb) :
    (dispLoad t (dispUnload t p)).1 = t := by
  cases t
  subst h
  rfl

omit [DecidableEq ι] [DecidableEq τ] in
/-- A change of a record that is still on `null_process`. -/
theorem Sched.OnNull.of_core (h : s.OnNull)
    (hcores : ∀ d, d ≠ c → s'.coreControlArray d = s.coreControlArray d)
    (hthreadS : (s'.coreControlArray c).threadS = (s.coreControlArray c).threadS)
    (hcurrent : (s'.coreControlArray c).currentProcess = some .nullProcess)
    (hmarked : (s'.coreControlArray c).currrentCpuSchedStatus = nullProcessRun)
    (hthreads : s'.threads = s.threads) {p' : Pcb} (hp : s.pcbs .nullProcess = some p)
    (hp' : s'.pcbs .nullProcess = some p') (hpgb : p'.memoryMap.pgb = p.memoryMap.pgb)
    (hstatus : p'.status ≠ prFini) : s'.OnNull := by
  have hboth {P : Fin k → Prop} (hc : P c) (hd : ∀ d, d ≠ c → P d) (d : Fin k) : P d := by
    by_cases hdc : d = c
    · exact hdc ▸ hc
    · exact hd d hdc
  obtain ⟨q, hq, -, hPTBR⟩ := h.loaded
  cases hp.symm.trans hq
  refine ⟨hboth hcurrent fun d hd => ?_, hboth hmarked fun d hd => ?_, p', hp', hstatus, ?_⟩
  · rw [hcores d hd]
    exact h.current d
  · rw [hcores d hd]
    exact h.marked d
  · rw [hthreads, hpgb]
    refine hboth ?_ fun d hd => ?_
    · rw [hthreadS]
      exact hPTBR c
    · rw [hcores d hd]
      exact hPTBR d

/-- The scheduler saves `null_process` and loads it again. Reference: `sched_dispatcher`
(`src/scheduler.c:42`). -/
theorem Sched.OnNull.dispatcher (h : s.OnNull) (hstep : schedDispatcher s c = .ok s') :
    s'.OnNull ∧ s'.threads = s.threads := by
  obtain ⟨p, hp, -, hPTBR⟩ := h.loaded
  obtain ⟨t, ht, hloaded⟩ := schedDispatcher_nullLoaded ⟨.inr (h.current c), h.marked c⟩ hp
  cases ht.symm.trans hstep
  have hsaved : s.savedNull c p = dispUnload (s.threads (s.coreControlArray c).threadS) p := by
    rw [Sched.savedNull, h.current c]
    rfl
  have hthreads : s'.threads = s.threads := by
    rw [hloaded.threads, hsaved, dispLoad_dispUnload (hPTBR c), Function.update_eq_self]
  have hnull := hloaded.nullProcess
  rw [hsaved] at hnull
  have hexec : prExec ≠ prFini := by decide
  refine ⟨h.of_core hloaded.cores ?_ ?_ ?_ hthreads hp hnull rfl hexec, hthreads⟩
  · rw [hloaded.core]
  · rw [hloaded.core]
  · rw [hloaded.core]

/-- Reference: `sched_execute` (`src/scheduler.c:26`). -/
theorem Sched.OnNull.executeCore (h : s.OnNull) (hstep : schedExecuteCore s c = .ok s') :
    s'.OnNull ∧ s'.threads = s.threads := by
  obtain ⟨p, hp, hlive, -⟩ := h.loaded
  obtain ⟨t, hupdate, hexecute⟩ := Outcome.bind_eq_ok.1 hstep
  have hkept : t = s := by
    rcases schedUpdateRunningPcb_cases hupdate with ⟨-, hkept⟩ | ⟨⟨x, q, hx, hq, hfini⟩, -⟩
    · exact hkept
    · cases (h.current c).symm.trans hx
      cases hp.symm.trans hq
      exact absurd hfini hlive
  subst hkept
  rcases schedExecuteUpdated_cases hexecute with ⟨hdispatch, -⟩ | ⟨-, -, rfl⟩ | ⟨-, hbusy, -⟩
  · exact h.dispatcher hdispatch
  · refine ⟨h.of_core (fun d hd => t.modifyCore_of_ne c _ hd) ?_ ?_ ?_ rfl hp hp rfl hlive, rfl⟩
    · rw [Sched.modifyCore_self]
    · rw [Sched.modifyCore_self]
      exact h.current c
    · rw [Sched.modifyCore_self]
      exact h.marked c
  · exact absurd (h.marked c) hbusy

/-- No step of the scheduler changes a hardware thread. -/
theorem Sched.OnNull.step {step : SchedStep ι k} (h : s.OnNull) (hstep : step.exec s = .ok s') :
    s'.OnNull ∧ s'.threads = s.threads := by
  cases step with
  | add newPcb =>
    obtain ⟨q, -, hstep⟩ := Outcome.bind_eq_ok.1 hstep
    obtain ⟨iSched, -, hstep⟩ := Outcome.bind_eq_ok.1 hstep
    cases hstep
    obtain ⟨p, hp, hrest⟩ := h.loaded
    refine ⟨⟨h.current, h.marked, p, ?_, hrest⟩, rfl⟩
    dsimp only
    rw [PcbHeap.write_pcb_nullProcess, hp]
  | dispatcher c => exact h.dispatcher hstep
  | execute =>
    refine Pass.foldlM_keeps (I := fun u => u.OnNull ∧ u.threads = s.threads) ?_ ⟨h, rfl⟩ hstep
    rintro u c - u' ⟨hu, hthreads⟩ hturn
    obtain ⟨hu', hkept⟩ := hu.executeCore hturn
    exact ⟨hu', hkept.trans hthreads⟩

/-! ## Only the executor does anything -/

variable [NeZero n]

omit [DecidableEq ι] [DecidableEq τ] in
/-- An instruction does not change the page table base. Reference: `execute_current`
(`src/executor_s.c:35`). -/
theorem executeCurrent_PTBR {t t' : Thread n} {m m' : Memory} {ret : Int}
    (h : executeCurrent t m = .ok (ret, t', m')) : t'.PTBR = t.PTBR := by
  obtain ⟨⟨a, mmu⟩, -, h⟩ := Outcome.bind_eq_ok.1 h
  obtain ⟨op, hop⟩ := command_eq_some (pmReadWord m a)
  rcases execute_cases hop h with ⟨rfl, ⟨hunit, hmem⟩ | ⟨hunit, halu, rfl⟩ | ⟨hunit, rfl, rfl⟩⟩
  · obtain ⟨p, mmu', -, ⟨-, rfl, -⟩ | ⟨-, rfl, -⟩⟩ := exMEM_cases hop hunit hmem
    · rfl
    · rfl
  · exact (exALU_frame halu).2
  · rw [(exCU_frame _ _).2]
    split
    · rfl
    · rfl

omit [DecidableEq ι] [DecidableEq τ] in
/-- Reference: `execute_all` (`src/executor_s.c:22`). -/
theorem Threads.round_PTBR [DecidableEq τ] {xs : List τ} {s s' : Threads fun _ : τ => n}
    (h : s.round xs = .ok s') (x : τ) : (s'.thread x).PTBR = (s.thread x).PTBR := by
  refine Pass.foldlM_keeps (I := fun u => (u.thread x).PTBR = (s.thread x).PTBR) ?_ rfl h
  intro u y _ u' hu hturn
  obtain ⟨⟨ret, u₁⟩, hstep, hret⟩ := Outcome.bind_eq_ok.1 hturn
  cases hret
  obtain ⟨⟨r, t, m⟩, hex, hret⟩ := Outcome.bind_eq_ok.1 hstep
  cases hret
  by_cases hxy : x = y
  · subst hxy
    dsimp only
    rw [Function.update_self, executeCurrent_PTBR hex]
    exact hu
  · dsimp only
    rw [Function.update_of_ne hxy]
    exact hu

/-- While every core is on `null_process`, a run of the scheduler and the executor leaves the
hardware threads and the memory as its rounds of `execute_all` alone would: whatever is queued and
however the passes and rounds follow each other, the scheduler changes no thread. Reference:
`sched_execute` (`src/scheduler.c:24`), `sched_dispatcher` (`src/scheduler.c:42`), `executor_exec`
(`src/executor_s.c:18`). -/
theorem idle_kernel_only_executes {exec : ExecutorT} {s s' : Kernel ι k n}
    {steps : List (KernelStep ι k)} (h : s.sched.OnNull)
    (hrun : Lts.Steps (KernelStep.Step exec) s steps s') :
    s'.sched.OnNull ∧
      Iterate.iter (executorExec exec) (steps.map KernelStep.rounds).sum s.threads =
        .ok s'.threads := by
  induction hrun with
  | refl => exact ⟨h, rfl⟩
  | @tail ls t u step hrun hstep ih =>
    obtain ⟨hnull, hiter⟩ := ih
    rw [List.map_append, List.sum_append, Iterate.iter_add, hiter, Outcome.ok_bind]
    cases step with
    | sched step =>
      obtain ⟨sched, hsched, hstep⟩ := Outcome.bind_eq_ok.1 hstep
      cases hstep
      obtain ⟨hnull', hthreads⟩ := hnull.step hsched
      refine ⟨hnull', ?_⟩
      show Except.ok t.threads = .ok (⟨sched.threads, t.memory⟩ : Threads fun _ : Ptr => n)
      rw [hthreads]
      rfl
    | executor =>
      obtain ⟨r, hround, hstep⟩ := Outcome.bind_eq_ok.1 hstep
      cases hstep
      refine ⟨?_, (Iterate.iter_one _ _).trans hround⟩
      obtain ⟨p, hp, hlive, hPTBR⟩ := hnull.loaded
      rw [executorExec, executeAll_eq] at hround
      exact ⟨hnull.current, hnull.marked, p, hp, hlive,
        fun c => (Threads.round_PTBR hround _).trans (hPTBR c)⟩

/-- One core with one thread. -/
def oneCpu : List CpuS := [⟨[⟨[1]⟩]⟩]

/-- Its core is on `null_process`, whose first instruction is a store at address 8. -/
def storingNull : Kernel Unit 1 1 where
  sched := {
    currentPolicy := schedRr
    schedulerQueueIObject := rqSimpleFifoISchedImplement ⟨0, []⟩
    timerTickFreq := 5
    coreControlArray _ := ⟨1, some .nullProcess, 0, nullProcessRun⟩
    pcbs _ := some ⟨-1, 0, prExec, ⟨0, 0, 0⟩, ⟨0, 0, fun _ => 0, 0⟩⟩
    threads _ := ⟨0, 0, 0, fun _ => 7, 0, tlbFlush 1⟩ }
  memory := twoTables

/-- A process is queued and passes are made before and after the store. -/
theorem idle_kernel_only_executes_one : ∃ s',
    Lts.Steps (KernelStep.Step (executorInit oneCpu)) storingNull
      [.sched (.add ()), .sched .execute, .executor, .sched .execute] s' ∧
    Iterate.iter (executorExec (executorInit oneCpu)) 1 storingNull.threads = .ok s'.threads := by
  have hnull : storingNull.sched.OnNull :=
    ⟨fun _ => rfl, fun _ => rfl, _, rfl, by decide, fun _ => rfl⟩
  have hadd : Lts.Steps (KernelStep.Step (executorInit oneCpu)) storingNull
      [.sched (.add ())] _ := Lts.Steps.refl.tail rfl
  have hpass : Lts.Steps (KernelStep.Step (executorInit oneCpu)) storingNull
      [.sched (.add ()), .sched .execute] _ := hadd.tail rfl
  have hround : Lts.Steps (KernelStep.Step (executorInit oneCpu)) storingNull
      [.sched (.add ()), .sched .execute, .executor] _ := hpass.tail rfl
  have hrun : Lts.Steps (KernelStep.Step (executorInit oneCpu)) storingNull
      [.sched (.add ()), .sched .execute, .executor, .sched .execute] _ :=
    hround.tail rfl
  exact ⟨_, hrun, (idle_kernel_only_executes hnull hrun).2⟩

/-! ## The program of `null_process` -/

/-- A page table at address 0, with the `EXIT` of `null_process` as its first word. -/
structure NullTable (pages : Nat) (m : Memory) : Prop where
  table : PageTable m 0 pages
  pos : 0 < pages
  exit : pmReadWord m (physicalAddress m 0 (virtualAddress 0)) = 0xF0000000

/-- The thread is at the first word of that table. -/
structure Thread.Spinning (pages : Nat) (m : Memory) (t : Thread n) : Prop where
  PTBR : t.PTBR = 0
  PC : t.PC = 0
  tlb : TlbSound pages m 0 t.memManagUnit

variable {pages : Nat} {m : Memory} {X : List τ}

omit [DecidableEq ι] [DecidableEq τ] in
/-- The `EXIT` leads to itself and changes nothing in memory. Reference: `__ex_exit`
(`src/executor_s.c:223`). -/
theorem Thread.Spinning.executeCurrent {t : Thread n} (h : t.Spinning pages m)
    (hm : NullTable pages m) :
    ∃ t', SeKernel.executeCurrent t m = .ok (0, t', m) ∧ t'.Spinning pages m := by
  have hpos : 0 < 64 * pages := Nat.mul_pos (by decide) hm.pos
  obtain ⟨mmu, hres, htlb⟩ := h.tlb.resolves_word hm.table hpos
  have hfetch : mmuResolve t.memManagUnit m 0 0 =
      .ok (physicalAddress m 0 (virtualAddress 0), mmu) := hres
  obtain ⟨hPTBR, hPC, -⟩ := h
  refine ⟨⟨0, 0xF0000000, t.PTBR, t.R, t.cc, mmu⟩, ?_, hPTBR, rfl, htlb⟩
  unfold SeKernel.executeCurrent
  rw [hPTBR, hPC, hfetch, Outcome.ok_bind]
  dsimp only
  rw [hm.exit]
  rfl

/-- Reference: `execute_all` (`src/executor_s.c:22`). -/
theorem Threads.round_spinning {s : Threads fun _ : τ => n} (hm : NullTable pages s.memory)
    (h : ∀ x ∈ X, (s.thread x).Spinning pages s.memory) :
    ∃ s', s.round X = .ok s' ∧ s'.memory = s.memory ∧
      ∀ x ∈ X, (s'.thread x).Spinning pages s.memory := by
  let I (u : Threads fun _ : τ => n) : Prop :=
    u.memory = s.memory ∧ ∀ x ∈ X, (u.thread x).Spinning pages s.memory
  have hstart : I s := ⟨rfl, h⟩
  refine Pass.foldlM_total ?_ hstart
  rintro u y hy ⟨hu, hspin⟩
  obtain ⟨t, hex, ht⟩ := (hspin y hy).executeCurrent hm
  rw [← hu] at hex
  refine ⟨⟨Function.update u.thread y t, u.memory⟩, ?_, hu, fun x hx => ?_⟩
  · rw [Threads.turn, Threads.step, hex]
    rfl
  · dsimp only
    by_cases hxy : x = y
    · subst hxy
      rw [Function.update_self]
      exact ht
    · rw [Function.update_of_ne hxy]
      exact hspin x hx

/-! ## The scheduler on spinning threads -/

/-- Every core is idle, on a spinning thread, and `null_process` starts at the first word of the
table at address 0. -/
structure Sched.Inert (X : List τ) (pages : Nat) (m : Memory) (s : Sched ι τ k n) : Prop where
  idle : ∀ c, s.IdleMarked c
  threadS : ∀ c, (s.coreControlArray c).threadS ∈ X
  nullProcess : ∃ p, s.pcbs .nullProcess = some p ∧ p.memoryMap.pgb = 0 ∧ p.cpuSnapshot.PC = 0
  spinning : ∀ x ∈ X, (s.threads x).Spinning pages m

omit [DecidableEq ι] [DecidableEq τ] in
/-- A change of a record that leaves it idle and on its thread. -/
theorem Sched.Inert.modifyCore (h : s.Inert X pages m) {f : CoreControl ι τ → CoreControl ι τ}
    (hidle : (s.modifyCore c f).IdleMarked c)
    (hthreadS : (f (s.coreControlArray c)).threadS = (s.coreControlArray c).threadS) :
    (s.modifyCore c f).Inert X pages m := by
  refine ⟨fun d => ?_, fun d => ?_, h.nullProcess, h.spinning⟩
  · by_cases hd : d = c
    · exact hd ▸ hidle
    · exact (h.idle d).of_eq (s.modifyCore_of_ne c f hd)
  · by_cases hd : d = c
    · subst hd
      rw [Sched.modifyCore_self, hthreadS]
      exact h.threadS d
    · rw [s.modifyCore_of_ne c f hd]
      exact h.threadS d

/-- Reference: `sched_dispatcher` (`src/scheduler.c:42`). -/
theorem Sched.Inert.dispatcher (h : s.Inert X pages m) (c : Fin k) :
    ∃ s', schedDispatcher s c = .ok s' ∧ s'.Inert X pages m := by
  obtain ⟨p, hp, hpgb, hPC⟩ := h.nullProcess
  obtain ⟨s', hstep, hloaded⟩ := schedDispatcher_nullLoaded (h.idle c) hp
  obtain ⟨hPTBR, hthreadPC, htlb⟩ := h.spinning _ (h.threadS c)
  have hsaved : (s.savedNull c p).memoryMap.pgb = 0 ∧ (s.savedNull c p).cpuSnapshot.PC = 0 := by
    unfold Sched.savedNull
    rcases (h.idle c).1 with hnone | hnull
    · rw [hnone]
      exact ⟨hpgb, hPC⟩
    · rw [hnull]
      exact ⟨hpgb, hthreadPC⟩
  refine ⟨s', hstep, fun d => ?_, fun d => ?_, ⟨_, hloaded.nullProcess, hsaved⟩, fun x hx => ?_⟩
  · by_cases hd : d = c
    · subst hd
      rw [Sched.IdleMarked, Sched.Idle, hloaded.core]
      exact ⟨.inr rfl, rfl⟩
    · exact (h.idle d).of_eq (hloaded.cores d hd)
  · by_cases hd : d = c
    · subst hd
      rw [hloaded.core]
      exact h.threadS d
    · rw [hloaded.cores d hd]
      exact h.threadS d
  · rw [hloaded.threads]
    by_cases hxc : x = (s.coreControlArray c).threadS
    · subst hxc
      rw [Function.update_self]
      exact ⟨hsaved.1, hsaved.2, htlb⟩
    · rw [Function.update_of_ne hxc]
      exact h.spinning x hx

omit [DecidableEq ι] [DecidableEq τ] in
/-- Reference: `__sched_update_running_pcb` (`src/scheduler.c:78`). -/
theorem Sched.Inert.updateRunningPcb (h : s.Inert X pages m) (c : Fin k) :
    ∃ s', schedUpdateRunningPcb s c = .ok s' ∧ s'.Inert X pages m := by
  obtain ⟨p, hp, -⟩ := h.nullProcess
  obtain ⟨s', hstep⟩ : ∃ s', schedUpdateRunningPcb s c = .ok s' := by
    unfold schedUpdateRunningPcb
    rcases (h.idle c).1 with hnone | hnull
    · rw [hnone]
      exact ⟨s, rfl⟩
    · rw [hnull]
      dsimp only
      rw [PcbHeap.read_eq_ok.2 hp, Outcome.ok_bind]
      split
      · exact ⟨_, rfl⟩
      · exact ⟨_, rfl⟩
  refine ⟨s', hstep, ?_⟩
  have hidle := (h.idle c).updateRunningPcb hstep
  rcases schedUpdateRunningPcb_cases hstep with ⟨-, rfl⟩ | ⟨-, rfl⟩
  · exact h
  · exact h.modifyCore hidle rfl

/-- Reference: `sched_execute` (`src/scheduler.c:26`). -/
theorem Sched.Inert.executeCore (h : s.Inert X pages m) (c : Fin k) :
    ∃ s', schedExecuteCore s c = .ok s' ∧ s'.Inert X pages m := by
  obtain ⟨t, hupdate, ht⟩ := h.updateRunningPcb c
  obtain ⟨t', hdispatch, ht'⟩ := ht.dispatcher c
  rw [schedExecuteCore, hupdate, Outcome.ok_bind, schedExecuteUpdated]
  split
  · split
    · exact ⟨t', hdispatch, ht'⟩
    · refine ⟨_, rfl, ht.modifyCore ?_ rfl⟩
      rw [Sched.IdleMarked, Sched.Idle, Sched.modifyCore_self]
      exact ht.idle c
  · rw [if_pos (ht.idle c).2]
    exact ⟨t', hdispatch, ht'⟩

/-- Reference: `sched_execute` (`src/scheduler.c:24`). -/
theorem Sched.Inert.execute (h : s.Inert X pages m) :
    ∃ s', schedExecute s = .ok s' ∧ s'.Inert X pages m :=
  Pass.foldlM_total (fun _ c _ hs => hs.executeCore c) h

/-- No step of the scheduler moves a thread. -/
theorem Sched.Inert.step {step : SchedStep ι k} (h : s.Inert X pages m)
    (hstep : step.exec s = .ok s') : s'.Inert X pages m := by
  cases step with
  | add newPcb =>
    obtain ⟨q, -, hstep⟩ := Outcome.bind_eq_ok.1 hstep
    obtain ⟨iSched, -, hstep⟩ := Outcome.bind_eq_ok.1 hstep
    cases hstep
    obtain ⟨p, hp, hnull⟩ := h.nullProcess
    refine ⟨h.idle, h.threadS, ⟨p, ?_, hnull⟩, h.spinning⟩
    dsimp only
    rw [PcbHeap.write_pcb_nullProcess, hp]
  | dispatcher c =>
    obtain ⟨t, ht, hinert⟩ := h.dispatcher c
    cases ht.symm.trans hstep
    exact hinert
  | execute =>
    obtain ⟨t, ht, hinert⟩ := h.execute
    cases ht.symm.trans hstep
    exact hinert

/-! ## From `sched_init` on -/

variable {exec : ExecutorT}

/-- A round of the executor returns, and moves no thread. Reference: `executor_exec`
(`src/executor_s.c:18`). -/
theorem Sched.Inert.executor {s : Kernel ι k n}
    (h : s.sched.Inert (hardwareThreads exec.cpuArr) pages s.memory)
    (hm : NullTable pages s.memory) : ∃ s', KernelStep.exec exec .executor s = .ok s' ∧
      s'.memory = s.memory ∧ s'.sched.Inert (hardwareThreads exec.cpuArr) pages s.memory := by
  obtain ⟨t, hround, hmemory, hspin⟩ := Threads.round_spinning hm (s := s.threads) h.spinning
  refine ⟨⟨{ s.sched with threads := t.thread }, t.memory⟩, ?_, hmemory, h.idle, h.threadS,
    h.nullProcess, hspin⟩
  rw [KernelStep.exec, executorExec, executeAll_eq, hround]
  rfl

/-- Every run leaves the memory as it is. -/
theorem Kernel.inert_run {s s' : Kernel ι k n} {steps : List (KernelStep ι k)}
    (h : s.sched.Inert (hardwareThreads exec.cpuArr) pages s.memory)
    (hm : NullTable pages s.memory)
    (hrun : Lts.Steps (KernelStep.Step exec) s steps s') :
    s'.memory = s.memory ∧ s'.sched.Inert (hardwareThreads exec.cpuArr) pages s.memory := by
  refine hrun.invariant (I := fun u => u.memory = s.memory ∧
    u.sched.Inert (hardwareThreads exec.cpuArr) pages s.memory) ?_ ⟨rfl, h⟩
  rintro t step u ⟨hmemory, hinert⟩ hstep
  cases step with
  | sched step =>
    obtain ⟨sched, hsched, hstep⟩ := Outcome.bind_eq_ok.1 hstep
    cases hstep
    exact ⟨hmemory, hinert.step hsched⟩
  | executor =>
    rw [← hmemory] at hinert hm
    obtain ⟨u', hu', hmemory', hinert'⟩ := hinert.executor hm
    cases hu'.symm.trans hstep
    rw [← hmemory]
    exact ⟨hmemory', hinert'⟩

/-- `sched_init` with the memory that `load_null_pcb` writes. Reference: `sched_init`
(`src/scheduler.c:141`). -/
def kernelInit [NeZero k] (mmuMalloc : MmuMalloc)
    (configure : Int → Outcome (SISched (PcbPtr ι))) (sched : Sched ι Ptr k n)
    (ps : PhysicalMemory) (timerTickFreq : Int) (firstThread : Ptr) (policy : Int) :
    Outcome (Kernel ι k n) := do
  let nullProcess ← sched.pcbs.read .nullProcess
  let (mmu, nullProcess, ps) ← loadNullPcb mmuMalloc ps (sched.threads firstThread).memManagUnit
    (pcbInit nullProcess (-1) 0)
  let sched ← schedInit (fun _ _ => .ok (mmu, nullProcess)) configure sched timerTickFreq
    firstThread policy
  return ⟨sched, ps.memory⟩

omit [DecidableEq ι] [DecidableEq τ] in
/-- Whatever page table `mmu_malloc` answers, the `EXIT` goes to the first word of the table at
address 0, and `null_process` is left with that table. Reference: `load_null_pcb`
(`src/loader_s.c:131`). -/
theorem loadNullPcb_nullTable {mmuMalloc : MmuMalloc} {ps ps₁ : PhysicalMemory} {r : Int}
    {pgb : Word} {mmu : Mmu n} (pcb : Pcb) (hmalloc : mmuMalloc ps 1 = .ok (r, pgb, ps₁))
    (htable : PageTable ps₁.memory 0 pages) (hpos : 0 < pages)
    (hinactive : ∀ i, (mmu.tlbHashArr i).active = false) :
    ∃ q ps', loadNullPcb mmuMalloc ps mmu pcb = .ok (tlbFlush n, q, ps') ∧ q.memoryMap.pgb = 0 ∧
      q.cpuSnapshot.PC = 0 ∧ NullTable pages ps'.memory := by
  have hword : 0 < 64 * pages := Nat.mul_pos (by decide) hpos
  have hsound : TlbSound pages ps₁.memory 0 mmu := tlbCache_sound_of_inactive hinactive _ _ _
  obtain ⟨mmu', hres, -⟩ := hsound.resolves_word htable hword
  have hpage := htable.pageNumber_virtualAddress ⟨0, hword⟩
  have hwritten := PageTable.agree_pmWriteWord (m := ps₁.memory) hpage 0xF0000000
  have hwords := htable.view_words_pmWriteWord hword pcb.cpuSnapshot 0xF0000000
  -- `cpu_snapshot_init` clears the page table base
  have hcleared := cpuSnapshotInit_statusOffset
    { pcb with memoryMap := ⟨0, 0, pgb⟩, currentPriority := 0, pid := -1 } 0
  refine ⟨_, ⟨_, ps₁.freeBlocks⟩, ?_, congrArg (·.memoryMap.pgb) hcleared,
    congrArg (·.cpuSnapshot.PC) hcleared, htable.congr (htable.agree_table hwritten), hpos, ?_⟩
  · have hfetch : mmuResolve mmu ps₁.memory 0 0 =
        .ok (physicalAddress ps₁.memory 0 (virtualAddress 0), mmu') := hres
    rw [loadNullPcb, hmalloc, Outcome.ok_bind]
    dsimp only
    rw [congrArg (·.memoryMap.pgb) hcleared]
    dsimp only
    rw [hfetch]
    rfl
  · have hfirst := congrFun hwords ⟨0, hword⟩
    rw [Function.update_self] at hfirst
    exact hfirst

omit [DecidableEq ι] [DecidableEq τ] in
/-- What `thread_t_init` leaves is at the first word of the table at address 0. -/
theorem Thread.Fresh.spinning {t : Thread n} (h : t.Fresh) : t.Spinning pages m :=
  ⟨h.PTBR, congrArg CpuSnapshot.PC h.context, tlbCache_sound_of_inactive h.inactive _ _ _⟩

/-- Reference: `sched_init` (`src/scheduler.c:141`). -/
theorem schedInit_inert [NeZero k] {configure : Int → Outcome (SISched (PcbPtr ι))}
    {timerTickFreq policy : Int} {firstThread : τ}
    (hspinning : ∀ x ∈ X, (s.threads x).Spinning pages m) (hfirst : firstThread ∈ X)
    (hrecords : ∀ c, c ≠ 0 → s.IdleMarked c ∧ (s.coreControlArray c).threadS ∈ X)
    (hpgb : p.memoryMap.pgb = 0) (hPC : p.cpuSnapshot.PC = 0)
    (h : schedInit (fun _ _ => .ok (tlbFlush n, p)) configure s timerTickFreq firstThread policy =
      .ok s') : s'.Inert X pages m := by
  have hmarked := schedInit_idleMarked h
  obtain ⟨q, -, h⟩ := Outcome.bind_eq_ok.1 h
  obtain ⟨r, hr, h⟩ := Outcome.bind_eq_ok.1 h
  cases hr
  obtain ⟨iSched, -, h⟩ := Outcome.bind_eq_ok.1 h
  cases h
  refine ⟨fun c => ?_, fun c => ?_, ⟨p, ?_, hpgb, hPC⟩, fun x hx => ?_⟩
  · by_cases hc : c = 0
    · exact hc ▸ hmarked
    · exact (hrecords c hc).1.of_eq (Function.update_of_ne hc _ _)
  · dsimp only
    by_cases hc : c = 0
    · subst hc
      rw [Function.update_self]
      exact hfirst
    · rw [Function.update_of_ne hc]
      exact (hrecords c hc).2
  · exact Function.update_self PcbPtr.nullProcess (some p) s.pcbs
  · dsimp only
    by_cases hxf : x = firstThread
    · subst hxf
      rw [Function.update_self]
      obtain ⟨hPTBR, hthreadPC, -⟩ := hspinning x hx
      exact ⟨hPTBR, hthreadPC, tlbCache_sound_of_inactive (fun _ => rfl) _ _ _⟩
    · rw [Function.update_of_ne hxf]
      exact hspinning x hx

/-- From `sched_init` on, with hardware threads as `thread_t_init` leaves them and idle records, no
run of the scheduler and the executor changes the memory or moves a hardware thread from address 0,
whatever is queued and however the steps follow each other; every pass and every round returns.
Reference: `sched_init` (`src/scheduler.c:141`), `load_null_pcb` (`src/loader_s.c:131`),
`sched_execute` (`src/scheduler.c:24`), `executor_exec` (`src/executor_s.c:18`). -/
theorem idle_kernel_inert [NeZero k] {mmuMalloc : MmuMalloc}
    {configure : Int → Outcome (SISched (PcbPtr ι))} {sched : Sched ι Ptr k n}
    {ps ps₁ : PhysicalMemory} {timerTickFreq policy r : Int} {pgb : Word} {firstThread : Ptr}
    (hfresh : ∀ x ∈ hardwareThreads exec.cpuArr, (sched.threads x).Fresh)
    (hfirst : firstThread ∈ hardwareThreads exec.cpuArr)
    (hrecords : ∀ c, c ≠ 0 → sched.IdleMarked c ∧
      (sched.coreControlArray c).threadS ∈ hardwareThreads exec.cpuArr)
    (hmalloc : mmuMalloc ps 1 = .ok (r, pgb, ps₁)) (htable : PageTable ps₁.memory 0 pages)
    (hpos : 0 < pages) {s₀ s : Kernel ι k n} {steps : List (KernelStep ι k)}
    (hinit : kernelInit mmuMalloc configure sched ps timerTickFreq firstThread policy = .ok s₀)
    (hrun : Lts.Steps (KernelStep.Step exec) s₀ steps s) :
    s.memory = s₀.memory ∧
      (∀ x ∈ hardwareThreads exec.cpuArr, (s.sched.threads x).PTBR = 0 ∧
        (s.sched.threads x).PC = 0) ∧
      (∀ c, s.sched.Idle c) ∧ (∃ t, KernelStep.exec exec .executor s = .ok t) ∧
      ∃ t, KernelStep.exec exec (.sched .execute) s = .ok t := by
  obtain ⟨p, -, hinit⟩ := Outcome.bind_eq_ok.1 hinit
  obtain ⟨q, ps', hload, hpgb, hPC, hnull⟩ := loadNullPcb_nullTable (pcbInit p (-1) 0) hmalloc
    htable hpos (hfresh firstThread hfirst).inactive
  rw [hload, Outcome.ok_bind] at hinit
  obtain ⟨sched₁, hsched, hinit⟩ := Outcome.bind_eq_ok.1 hinit
  cases hinit
  have hinert : sched₁.Inert (hardwareThreads exec.cpuArr) pages ps'.memory :=
    schedInit_inert (fun x hx => (hfresh x hx).spinning) hfirst hrecords hpgb hPC hsched
  obtain ⟨hmemory, hend⟩ := Kernel.inert_run (s := ⟨sched₁, ps'.memory⟩) hinert hnull hrun
  refine ⟨hmemory, fun x hx => ?_, fun c => (hend.idle c).1, ?_, ?_⟩
  · exact ⟨(hend.spinning x hx).PTBR, (hend.spinning x hx).PC⟩
  · have hnull' : NullTable pages s.memory := hmemory.symm ▸ hnull
    obtain ⟨t, ht, -⟩ := Sched.Inert.executor (hmemory.symm ▸ hend) hnull'
    exact ⟨t, ht⟩
  · obtain ⟨t, ht, -⟩ := hend.execute
    refine ⟨⟨t, s.memory⟩, ?_⟩
    rw [KernelStep.exec, SchedStep.exec, ht]
    rfl

/-- A scheduler for that CPU before `sched_init`. -/
def oneCpuSched : Sched Unit Ptr 1 1 where
  currentPolicy := schedRr
  schedulerQueueIObject := rqSimpleFifoISchedImplement ⟨0, []⟩
  timerTickFreq := 5
  coreControlArray _ := ⟨7, some (.pcb ()), 7, processRun⟩
  pcbs _ := some zeroPcb
  threads _ := ⟨0, 0, 0, fun _ => 0, 0, tlbFlush 1⟩

/-- The first pass after `sched_init`. -/
theorem idle_kernel_inert_one : ∃ (s₀ s : Kernel Unit 1 1),
    kernelInit (mallocTwoTables false) (fun _ => .ok (rqSimpleFifoISchedImplement ⟨0, []⟩))
      oneCpuSched ⟨fun _ => 0, []⟩ 5 1 schedFifo = .ok s₀ ∧
    KernelStep.exec (executorInit oneCpu) (.sched .execute) s₀ = .ok s ∧ s.memory = s₀.memory ∧
    ∃ t, KernelStep.exec (executorInit oneCpu) .executor s = .ok t := by
  have hfresh : ∀ x ∈ hardwareThreads (executorInit oneCpu).cpuArr,
      (oneCpuSched.threads x).Fresh := fun _ _ => ⟨rfl, rfl, fun _ => rfl⟩
  have hfirst : (1 : Ptr) ∈ hardwareThreads (executorInit oneCpu).cpuArr := by decide
  have hrecords : ∀ c : Fin 1, c ≠ 0 → oneCpuSched.IdleMarked c ∧
      (oneCpuSched.coreControlArray c).threadS ∈ hardwareThreads (executorInit oneCpu).cpuArr :=
    fun c hc => absurd (Subsingleton.elim c 0) hc
  have hmalloc : mallocTwoTables false ⟨fun _ => 0, []⟩ 1 = .ok (0, 0, ⟨twoTables, []⟩) := rfl
  obtain ⟨q, ps', hload, -⟩ := loadNullPcb_nullTable (pcbInit zeroPcb (-1) 0) hmalloc
    (twoTables_pageTable false) Nat.one_pos (hfresh 1 hfirst).inactive
  obtain ⟨s₀, hinit⟩ : ∃ s₀ : Kernel Unit 1 1, kernelInit (mallocTwoTables false)
      (fun _ => .ok (rqSimpleFifoISchedImplement ⟨0, []⟩)) oneCpuSched ⟨fun _ => 0, []⟩ 5 1
      schedFifo = .ok s₀ := by
    have hread : oneCpuSched.pcbs.read .nullProcess = .ok zeroPcb := rfl
    rw [kernelInit, hread, Outcome.ok_bind, hload]
    exact ⟨_, rfl⟩
  obtain ⟨-, -, -, -, s, hs⟩ := idle_kernel_inert hfresh hfirst hrecords hmalloc
    (twoTables_pageTable false) Nat.one_pos hinit .refl
  obtain ⟨hmemory, -, -, hround, -⟩ := idle_kernel_inert hfresh hfirst hrecords hmalloc
    (twoTables_pageTable false) Nat.one_pos hinit (Lts.Steps.refl.tail hs)
  exact ⟨s₀, s, hinit, hs, hmemory, hround⟩

end SeKernel
