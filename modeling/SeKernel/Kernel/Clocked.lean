import SeKernel.Clock.Actions
import SeKernel.Kernel.Idle

/-!
# The kernel under its clock

The scheduler, the loader and the executor as the actions of three timers, over one memory, in any
interleaving. While every core is on `null_process`, whose page table is at address 0, the kernel is
one computer whose processors, the hardware threads, share the words of that table: a round of the
executor is a step of each processor, a load lays the words of a file over the memory, and a pass of
the scheduler is nothing (`clocked_kernel_is_sharedMachine`). So the programs that are loaded are
run by all hardware threads, and no process is.
-/

namespace SeKernel

variable {π ι : Type} {k m n : Nat}

/-! ## The timers -/

/-- The timers of `main` that act on the kernel; the fourth one prints. Reference: `main`
(`src/main.c:71`). -/
inductive KernelTimer
  | scheduler
  | loader
  | executor
  deriving DecidableEq

instance : Fintype KernelTimer :=
  ⟨{.scheduler, .loader, .executor}, fun timer => by cases timer <;> decide⟩

/-- The hardware threads and the memory. -/
def LoadState.hardware (s : LoadState π ι Ptr m k n) : Threads fun _ : Ptr => n :=
  ⟨s.sched.threads, s.ps.memory⟩

/-- The kernel with other hardware threads and another memory. -/
def LoadState.withHardware (s : LoadState π ι Ptr m k n) (t : Threads fun _ : Ptr => n) :
    LoadState π ι Ptr m k n :=
  { s with ps := { s.ps with memory := t.memory }, sched := { s.sched with threads := t.thread } }

/-- The `TickAction` of a timer returns. Reference: `main` (`src/main.c:71`). -/
def KernelTimer.Act [DecidableEq ι] [NeZero m] [NeZero n] (exec : ExecutorT) (mmuMalloc : MmuMalloc)
    (files : π → Option ProgramFile) (s : LoadState π ι Ptr m k n) (timer : KernelTimer)
    (s' : LoadState π ι Ptr m k n) : Prop :=
  match timer with
  | .scheduler => ∃ sched, schedExecute s.sched = .ok sched ∧ s' = { s with sched }
  | .loader => ∃ (call : LoadCall ι) (ret : Int), call.exec mmuMalloc files s = .ok (ret, s')
  | .executor => ∃ t, executorExec exec s.hardware = .ok t ∧ s' = s.withHardware t

/-! ## A computer with shared words -/

/-- Processors that share a memory of words, and the files that are still to be laid over it. -/
structure SharedMachine (pages : Nat) (π : Type) where
  cpu : Ptr → CpuSnapshot
  words : Fin (64 * pages) → Word
  paths : List π

variable {pages : Nat}

/-- One processor with the memory. -/
def SharedMachine.machine (v : SharedMachine pages π) (x : Ptr) : VirtualMachine pages :=
  ⟨v.cpu x, v.words⟩

/-- What happens to such a computer: a processor takes a step, or a file is loaded. -/
inductive SharedEvent
  | step (x : Ptr)
  | load

def SharedEvent.exec (files : π → Option ProgramFile) (v : SharedMachine pages π) :
    SharedEvent → Outcome (SharedMachine pages π)
  | .step x => do
    let v' ← (v.machine x).step
    return { v with cpu := Function.update v.cpu x v'.cpu, words := v'.words }
  | .load =>
    match Seq.linkedlistPop v.paths with
    | (none, _) => return v
    | (some path, paths) =>
      return { v with words := overlay (fileWords (files path)) v.words, paths }

/-- What the action of a timer is to the computer. -/
def KernelTimer.events (exec : ExecutorT) : KernelTimer → List SharedEvent
  | .scheduler => []
  | .loader => [.load]
  | .executor => (hardwareThreads exec.cpuArr).map .step

/-- The computer that the table at address 0 shows. -/
def LoadState.shared (pages : Nat) (s : LoadState π ι Ptr m k n) : SharedMachine pages π where
  cpu x := (s.sched.threads x).context
  words i := pmReadWord s.ps.memory (physicalAddress s.ps.memory 0 (virtualAddress i))
  paths := s.loader.unloadedElfList

/-- No step of a processor looks at the page right after the last one. -/
def SharedMachine.SparesBoundary (files : π → Option ProgramFile)
    (v₀ : SharedMachine pages π) (events : List SharedEvent) : Prop :=
  ∀ pre x post v, events = pre ++ .step x :: post →
    pre.foldlM (SharedEvent.exec files) v₀ = .ok v → (v.machine x).SparesBoundary

variable {files : π → Option ProgramFile} {v v' : SharedMachine pages π}
  {es es' : List SharedEvent} {x : Ptr}

theorem SharedMachine.SparesBoundary.head (h : v.SparesBoundary files (.step x :: es)) :
    (v.machine x).SparesBoundary := h [] x es v rfl rfl

theorem SharedMachine.SparesBoundary.left (h : v.SparesBoundary files (es ++ es')) :
    v.SparesBoundary files es := by
  intro pre x post w hes hpre
  refine h pre x (post ++ es') w ?_ hpre
  rw [hes, List.append_assoc, List.cons_append]

theorem SharedMachine.SparesBoundary.right (h : v.SparesBoundary files (es ++ es'))
    (hes : es.foldlM (SharedEvent.exec files) v = .ok v') : v'.SparesBoundary files es' := by
  intro pre x post w hes' hpre
  refine h (es ++ pre) x post w ?_ ?_
  · rw [hes', List.append_assoc]
  · rw [List.foldlM_append, hes]
    exact hpre

/-! ## The kernel on `null_process` -/

variable [NeZero m] [NeZero n]

/-- Every core is on `null_process`, the hardware threads of `X` and the loader are on the page
table at address 0, which is that of `memory`, and the files fit in it. -/
structure LoadState.Serves (X : List Ptr) (pages : Nat) (memory : Memory)
    (files : π → Option ProgramFile) (s : LoadState π ι Ptr m k n) : Prop where
  onNull : s.sched.OnNull
  running : ∀ x ∈ X, Running pages 0 (s.sched.threads x) s.ps.memory
  table : PageTable s.ps.memory 0 pages
  tlb : TlbSound pages s.ps.memory 0 s.loader.mmu
  agree : AgreeOn (tableFrames memory 0) memory s.ps.memory
  fits : ∀ path ∈ s.loader.unloadedElfList, ∀ file, files path = some file →
    file.lines.length ≤ 64 * pages + 2

/-- `mmu_malloc` leaves the page table at address 0 and its frames alone. -/
def KeepsTable (mmuMalloc : MmuMalloc) (memory : Memory) : Prop :=
  ∀ ps words r p ps', mmuMalloc ps words = .ok (r, p, ps') →
    AgreeOn (listedFrames memory 0 ∪ tableFrames memory 0) ps.memory ps'.memory

variable {X ys : List Ptr} {memory : Memory} {s s' : LoadState π ι Ptr m k n}
  {t : Threads fun _ : Ptr => n}

/-- A thread on a table runs on when the table's words stay. -/
theorem Running.congr {ptbr : Word} {memory' : Memory} {t : Thread n}
    (h : Running pages ptbr t memory) (hagree : AgreeOn (tableFrames memory ptbr) memory memory') :
    Running pages ptbr t memory' :=
  ⟨h.PTBR, h.table.congr hagree, h.tlb.congr h.table hagree⟩

/-- A turn of a hardware thread is a step of its processor. -/
theorem LoadState.Serves.turn (h : s.Serves X pages memory files) (hx : x ∈ X)
    (hspares : ((s.shared pages).machine x).SparesBoundary)
    (hturn : s.hardware.turn x = .ok t) :
    SharedEvent.exec files (s.shared pages) (.step x) = .ok ((s.withHardware t).shared pages) ∧
      (s.withHardware t).Serves X pages memory files := by
  rw [Threads.turn_eq] at hturn
  have hrel := (h.running x hx).step hspares
  cases hstep : threadStep (s.hardware.thread x, s.hardware.memory) with
  | error e =>
    rw [hstep] at hturn
    cases hturn
  | ok r =>
    obtain ⟨t', memory'⟩ := r
    rw [hstep] at hturn
    cases hturn
    obtain ⟨v, hv, hrun, hwritten, hview⟩ := (hstep ▸ hrel).of_ok_left
    have hagree := h.table.agree_table hwritten
    have hPTBR : ∀ y, (Function.update s.sched.threads x t' y).PTBR = (s.sched.threads y).PTBR := by
      intro y
      by_cases hyx : y = x
      · subst hyx
        rw [Function.update_self, hrun.PTBR, (h.running y hx).PTBR]
      · rw [Function.update_of_ne hyx]
    obtain ⟨p, hp, hlive, hpgb⟩ := h.onNull.loaded
    constructor
    · have hcpu : v.cpu = t'.context := congrArg VirtualMachine.cpu hview.symm
      have hwords : v.words = ((s.withHardware ⟨Function.update s.sched.threads x t',
          memory'⟩).shared pages).words := congrArg VirtualMachine.words hview.symm
      have hcpus : Function.update (s.shared pages).cpu x t'.context =
          fun y => (Function.update s.sched.threads x t' y).context := by
        funext y
        by_cases hyx : y = x
        · subst hyx
          rw [Function.update_self, Function.update_self]
        · rw [Function.update_of_ne hyx, Function.update_of_ne hyx]
          rfl
      have hmachine : ((s.shared pages).machine x).step = .ok v := hv
      rw [SharedEvent.exec, hmachine, Outcome.ok_bind, hcpu, hwords, hcpus]
      rfl
    · refine ⟨⟨h.onNull.current, h.onNull.marked, p, hp, hlive, fun c => ?_⟩, fun y hy => ?_,
        h.table.congr hagree, h.tlb.congr h.table hagree, ?_, h.fits⟩
      · exact (hPTBR _).trans (hpgb c)
      · show Running pages 0 (Function.update s.sched.threads x t' y) memory'
        by_cases hyx : y = x
        · subst hyx
          rw [Function.update_self]
          exact hrun
        · rw [Function.update_of_ne hyx]
          exact (h.running y hy).congr hagree
      · refine h.agree.trans ?_
        rw [← tableFrames_congr h.agree]
        exact hagree

/-- A round of the executor is a step of every processor. Reference: `execute_all`
(`src/executor_s.c:22`). -/
theorem LoadState.Serves.round (h : s.Serves X pages memory files) (hys : ∀ y ∈ ys, y ∈ X)
    (hspares : (s.shared pages).SparesBoundary files (ys.map .step))
    (hround : s.hardware.round ys = .ok t) :
    (ys.map .step).foldlM (SharedEvent.exec files) (s.shared pages) =
        .ok ((s.withHardware t).shared pages) ∧
      (s.withHardware t).Serves X pages memory files := by
  induction ys generalizing s with
  | nil =>
    cases hround
    exact ⟨rfl, h⟩
  | cons y ys ih =>
    obtain ⟨hy, hys⟩ := List.forall_mem_cons.1 hys
    rw [Threads.round, List.foldlM_cons] at hround
    obtain ⟨t₁, hturn, hround⟩ := Outcome.bind_eq_ok.1 hround
    rw [List.map_cons] at hspares ⊢
    obtain ⟨hstep, h₁⟩ := h.turn hy hspares.head hturn
    have hfirst : [SharedEvent.step y].foldlM (SharedEvent.exec files) (s.shared pages) =
        .ok ((s.withHardware t₁).shared pages) := by
      rw [List.foldlM_cons, hstep]
      rfl
    rw [List.foldlM_cons, hstep, Outcome.ok_bind]
    have hrest : ((s.withHardware t₁).shared pages).SparesBoundary files (ys.map .step) :=
      (show (s.shared pages).SparesBoundary files ([.step y] ++ ys.map .step) from hspares).right
        hfirst
    exact ih (s := s.withHardware t₁) h₁ hys hrest hround

variable [DecidableEq ι] {mmuMalloc : MmuMalloc}

/-- A pass of the scheduler is nothing. Reference: `sched_execute` (`src/scheduler.c:24`). -/
theorem LoadState.Serves.scheduler (h : s.Serves X pages memory files) {sched : Sched ι Ptr k n}
    (hpass : schedExecute s.sched = .ok sched) :
    ({ s with sched } : LoadState π ι Ptr m k n).shared pages = s.shared pages ∧
      ({ s with sched } : LoadState π ι Ptr m k n).Serves X pages memory files := by
  obtain ⟨hnull, hthreads⟩ :=
    h.onNull.step (show SchedStep.exec .execute s.sched = .ok sched from hpass)
  refine ⟨?_, hnull, fun x hx => ?_, h.table, h.tlb, h.agree, h.fits⟩
  · unfold LoadState.shared
    rw [hthreads]
  · show Running pages 0 (sched.threads x) s.ps.memory
    rw [hthreads]
    exact h.running x hx

/-- A call of the loader lays the next file over the memory. Reference: `loader_load_next_process`
(`src/loader_s.c:58`). -/
theorem LoadState.Serves.loader (h : s.Serves X pages memory files)
    (hkeeps : KeepsTable mmuMalloc memory) {call : LoadCall ι} {ret : Int}
    (hcall : call.exec mmuMalloc files s = .ok (ret, s')) :
    SharedEvent.exec files (s.shared pages) .load = .ok (s'.shared pages) ∧
      s'.Serves X pages memory files := by
  rcases LoadCall.exec_cases hcall with ⟨-, hnil, rfl⟩ | ⟨-, path, pcb, hload⟩
  · refine ⟨?_, h⟩
    unfold SharedEvent.exec LoadState.shared
    rw [hnil]
    rfl
  · obtain ⟨r, hfile⟩ := hload.file
    have hkept : ∀ words r p ps₁, mmuMalloc s.ps words = .ok (r, p, ps₁) →
        AgreeOn (listedFrames s.ps.memory 0 ∪ tableFrames s.ps.memory 0) s.ps.memory
          ps₁.memory := by
      rw [listedFrames_congr h.agree, tableFrames_congr h.agree]
      exact fun words r p ps₁ hmalloc => hkeeps s.ps words r p ps₁ hmalloc
    have hmem : path ∈ s.loader.unloadedElfList := by simp [hload.paths]
    obtain ⟨hagree, htlb, hwords, -⟩ :=
      loadFile_overlays hfile h.table h.tlb hkept (h.fits path hmem)
    obtain ⟨p, hp, hlive, hpgb⟩ := h.onNull.loaded
    refine ⟨?_, ⟨fun c => ?_, fun c => ?_, p, ?_, hlive, fun c => ?_⟩, fun x hx => ?_,
      h.table.congr hagree, htlb, ?_, fun path' hpath' => ?_⟩
    · have hshown : (s'.shared pages).words =
          overlay (fileWords (files path)) (s.shared pages).words :=
        congrArg VirtualMachine.words (hwords ⟨0, 0, fun _ => 0, 0⟩)
      unfold SharedEvent.exec Seq.linkedlistPop
      have hpaths : (s.shared pages).paths = s'.loader.unloadedElfList ++ [path] := hload.paths
      rw [hpaths, List.getLast?_concat, List.dropLast_concat]
      dsimp only
      rw [← hshown]
      unfold LoadState.shared
      rw [hload.threads]
      rfl
    · rw [hload.cores]
      exact h.onNull.current c
    · rw [hload.cores]
      exact h.onNull.marked c
    · rw [hload.pcbs, PcbHeap.write_pcb_nullProcess]
      exact hp
    · rw [hload.cores, hload.threads]
      exact hpgb c
    · rw [hload.threads]
      exact (h.running x hx).congr hagree
    · refine h.agree.trans ?_
      rw [← tableFrames_congr h.agree]
      exact hagree
    · exact h.fits path' (by simp [hload.paths, hpath'])

variable {exec : ExecutorT}

/-- The action of a timer. -/
theorem LoadState.Serves.act (h : s.Serves (hardwareThreads exec.cpuArr) pages memory files)
    (hkeeps : KeepsTable mmuMalloc memory) {timer : KernelTimer}
    (hspares : (s.shared pages).SparesBoundary files (timer.events exec))
    (hact : timer.Act exec mmuMalloc files s s') :
    (timer.events exec).foldlM (SharedEvent.exec files) (s.shared pages) =
        .ok (s'.shared pages) ∧
      s'.Serves (hardwareThreads exec.cpuArr) pages memory files := by
  cases timer with
  | scheduler =>
    obtain ⟨sched, hpass, rfl⟩ := hact
    obtain ⟨hsame, h'⟩ := h.scheduler hpass
    rw [hsame]
    exact ⟨rfl, h'⟩
  | loader =>
    obtain ⟨call, ret, hcall⟩ := hact
    obtain ⟨hload, h'⟩ := h.loader hkeeps hcall
    refine ⟨?_, h'⟩
    rw [KernelTimer.events, List.foldlM_cons, hload]
    rfl
  | executor =>
    obtain ⟨t, hround, rfl⟩ := hact
    rw [executorExec, executeAll_eq] at hround
    exact h.round (fun _ hx => hx) hspares hround

/-- Any number of actions. -/
theorem LoadState.Serves.run (h : s.Serves (hardwareThreads exec.cpuArr) pages memory files)
    (hkeeps : KeepsTable mmuMalloc memory) {timers : List KernelTimer}
    (hspares : (s.shared pages).SparesBoundary files (timers.flatMap (KernelTimer.events exec)))
    (hrun : Lts.Steps (fun s timer s' => KernelTimer.Act exec mmuMalloc files s timer s') s timers
      s') :
    (timers.flatMap (KernelTimer.events exec)).foldlM (SharedEvent.exec files) (s.shared pages) =
        .ok (s'.shared pages) ∧
      s'.Serves (hardwareThreads exec.cpuArr) pages memory files := by
  induction hrun with
  | refl => exact ⟨rfl, h⟩
  | @tail timers t u timer _ hlast ih =>
    rw [List.flatMap_append, List.flatMap_singleton] at hspares ⊢
    obtain ⟨hfold, ht⟩ := ih hspares.left
    obtain ⟨hevents, hu⟩ := ht.act hkeeps (hspares.right hfold) hlast
    rw [List.foldlM_append, hfold]
    exact ⟨hevents, hu⟩

/-- One core on `null_process`, whose first instruction is a store at address 8, and one file. -/
def storingKernel : LoadState Unit Unit Ptr 10 1 1 where
  loader := ⟨[()], 1, 20, tlbFlush 10⟩
  ps := ⟨twoTables, []⟩
  sched := { storingNull.sched with
    pcbs := fun
      | .nullProcess => some ⟨-1, 0, prExec, ⟨0, 0, 0⟩, ⟨0, 0, fun _ => 0, 0⟩⟩
      | .pcb _ => none }

/-- The three timers register. -/
def threeTimers : List (ClkLabel KernelTimer) :=
  [.timerStart .loader, .timerRegister .loader, .timerStart .executor, .timerRegister .executor,
    .timerStart .scheduler, .timerRegister .scheduler]

theorem exit_overlaid : overlay (lineWords [exitLine]) (storingKernel.shared 1).words 0 =
    0xF0000000 := by
  rw [exitLine_words]
  rfl

theorem storingKernel_sparesBoundary :
    (storingKernel.shared 1).SparesBoundary (fun _ : Unit => some exitFile) [.load, .step 1] := by
  intro pre x post v hes hpre
  match pre, hes with
  | [], hes => cases hes
  | [_], hes =>
    cases hes
    cases hpre
    rw [VirtualMachine.SparesBoundary, VirtualMachine.addresses_exit rfl exit_overlaid]
    simp [offBoundary]
  | _ :: _ :: pre, hes =>
    have hlen := congrArg List.length hes
    simp only [List.length_append, List.length_cons, List.length_nil] at hlen
    omega

/-- The `EXIT` is loaded, and its thread runs it. -/
theorem storingKernel_loads : ∃ s₁ s₂ s₃ : LoadState Unit Unit Ptr 10 1 1,
    KernelTimer.Act (executorInit oneCpu) mallocThere (fun _ => some exitFile) storingKernel .loader
      s₁ ∧
    KernelTimer.Act (executorInit oneCpu) mallocThere (fun _ => some exitFile) s₁ .executor s₂ ∧
    KernelTimer.Act (executorInit oneCpu) mallocThere (fun _ => some exitFile) s₂ .scheduler s₃ ∧
    (s₃.shared 1).words 0 = 0xF0000000 := by
  have htable : PageTable storingKernel.ps.memory 0 1 := twoTables_pageTable false
  have hmalloc : mallocThere storingKernel.ps (BitVec.ofNat 32 [exitLine].length) =
    .ok (0, 0x100, storingKernel.ps) := rfl
  obtain ⟨mmu', memory', hload, -, -, hagree, hwords⟩ := loadFile_shows (pcbInit zeroPcb 1 5)
    (show exitFile.lines = _ from rfl) exitText_read exitData_read (by decide) hmalloc htable
    (tlbSound_tlbFlush 10 _ _ _) (by decide)
  have hexit : pmReadWord memory' (physicalAddress memory' 0 (virtualAddress 0)) = 0xF0000000 :=
    (congrArg (VirtualMachine.words · 0) (hwords ⟨0, 0, fun _ => 0, 0⟩)).trans exit_overlaid
  let call : LoadCall Unit := ⟨(), zeroPcb, 25⟩
  have hpaths : storingKernel.loader.unloadedElfList = [] ++ [()] := rfl
  have hcall : LoadCall.Step mallocThere (fun _ => some exitFile) storingKernel (call, 0) _ :=
    LoadCall.step_of_file hpaths rfl (by decide) hload rfl
  have hnull : NullTable 1 memory' := ⟨htable.congr (htable.agree_table hagree), by decide, hexit⟩
  obtain ⟨t, hround, hmemory, -⟩ := Threads.round_spinning
    (s := ⟨storingKernel.sched.threads, memory'⟩) (X := [(1 : Ptr)]) hnull
    fun x _ => ⟨rfl, rfl, tlbSound_tlbFlush 1 _ _ _⟩
  have hexec : executorExec (executorInit oneCpu) ⟨storingKernel.sched.threads, memory'⟩ = .ok t :=
    (congrFun (executeAll_eq oneCpu) _).trans hround
  refine ⟨_, _, _, ⟨call, 0, hcall⟩, ⟨t, hexec, rfl⟩, ⟨_, rfl, rfl⟩, ?_⟩
  show pmReadWord t.memory (physicalAddress t.memory 0 (virtualAddress 0)) = _
  rw [hmemory]
  exact hexit

end SeKernel
