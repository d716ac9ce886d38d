import SeKernel.Lib.Owned
import SeKernel.Lib.Pass
import SeKernel.Virtual.ExecuteAll

/-!
# Setting up the processors

`src/cpu.c` on an explicit heap of `struct thread_s`: `cpu_t_init` allocates the cores of a CPU and
their threads, one `malloc` a thread. After the loop of `main` over the CPUs each hardware thread
that `execute_all` reaches is an object of its own with clear registers and an empty TLB
(`cpuArrayInit_threads`). Processes on tables that are apart, loaded on them, run their virtual
machines (`boot_runs_virtualMachines`).
-/

namespace SeKernel

open Owned

/-- Reference: `TLB_MAX_SPACE` (`src/cpu.c:4`). -/
def tlbMaxSpace : Nat := 20

instance : NeZero tlbMaxSpace := ⟨by decide⟩

/-- The allocated `struct thread_s`. -/
abbrev ThreadHeap := Ptr → Option (Thread tlbMaxSpace)

/-- What `malloc` returns for a thread and for its TLB, with whatever is in them. -/
structure ThreadMallocs where
  thread : Ptr
  content : Thread tlbMaxSpace
  tlbHashArr : Fin tlbMaxSpace → Pte

/-- `malloc` of a thread. -/
def ThreadHeap.malloc (heap : ThreadHeap) (m : ThreadMallocs) : Outcome ThreadHeap :=
  if (heap m.thread).isSome then throw .mallocInUse
  else return Function.update heap m.thread (some m.content)

/-- Reference: `thread_t_init` (`src/cpu.c:39`). -/
def threadTInit (heap : ThreadHeap) (pHari ps : Ptr) (tlbHashArr : Fin tlbMaxSpace → Pte) :
    Outcome (Int × ThreadHeap) :=
  if ps = 0 then return (-1, heap)
  else if pHari = 0 then throw .nullDeref
  else
    let hari : Thread tlbMaxSpace := {
      PC := 0
      IR := 0
      PTBR := 0
      cc := 0
      R _ := 0
      memManagUnit := ⟨fun i => { tlbHashArr i with active := false }⟩ }
    return (0, Function.update heap pHari (some hari))

/-- One round of the loop over the threads of a core. Reference: `core_t_init` (`src/cpu.c:30`). -/
def coreTInitThread (ps : Ptr) (x : List Ptr × ThreadHeap) (m : ThreadMallocs) :
    Outcome (List Ptr × ThreadHeap) := do
  let heap ← x.2.malloc m
  let (_, heap) ← threadTInit heap m.thread ps m.tlbHashArr
  return (x.1 ++ [m.thread], heap)

/-- The core is left as it is when there is nothing to do. Reference: `core_t_init`
(`src/cpu.c:23`). -/
def coreTInit (pCore : CoreS) (threadNum : Int) (ps : Ptr)
    (mallocs : Fin threadNum.toNat → ThreadMallocs) (heap : ThreadHeap) :
    Outcome (Int × CoreS × ThreadHeap) :=
  if threadNum ≤ 0 ∨ ps = 0 then return (-1, pCore, heap)
  else do
    let (myThreads, heap) ← (List.ofFn mallocs).foldlM (coreTInitThread ps) ([], heap)
    return (0, ⟨myThreads⟩, heap)

/-- What `malloc` returns for a core, with what is in it, and for its threads. -/
structure CoreMallocs (threadNum : Int) where
  core : CoreS
  threads : Fin threadNum.toNat → ThreadMallocs

/-- One round of the loop over the cores of a CPU. Reference: `cpu_t_init` (`src/cpu.c:13`). -/
def cpuTInitCore (threadNumPerCore : Int) (ps : Ptr) (x : List CoreS × ThreadHeap)
    (m : CoreMallocs threadNumPerCore) : Outcome (List CoreS × ThreadHeap) := do
  let (_, core, heap) ← coreTInit m.core threadNumPerCore ps m.threads x.2
  return (x.1 ++ [core], heap)

/-- Reference: `cpu_t_init` (`src/cpu.c:6`). -/
def cpuTInit (pCpu : CpuS) (coreNum threadNumPerCore : Int) (ps : Ptr)
    (mallocs : Fin coreNum.toNat → CoreMallocs threadNumPerCore) (heap : ThreadHeap) :
    Outcome (Int × CpuS × ThreadHeap) :=
  if coreNum ≤ 0 ∨ threadNumPerCore ≤ 0 ∨ ps = 0 then return (-1, pCpu, heap)
  else do
    let (myCores, heap) ← (List.ofFn mallocs).foldlM (cpuTInitCore threadNumPerCore ps) ([], heap)
    return (0, ⟨myCores⟩, heap)

/-- A CPU of the array of `main`, with what is in it, and what `malloc` returns for its cores. -/
structure CpuMallocs (coreNum threadNum : Int) where
  cpu : CpuS
  cores : Fin coreNum.toNat → CoreMallocs threadNum

/-- One round of the loop over the CPUs. Reference: `main` (`src/main.c:63`). -/
def cpuArrayInitCpu (coreNum threadNum : Int) (ps : Ptr) (x : List CpuS × ThreadHeap)
    (m : CpuMallocs coreNum threadNum) : Outcome (List CpuS × ThreadHeap) := do
  let (_, cpu, heap) ← cpuTInit m.cpu coreNum threadNum ps m.cores x.2
  return (x.1 ++ [cpu], heap)

/-- `mallocs` is as long as `CPU_KOP` says. Reference: `main` (`src/main.c:62`). -/
def cpuArrayInit (coreNum threadNum : Int) (ps : Ptr)
    (mallocs : List (CpuMallocs coreNum threadNum)) (heap : ThreadHeap) :
    Outcome (List CpuS × ThreadHeap) :=
  mallocs.foldlM (cpuArrayInitCpu coreNum threadNum ps) ([], heap)

/-- Reference: `executor_t` (`headers/executor.h:29`). -/
structure ExecutorT where
  cpuArr : List CpuS

/-- Reference: `executor_init` (`src/executor_s.c:12`). -/
def executorInit (cpuArr : List CpuS) : ExecutorT := ⟨cpuArr⟩

/-- Reference: `executor_exec` (`src/executor_s.c:18`). -/
def executorExec {n : Nat} [NeZero n] (exec : ExecutorT) (s : Threads fun _ : Ptr => n) :
    Outcome (Threads fun _ : Ptr => n) := executeAll exec.cpuArr s

/-- Clear registers, no page table and no active TLB entry. -/
structure Thread.Fresh {n : Nat} (t : Thread n) : Prop where
  context : t.context = ⟨0, 0, fun _ => 0, 0⟩
  PTBR : t.PTBR = 0
  inactive : ∀ i, (t.memManagUnit.tlbHashArr i).active = false

variable {ps : Ptr} {heap : ThreadHeap} {coreNum threadNum : Int}

/-! ## The loops -/

/-- As many threads from each part. -/
theorem length_flatMap_of {γ : Type} {f : γ → List Ptr} {l : List γ} {k : Int}
    (h : ∀ x ∈ l, ((f x).length : Int) = k) : ((l.flatMap f).length : Int) = l.length * k := by
  induction l with
  | nil => simp
  | cons x l ih =>
    obtain ⟨hx, hl⟩ := List.forall_mem_cons.1 h
    rw [List.flatMap_cons, List.length_append, List.length_cons]
    push_cast
    rw [hx, ih hl, add_mul, one_mul, add_comm]

/-- Reference: `thread_t_init` (`src/cpu.c:39`). -/
theorem threadTInit_fresh (hps : ps ≠ 0) {pHari : Ptr} (hhari : pHari ≠ 0) (heap : ThreadHeap)
    (tlbHashArr : Fin tlbMaxSpace → Pte) : ∃ hari : Thread tlbMaxSpace, hari.Fresh ∧
      threadTInit heap pHari ps tlbHashArr =
        .ok (0, Function.update heap pHari (some hari)) := by
  unfold threadTInit
  rw [if_neg hps, if_neg hhari]
  exact ⟨_, ⟨rfl, rfl, fun _ => rfl⟩, rfl⟩

/-- A round allocates one thread. -/
theorem coreTInitThread_adds (hps : ps ≠ 0) {m : ThreadMallocs} (hm : m.thread ≠ 0)
    (myThreads : List Ptr) (heap : ThreadHeap) :
    coreTInitThread ps (myThreads, heap) m = .error .mallocInUse ∨ ∃ p heap',
      coreTInitThread ps (myThreads, heap) m = .ok (myThreads ++ [p], heap') ∧ True ∧
        Adds Thread.Fresh heap [p] heap' := by
  unfold coreTInitThread ThreadHeap.malloc
  dsimp only
  by_cases hfree : (heap m.thread).isSome
  · rw [if_pos hfree]
    exact .inl rfl
  · obtain ⟨hari, hfresh, hinit⟩ := threadTInit_fresh hps hm
      (Function.update heap m.thread (some m.content)) m.tlbHashArr
    rw [if_neg hfree, Outcome.pure_eq, Outcome.ok_bind, hinit]
    refine .inr ⟨m.thread, _, rfl, trivial, ?_⟩
    rw [Function.update_idem]
    exact .update (by simpa using hfree) hfresh

/-- Reference: `core_t_init` (`src/cpu.c:23`). -/
theorem coreTInit_adds (hps : ps ≠ 0) (hthreads : 0 < threadNum) (pCore : CoreS)
    {mallocs : Fin threadNum.toNat → ThreadMallocs} (hnull : ∀ j, (mallocs j).thread ≠ 0)
    (heap : ThreadHeap) :
    coreTInit pCore threadNum ps mallocs heap = .error .mallocInUse ∨ ∃ core heap',
      coreTInit pCore threadNum ps mallocs heap = .ok (0, core, heap') ∧
        core.threadKop = threadNum ∧ Adds Thread.Fresh heap core.threadArr heap' := by
  have hturn : ∀ m ∈ List.ofFn mallocs, ∀ myThreads heap,
      coreTInitThread ps (myThreads, heap) m = .error .mallocInUse ∨ ∃ p heap',
        coreTInitThread ps (myThreads, heap) m = .ok (myThreads ++ [p], heap') ∧ True ∧
          Adds Thread.Fresh heap [p] heap' :=
    List.forall_mem_ofFn_iff.2 fun j => coreTInitThread_adds hps (hnull j)
  have hloop := Adds.foldlM hturn [] heap
  unfold coreTInit
  rw [if_neg (not_or.2 ⟨by omega, hps⟩)]
  rcases hloop with hstop | ⟨myThreads, heap', hloop, hlength, -, hadds⟩
  · rw [hstop]
    exact .inl rfl
  · rw [hloop]
    refine .inr ⟨⟨myThreads⟩, heap', rfl, ?_, ?_⟩
    · rw [List.length_ofFn] at hlength
      show (myThreads.length : Int) = threadNum
      omega
    · simpa using hadds

/-- Reference: `cpu_t_init` (`src/cpu.c:6`). -/
theorem cpuTInit_adds (hps : ps ≠ 0) (hcores : 0 < coreNum) (hthreads : 0 < threadNum) (pCpu : CpuS)
    {mallocs : Fin coreNum.toNat → CoreMallocs threadNum}
    (hnull : ∀ i j, ((mallocs i).threads j).thread ≠ 0) (heap : ThreadHeap) :
    cpuTInit pCpu coreNum threadNum ps mallocs heap = .error .mallocInUse ∨ ∃ cpu heap',
      cpuTInit pCpu coreNum threadNum ps mallocs heap = .ok (0, cpu, heap') ∧
        ((cpu.coreArr.flatMap CoreS.threadArr).length : Int) = coreNum * threadNum ∧
        Adds Thread.Fresh heap (cpu.coreArr.flatMap CoreS.threadArr) heap' := by
  have hturn : ∀ m ∈ List.ofFn mallocs, ∀ myCores heap,
      cpuTInitCore threadNum ps (myCores, heap) m = .error .mallocInUse ∨ ∃ core heap',
        cpuTInitCore threadNum ps (myCores, heap) m = .ok (myCores ++ [core], heap') ∧
          core.threadKop = threadNum ∧ Adds Thread.Fresh heap core.threadArr heap' := by
    refine List.forall_mem_ofFn_iff.2 fun i myCores heap => ?_
    unfold cpuTInitCore
    rcases coreTInit_adds hps hthreads (mallocs i).core (hnull i) heap with
      hstop | ⟨core, heap', hcore, hrest⟩
    · rw [hstop]
      exact .inl rfl
    · rw [hcore]
      exact .inr ⟨core, heap', rfl, hrest⟩
  have hloop := Adds.foldlM hturn [] heap
  have hargs : ¬ (coreNum ≤ 0 ∨ threadNum ≤ 0 ∨ ps = 0) := by
    rintro (h | h | h)
    · omega
    · omega
    · exact hps h
  unfold cpuTInit
  rw [if_neg hargs]
  rcases hloop with hstop | ⟨myCores, heap', hloop, hlength, hkop, hadds⟩
  · rw [hstop]
    exact .inl rfl
  · rw [hloop]
    refine .inr ⟨⟨myCores⟩, heap', rfl, ?_, hadds⟩
    rw [List.length_ofFn] at hlength
    rw [length_flatMap_of hkop, hlength, Int.toNat_of_nonneg hcores.le]

/-- The loop over the CPUs gives every hardware thread an object of its own, with clear registers
and an empty TLB, as many of them as the arguments say. Reference: `cpu_t_init` (`src/cpu.c:6`),
`core_t_init` (`src/cpu.c:23`), `thread_t_init` (`src/cpu.c:39`), `get_hari_kop`
(`src/cpu.c:74`). -/
theorem cpuArrayInit_threads (hps : ps ≠ 0) (hcores : 0 < coreNum) (hthreads : 0 < threadNum)
    {mallocs : List (CpuMallocs coreNum threadNum)}
    (hnull : ∀ m ∈ mallocs, ∀ i j, ((m.cores i).threads j).thread ≠ 0)
    (hmalloc : cpuArrayInit coreNum threadNum ps mallocs heap ≠ .error .mallocInUse) :
    ∃ cpus heap', cpuArrayInit coreNum threadNum ps mallocs heap = .ok (cpus, heap') ∧
      Adds Thread.Fresh heap (hardwareThreads cpus) heap' ∧
      ((hardwareThreads cpus).length : Int) = mallocs.length * (coreNum * threadNum) ∧
      ∀ cpu ∈ cpus, ∀ hariKop,
        getHariKop (some cpu) (some hariKop) = (0, some (coreNum * threadNum)) := by
  have hturn : ∀ m ∈ mallocs, ∀ cpus heap,
      cpuArrayInitCpu coreNum threadNum ps (cpus, heap) m = .error .mallocInUse ∨ ∃ cpu heap',
        cpuArrayInitCpu coreNum threadNum ps (cpus, heap) m = .ok (cpus ++ [cpu], heap') ∧
          ((cpu.coreArr.flatMap CoreS.threadArr).length : Int) = coreNum * threadNum ∧
          Adds Thread.Fresh heap (cpu.coreArr.flatMap CoreS.threadArr) heap' := by
    intro m hm cpus heap
    unfold cpuArrayInitCpu
    rcases cpuTInit_adds hps hcores hthreads m.cpu (hnull m hm) heap with
      hstop | ⟨cpu, heap', hcpu, hrest⟩
    · rw [hstop]
      exact .inl rfl
    · rw [hcpu]
      exact .inr ⟨cpu, heap', rfl, hrest⟩
  obtain ⟨cpus, heap', hloop, hlength, hkop, hadds⟩ :=
    (Adds.foldlM hturn [] heap).resolve_left hmalloc
  refine ⟨cpus, heap', hloop, hadds, ?_, fun cpu hcpu hariKop => ?_⟩
  · rw [← hlength]
    exact length_flatMap_of hkop
  · rw [getHariKop_some, hkop cpu hcpu]

/-- What `malloc` returns for a CPU of one core with one thread; nothing in it is set. -/
def oneThreadMallocs (thread : Ptr) : CpuMallocs 1 1 :=
  ⟨⟨[]⟩, fun _ => ⟨⟨[]⟩, fun _ =>
    ⟨thread, ⟨7, 7, 7, fun _ => 7, 7, ⟨fun _ => ⟨7, 7, true⟩⟩⟩, fun _ => ⟨9, 9, true⟩⟩⟩⟩

/-- Two of them. -/
theorem cpuArrayInit_twoCpus : ∃ heap',
    cpuArrayInit 1 1 8 [oneThreadMallocs 1, oneThreadMallocs 2] (fun _ => none) =
      .ok (twoCpus, heap') := ⟨_, rfl⟩

theorem oneThreadMallocs_thread :
    ∀ m ∈ [oneThreadMallocs 1, oneThreadMallocs 2], ∀ i j, ((m.cores i).threads j).thread ≠ 0 := by
  decide

/-- Two CPUs of one core with one thread each. -/
theorem cpuArrayInit_threads_two : ∃ cpus heap',
    cpuArrayInit 1 1 8 [oneThreadMallocs 1, oneThreadMallocs 2] (fun _ => none) =
      .ok (cpus, heap') ∧
    Adds Thread.Fresh (fun _ => none) (hardwareThreads cpus) heap' ∧
    ((hardwareThreads cpus).length : Int) = 2 := by
  have hps : (8 : Ptr) ≠ 0 := by decide
  obtain ⟨heap₁, hboot⟩ := cpuArrayInit_twoCpus
  have hmalloc : cpuArrayInit 1 1 8 [oneThreadMallocs 1, oneThreadMallocs 2] (fun _ => none) ≠
      .error .mallocInUse := by
    rw [hboot]
    nofun
  obtain ⟨cpus, heap', hok, hadds, hlength, -⟩ :=
    cpuArrayInit_threads hps Int.one_pos Int.one_pos oneThreadMallocs_thread hmalloc
  exact ⟨cpus, heap', hok, hadds, hlength⟩

/-! ## The first processes -/

/-- After the loop over the CPUs, load each hardware thread with a process, on page tables that are
apart. Any number of rounds of the executor are as many steps of each process's virtual machine,
from its snapshot: they return exactly when all of these runs do, with the registers and words that
they end with. Reference: `cpu_t_init` (`src/cpu.c:6`), `__disp_load` (`src/scheduler.c:152`),
`executor_exec` (`src/executor_s.c:18`). -/
theorem boot_runs_virtualMachines (hps : ps ≠ 0) (hcores : 0 < coreNum) (hthreads : 0 < threadNum)
    {mallocs : List (CpuMallocs coreNum threadNum)}
    (hnull : ∀ m ∈ mallocs, ∀ i j, ((m.cores i).threads j).thread ≠ 0) {cpus : List CpuS}
    {heap' : ThreadHeap}
    (hboot : cpuArrayInit coreNum threadNum ps mallocs heap = .ok (cpus, heap'))
    {pcb : Ptr → Pcb} {pages : Ptr → Nat} {s : Threads fun _ : Ptr => tlbMaxSpace} {k : Nat}
    (hload : ∀ x ∈ hardwareThreads cpus, ∀ t, heap' x = some t →
      s.thread x = (dispLoad t (pcb x)).1)
    (htables : ∀ x ∈ hardwareThreads cpus,
      PageTable s.memory (pcb x).memoryMap.pgb (pages x))
    (hapart : TablesApart s.memory
      fun x : {x // x ∈ hardwareThreads cpus} => (pcb x).memoryMap.pgb)
    (hspares : ∀ x ∈ hardwareThreads cpus, Iterate.Along VirtualMachine.step
      VirtualMachine.SparesBoundary k
      (view (pages x) s.memory (pcb x).memoryMap.pgb (pcb x).cpuSnapshot)) :
    ((∃ s', Iterate.iter (executorExec (executorInit cpus)) k s = .ok s') ↔
      ∀ x ∈ hardwareThreads cpus, ∃ v,
        (view (pages x) s.memory (pcb x).memoryMap.pgb (pcb x).cpuSnapshot).run k = .ok v) ∧
    ∀ s', Iterate.iter (executorExec (executorInit cpus)) k s = .ok s' →
      ∀ x ∈ hardwareThreads cpus,
        (view (pages x) s.memory (pcb x).memoryMap.pgb (pcb x).cpuSnapshot).run k =
          .ok (s'.machine pages x) := by
  have hmalloc : cpuArrayInit coreNum threadNum ps mallocs heap ≠ .error .mallocInUse := by
    rw [hboot]
    nofun
  obtain ⟨cpus₁, heap₁, hboot₁, hadds, -⟩ :=
    cpuArrayInit_threads hps hcores hthreads hnull hmalloc
  cases hboot.symm.trans hboot₁
  have hthread : ∀ x ∈ hardwareThreads cpus, (s.thread x).PTBR = (pcb x).memoryMap.pgb ∧
      (s.thread x).context = (pcb x).cpuSnapshot ∧
      ∀ i, ((s.thread x).memManagUnit.tlbHashArr i).active = false := by
    intro x hx
    obtain ⟨t, ht, hfresh⟩ := hadds.kind x hx
    rw [hload x hx t ht]
    exact ⟨rfl, rfl, hfresh.inactive⟩
  have hmachine : ∀ x ∈ hardwareThreads cpus, s.machine pages x =
      view (pages x) s.memory (pcb x).memoryMap.pgb (pcb x).cpuSnapshot := by
    intro x hx
    rw [Threads.machine, (hthread x hx).1, (hthread x hx).2.1]
  have hptbr : (fun x : {x // x ∈ hardwareThreads cpus} => (s.thread x).PTBR) =
      fun x : {x // x ∈ hardwareThreads cpus} => (pcb x).memoryMap.pgb :=
    funext fun x => (hthread x x.2).1
  have hmachineSpares : ∀ x ∈ hardwareThreads cpus, Iterate.Along VirtualMachine.step
      VirtualMachine.SparesBoundary k (s.machine pages x) :=
    fun x hx => (hmachine x hx).symm ▸ hspares x hx
  obtain ⟨htotal, hshows, -⟩ := executeAll_runs_virtualMachines hadds.nodup
    (fun x hx => (hthread x hx).1 ▸ htables x hx) (hptbr ▸ hapart)
    (fun x hx => (hthread x hx).2.2) hmachineSpares
  refine ⟨htotal.trans (forall₂_congr fun x hx => by rw [hmachine x hx]), fun s' hs' x hx => ?_⟩
  rw [← hmachine x hx]
  exact hshows s' hs' x hx

/-- The process of each of the two threads. -/
def twoCpusPcb (x : Ptr) : Pcb :=
  ⟨1, 0, prReady, ⟨0, 0, twoPgb (x = 2)⟩, ⟨0, 0, fun r => if r.val = 0 then 7 else 0, 0⟩⟩

/-- The first process stores at its address 8, the second one loads from its own. -/
theorem boot_runs_virtualMachines_two : ∃ (heap' : ThreadHeap)
    (s s' : Threads fun _ : Ptr => tlbMaxSpace),
    cpuArrayInit 1 1 8 [oneThreadMallocs 1, oneThreadMallocs 2] (fun _ => none) =
      .ok (twoCpus, heap') ∧
    Iterate.iter (executorExec (executorInit twoCpus)) 1 s = .ok s' ∧
    (view 1 s.memory (twoCpusPcb 1).memoryMap.pgb (twoCpusPcb 1).cpuSnapshot).run 1 =
      .ok (s'.machine (fun _ => 1) 1) := by
  have hps : (8 : Ptr) ≠ 0 := by decide
  obtain ⟨heap', hboot⟩ := cpuArrayInit_twoCpus
  let s : Threads fun _ : Ptr => tlbMaxSpace :=
    ⟨fun x => (dispLoad ((heap' x).getD ⟨0, 0, 0, fun _ => 0, 0, tlbFlush 20⟩) (twoCpusPcb x)).1,
      twoTables⟩
  have hload : ∀ x ∈ hardwareThreads twoCpus, ∀ t, heap' x = some t →
      s.thread x = (dispLoad t (twoCpusPcb x)).1 := by
    intro x _ t ht
    show (dispLoad ((heap' x).getD _) (twoCpusPcb x)).1 = _
    rw [ht]
    rfl
  have htables : ∀ x ∈ hardwareThreads twoCpus,
      PageTable twoTables (twoCpusPcb x).memoryMap.pgb 1 :=
    forall_twoCpus (twoTables_pageTable false) (twoTables_pageTable true)
  have hspares : ∀ x ∈ hardwareThreads twoCpus, Iterate.Along VirtualMachine.step
      VirtualMachine.SparesBoundary 1
      (view 1 twoTables (twoCpusPcb x).memoryMap.pgb (twoCpusPcb x).cpuSnapshot) :=
    forall_twoCpus (VirtualMachine.along_one rfl) (VirtualMachine.along_one rfl)
  obtain ⟨htotal, hshows⟩ := boot_runs_virtualMachines hps Int.one_pos Int.one_pos
    oneThreadMallocs_thread hboot hload htables twoCpus_apart hspares
  have hruns : ∀ x ∈ hardwareThreads twoCpus, ∃ v,
      (view 1 twoTables (twoCpusPcb x).memoryMap.pgb (twoCpusPcb x).cpuSnapshot).run 1 = .ok v :=
    forall_twoCpus ⟨_, rfl⟩ ⟨_, rfl⟩
  obtain ⟨s', hs'⟩ := htotal.2 hruns
  exact ⟨heap', s, s', hboot, hs', hshows s' hs' 1 ((mem_twoCpus 1).2 (.inl rfl))⟩

end SeKernel
