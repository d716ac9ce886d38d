import Mathlib.Data.List.FinRange
import SeKernel.Process.Pcb
import SeKernel.Scheduler.Interface

/-!
# The scheduler

`src/scheduler.c` without `__sched_thread_control_array_init`. The functions run under the
scheduler's mutex and change one structure, `Sched`. A thread pointer is an index of type `τ`, and
the control records are the members of a family: how they lie in memory does not matter here.
-/

namespace SeKernel

/-- Reference: `NULL_PROCESS_RUN` (`headers/scheduler_s.h:12`). -/
def nullProcessRun : Int := 1

/-- Reference: `PROCESS_RUN` (`headers/scheduler_s.h:13`). -/
def processRun : Int := 2

theorem ne_nullProcessRun {status : Int} (h : status = processRun) : status ≠ nullProcessRun := by
  subst h
  decide

/-- Reference: `SCHEDULER_NULL_PROCESS_RR_FREQ` (`src/scheduler.c:14`). -/
def schedulerNullProcessRrFreq : Int := 4

/-- Reference: `SCHEDULER_BASE_PROCESS_RR_FREQ` (`src/scheduler.c:15`). -/
def schedulerBaseProcessRrFreq : Int := 10

/-- A pointer to a PCB: to the scheduler's own `null_process`, or to one that `malloc` returned. -/
inductive PcbPtr (ι : Type)
  | nullProcess
  | pcb (i : ι)
  deriving DecidableEq, Repr

/-- Reference: `struct sched_cpu_thread_control` (`headers/scheduler_s.h:27`). -/
structure CoreControl (ι τ : Type) where
  threadS : τ
  currentProcess : Option (PcbPtr ι)
  currentProcessQuantum : Int
  currrentCpuSchedStatus : Int

/-- Reference: `struct sched_struct` (`headers/scheduler_s.h:17`), with the PCBs and the hardware
threads that its pointers lead to. `k` is `core_control_array_size`. -/
structure Sched (ι τ : Type) (k n : Nat) where
  currentPolicy : Int
  schedulerQueueIObject : SISched (PcbPtr ι)
  timerTickFreq : Int
  coreControlArray : Fin k → CoreControl ι τ
  pcbs : PcbHeap (PcbPtr ι)
  threads : τ → Thread n

variable {ι τ : Type} [DecidableEq ι] [DecidableEq τ] {k n : Nat}

/-- Change one control record. -/
def Sched.modifyCore (sched : Sched ι τ k n) (c : Fin k) (f : CoreControl ι τ → CoreControl ι τ) :
    Sched ι τ k n :=
  { sched with
    coreControlArray := Function.update sched.coreControlArray c (f (sched.coreControlArray c)) }

section

variable (sched : Sched ι τ k n) (c : Fin k) (f : CoreControl ι τ → CoreControl ι τ)

omit [DecidableEq ι] [DecidableEq τ]

@[simp] theorem Sched.modifyCore_self :
    (sched.modifyCore c f).coreControlArray c = f (sched.coreControlArray c) :=
  Function.update_self ..

@[simp] theorem Sched.modifyCore_of_ne {d : Fin k} (hd : d ≠ c) :
    (sched.modifyCore c f).coreControlArray d = sched.coreControlArray d :=
  Function.update_of_ne hd ..

@[simp] theorem Sched.modifyCore_currentPolicy :
    (sched.modifyCore c f).currentPolicy = sched.currentPolicy := rfl

@[simp] theorem Sched.modifyCore_schedulerQueueIObject :
    (sched.modifyCore c f).schedulerQueueIObject = sched.schedulerQueueIObject := rfl

@[simp] theorem Sched.modifyCore_pcbs : (sched.modifyCore c f).pcbs = sched.pcbs := rfl

end

/-! ## Processes -/

/-- Reference: `pcb_init` (`src/pcb_s.c:4`). -/
def pcbInit (pcb : Pcb) (pid currentPrio : Int) : Pcb :=
  { pcb with pid, currentPriority := currentPrio, status := prUndefined }

/-- `malloc` did not return `null_process`. Reference: `pcb_destroy` (`src/pcb_s.c:10`). -/
def pcbDestroy (heap : PcbHeap (PcbPtr ι)) : PcbPtr ι → Outcome (PcbHeap (PcbPtr ι))
  | .nullProcess => throw .badFree
  | .pcb i => do
    let _ ← heap.read (.pcb i)
    return Function.update heap (.pcb i) none

/-- Reference: `disp_terminate` (`src/scheduler.c:136`). -/
def dispTerminate (heap : PcbHeap (PcbPtr ι)) (thread : Thread n) (pcb : PcbPtr ι) :
    Outcome (PcbHeap (PcbPtr ι)) := do
  let p ← heap.read pcb
  pcbDestroy (heap.write pcb (dispUnload thread p)) pcb

/-- Read `pcb->status`. -/
def PcbHeap.status (heap : PcbHeap (PcbPtr ι)) : Option (PcbPtr ι) → Outcome Int
  | none => throw .nullDeref
  | some pcb => do
    let p ← heap.read pcb
    return p.status

/-! ## The ready queue -/

/-- Reference: `sched_add_to_process_queue` (`src/scheduler.c:17`). -/
def schedAddToProcessQueue (sched : Sched ι τ k n) (newPcb : PcbPtr ι) :
    Outcome (Sched ι τ k n) := do
  let p ← sched.pcbs.read newPcb
  let schedulerQueueIObject ← iSchedInsert sched.schedulerQueueIObject newPcb p.currentPriority
  return { sched with
    pcbs := sched.pcbs.write newPcb { p with status := prReady }
    schedulerQueueIObject }

/-- Reference: `__sched_get_next_process` (`src/scheduler.c:108`). -/
def schedGetNextProcess (sched : Sched ι τ k n) : Outcome (Option (PcbPtr ι) × Sched ι τ k n) :=
  if sched.currentPolicy = schedFifo ∨ sched.currentPolicy = schedPrioFifo ∨
      sched.currentPolicy = schedRr ∨ sched.currentPolicy = schedPrioRr then do
    let (nextProcess, schedulerQueueIObject) ← iSchedPeek sched.schedulerQueueIObject
    return (nextProcess, { sched with schedulerQueueIObject })
  else
    return (none, sched)

/-- Reference: `__sched_get_next_process_clean_queue` (`src/scheduler.c:89`). -/
def schedGetNextProcessCleanQueue (sched : Sched ι τ k n) (c : Fin k) :
    Outcome (Option (PcbPtr ι) × Sched ι τ k n) :=
  if (sched.coreControlArray c).currrentCpuSchedStatus = nullProcessRun then
    return (some .nullProcess, sched)
  else
    schedGetNextProcess sched

/-! ## The dispatcher -/

/-- What to run when the queue has a process and when it has none. Reference: `sched_dispatcher`
(`src/scheduler.c:46`). -/
def schedDispatcherChoose (sched : Sched ι τ k n) (c : Fin k)
    (oldProcess nextProcess : Option (PcbPtr ι)) :
    Outcome (Option (PcbPtr ι) × Sched ι τ k n) :=
  match nextProcess with
  | some next =>
    return (some next,
      sched.modifyCore c ({ · with currentProcessQuantum := schedulerBaseProcessRrFreq }))
  | none =>
    if oldProcess = some .nullProcess then
      return (none, sched)
    else do
      let status ← sched.pcbs.status oldProcess
      if status = prFini then
        return (some .nullProcess,
          sched.modifyCore c ({ · with currrentCpuSchedStatus := schedulerNullProcessRrFreq }))
      else
        return (none, sched)

/-- Make the next process the current one and load it. Reference: `sched_dispatcher`
(`src/scheduler.c:56`). -/
def schedDispatcherLoad (sched : Sched ι τ k n) (c : Fin k) (oldProcess : Option (PcbPtr ι))
    (nextProcess : PcbPtr ι) : Outcome (Sched ι τ k n) := do
  let threadS := (sched.coreControlArray c).threadS
  let (pcbs, thread) ← dispDispatch sched.pcbs oldProcess nextProcess (sched.threads threadS)
  return { sched.modifyCore c ({ · with currentProcess := some nextProcess }) with
    pcbs
    threads := Function.update sched.threads threadS thread }

/-- Terminate the old process or queue it again. Reference: `sched_dispatcher`
(`src/scheduler.c:58`). -/
def schedDispatcherPutAway (sched : Sched ι τ k n) (c : Fin k) (oldProcess : Option (PcbPtr ι)) :
    Outcome (Sched ι τ k n) :=
  if (sched.coreControlArray c).currrentCpuSchedStatus = nullProcessRun then
    return sched
  else
    match oldProcess with
    | none => throw .nullDeref
    | some old => do
      let status ← sched.pcbs.status (some old)
      if status = prFini then
        let thread := sched.threads (sched.coreControlArray c).threadS
        let pcbs ← dispTerminate sched.pcbs thread old
        return { sched with pcbs }
      else
        -- line 64 writes `PR_READY` once more
        schedAddToProcessQueue sched old

/-- Replace the old process by another one. Reference: `sched_dispatcher`
(`src/scheduler.c:55`). -/
def schedDispatcherSwitch (sched : Sched ι τ k n) (c : Fin k) (oldProcess : Option (PcbPtr ι))
    (nextProcess : PcbPtr ι) : Outcome (Sched ι τ k n) := do
  let sched ← schedDispatcherLoad sched c oldProcess nextProcess
  let sched ← schedDispatcherPutAway sched c oldProcess
  return sched.modifyCore c ({ · with
    currrentCpuSchedStatus := if nextProcess = .nullProcess then nullProcessRun else processRun })

/-- Reference: `sched_dispatcher` (`src/scheduler.c:42`). -/
def schedDispatcher (sched : Sched ι τ k n) (c : Fin k) : Outcome (Sched ι τ k n) := do
  let (nextProcess, sched) ← schedGetNextProcessCleanQueue sched c
  let oldProcess := (sched.coreControlArray c).currentProcess
  let (nextProcess, sched) ← schedDispatcherChoose sched c oldProcess nextProcess
  match nextProcess with
  | none => return sched
  | some next => schedDispatcherSwitch sched c oldProcess next

/-! ## The timer's action -/

/-- A process that has finished is no longer the current one. Reference:
`__sched_update_running_pcb` (`src/scheduler.c:78`). -/
def schedUpdateRunningPcb (sched : Sched ι τ k n) (c : Fin k) : Outcome (Sched ι τ k n) :=
  match (sched.coreControlArray c).currentProcess with
  | none => return sched
  | some pcb => do
    let p ← sched.pcbs.read pcb
    if p.status = prFini then
      return sched.modifyCore c ({ · with currentProcess := none })
    else
      return sched

/-- The policies with a time slice. -/
def RoundRobin (policy : Int) : Prop := policy = schedPrioRr ∨ policy = schedRr

instance (policy : Int) : Decidable (RoundRobin policy) := inferInstanceAs (Decidable (_ ∨ _))

/-- What `sched_execute` does about a record that is up to date. Reference: `sched_execute`
(`src/scheduler.c:28`). -/
def schedExecuteUpdated (sched : Sched ι τ k n) (c : Fin k) : Outcome (Sched ι τ k n) :=
  if RoundRobin sched.currentPolicy then
    if (sched.coreControlArray c).currentProcessQuantum ≤ 0 then
      schedDispatcher sched c
    else
      return sched.modifyCore c fun r =>
        { r with currentProcessQuantum := r.currentProcessQuantum - sched.timerTickFreq }
  else if (sched.coreControlArray c).currrentCpuSchedStatus = nullProcessRun then
    schedDispatcher sched c
  else do
    let status ← sched.pcbs.status (sched.coreControlArray c).currentProcess
    if status = prFini then schedDispatcher sched c else return sched

/-- The turn of one record in a pass. Reference: `sched_execute` (`src/scheduler.c:26`). -/
def schedExecuteCore (sched : Sched ι τ k n) (c : Fin k) : Outcome (Sched ι τ k n) := do
  let sched ← schedUpdateRunningPcb sched c
  schedExecuteUpdated sched c

/-- Reference: `sched_execute` (`src/scheduler.c:24`). -/
def schedExecute (sched : Sched ι τ k n) : Outcome (Sched ι τ k n) :=
  (List.finRange k).foldlM schedExecuteCore sched

/-! ## Initialisation -/

/-- Reference: `sched_cpu_thread_control_init` (`src/scheduler.c:100`). -/
def schedCpuThreadControlInit (threadS : τ) (currentProcess : Option (PcbPtr ι))
    (currentProcessQuantum currrentCpuSchedStatus : Int) : CoreControl ι τ where
  threadS := threadS
  currentProcess := currentProcess
  currentProcessQuantum := currentProcessQuantum
  currrentCpuSchedStatus := currrentCpuSchedStatus

/-- `sched` is the structure as it was before, `loadNullPcb` what `load_null_pcb` does to the
thread's MMU and to `null_process`, and `configure` what `i_sched_configure` makes of the interface
object. Only the first record is set. Reference: `sched_init` (`src/scheduler.c:141`). -/
def schedInit [NeZero k] (loadNullPcb : Mmu n → Pcb → Outcome (Mmu n × Pcb))
    (configure : Int → Outcome (SISched (PcbPtr ι))) (sched : Sched ι τ k n) (timerTickFreq : Int)
    (firstThread : τ) (policy : Int) : Outcome (Sched ι τ k n) := do
  let nullProcess ← sched.pcbs.read .nullProcess
  let thread := sched.threads firstThread
  let (memManagUnit, nullProcess) ← loadNullPcb thread.memManagUnit (pcbInit nullProcess (-1) 0)
  let schedulerQueueIObject ← configure policy
  return {
    currentPolicy := policy
    schedulerQueueIObject
    timerTickFreq
    coreControlArray := Function.update sched.coreControlArray 0
      (schedCpuThreadControlInit firstThread none 0 nullProcessRun)
    pcbs := sched.pcbs.write .nullProcess nullProcess
    threads := Function.update sched.threads firstThread { thread with memManagUnit } }

/-! ## Steps -/

/-- The entry points of the scheduler after `sched_init`. -/
inductive SchedStep (ι : Type) (k : Nat)
  | add (newPcb : ι)
  | dispatcher (c : Fin k)
  | execute
  deriving DecidableEq, Repr

/-- Take a step. -/
def SchedStep.exec : SchedStep ι k → Sched ι τ k n → Outcome (Sched ι τ k n)
  | .add newPcb, s => schedAddToProcessQueue s (.pcb newPcb)
  | .dispatcher c, s => schedDispatcher s c
  | .execute, s => schedExecute s

end SeKernel
