import SeKernel.LinkedList.Basic
import SeKernel.Scheduler.Interface

/-!
# The run queues over list nodes

The queues of `SeKernel.RunQueue.Basic` and the interface of `SeKernel.Scheduler.Interface` again,
with each list a `linkedlist_structure` over the heap of nodes that all lists share. A pointer to a
process is a datum of a node, and `a` is the address that `malloc` returns when a node is pushed.
`linkedlist_get_first` is declared and not defined; it reads the datum of the first node, as
`linkedlist_peek` reads that of the last one.
-/

namespace SeKernel.Nodes

open LinkedList

/-- Reference: `struct rt_prio_array` (`headers/runqueue_s.h:8`). -/
structure RtPrioArray where
  nrActive : Int
  queue : Fin maxPrio → LinkedlistStructure

/-- Reference: `struct rt_runqueue` (`headers/runqueue_s.h:15`). -/
structure RtRunqueue where
  nrRunning : Int
  active : Option PrioArrayRef
  expired : Option PrioArrayRef
  arrays : PrioArrayRef → RtPrioArray

/-- Reference: `struct rt_simple_runqueue` (`headers/runqueue_s.h:24`). -/
structure RtSimpleRunqueue where
  nrRunning : Int
  active : LinkedlistStructure

/-- Reference: `linkedlist_get_first` (`headers/linkedlist_s.h:30`). -/
def linkedlistGetFirst (list : LinkedlistStructure) (h : Heap) : Outcome VoidPtr := do
  if list.length = 0 then
    return NULL
  else
    let first ← readNode h list.first
    return first.data

/-! ## Initialisation -/

/-- Reference: `prio_array_init` (`src/runqueues.c:3`). -/
def prioArrayInit : RtPrioArray := ⟨0, fun _ => linkedlistInit⟩

-- for the literals of the two arrays
local instance neZeroTwo : NeZero 2 := ⟨by decide⟩

/-- Reference: `runqueue_init` (`src/runqueues.c:10`). -/
def runqueueInit (runq : RtRunqueue) : RtRunqueue where
  nrRunning := 0
  active := some (.array 0)
  expired := some (.array 1)
  arrays := Function.update (Function.update runq.arrays (.array 0) prioArrayInit) (.array 1)
    prioArrayInit

/-- Reference: `rq_prio_fifo_init` (`src/scheduler_priority_fifo.c:20`). -/
def rqPrioFifoInit (sched : RtRunqueue) : RtRunqueue :=
  { sched with
    nrRunning := 0
    expired := some .mallocd
    arrays := Function.update sched.arrays .mallocd prioArrayInit }

/-- Reference: `rq_simple_fifo_init` (`src/scheduler_simple_fifo.c:10`). -/
def rqSimpleFifoInit (_rq : RtSimpleRunqueue) : RtSimpleRunqueue := ⟨0, linkedlistInit⟩

/-! ## The priority run queue -/

/-- Change the array behind a pointer. -/
def RtRunqueue.modify (sched : RtRunqueue) (r : PrioArrayRef) (f : RtPrioArray → RtPrioArray) :
    RtRunqueue :=
  { sched with arrays := Function.update sched.arrays r (f (sched.arrays r)) }

/-- Change one list of an array. -/
def RtPrioArray.setQueue (arr : RtPrioArray) (i : Fin maxPrio) (list : LinkedlistStructure) :
    RtPrioArray :=
  { arr with queue := Function.update arr.queue i list }

/-- Add to the counter of an array. -/
def RtPrioArray.addActive (arr : RtPrioArray) (k : Int) : RtPrioArray :=
  { arr with nrActive := arr.nrActive + k }

/-- Reference: `get_first_not_empty_list_index` (`src/scheduler_priority_fifo.c:112`). -/
def getFirstNotEmptyListIndex (arr : Fin maxPrio → LinkedlistStructure) : Int :=
  match (List.finRange maxPrio).find? fun i => (arr i).length ≠ 0 with
  | some i => i
  | none => -1

/-- Reference: `rq_prio_fifo_in` (`src/scheduler_priority_fifo.c:8`). -/
def rqPrioFifoIn (a : Addr) (sched : RtRunqueue) (newPcb : VoidPtr) (currentPriority : Int)
    (h : Heap) : Outcome (RtRunqueue × Heap) := do
  let r ← followArray sched.expired
  let pcbPriority : Int :=
    if (maxPrio : Int) ≤ currentPriority then maxPrio - 1 else currentPriority
  let i ← queueIndex pcbPriority
  let (list, h) ← linkedlistPush a ((sched.arrays r).queue i) newPcb h
  let sched := sched.modify r fun arr => arr.setQueue i list
  return (sched.modify r fun arr => arr.addActive 1, h)

/-- Reference: `_rq_prio_fifo_update_sched` (`src/scheduler_priority_fifo.c:88`). -/
def rqPrioFifoUpdateSched (a : Addr) (sched : RtRunqueue) (h : Heap) :
    Outcome (Int × RtRunqueue × Heap) := do
  let expired ← followArray sched.expired
  if (sched.arrays expired).nrActive = 0 then
    return (0, sched, h)
  else
    let active ← followArray sched.active
    if (sched.arrays active).nrActive = 0 then
      return (1, { sched with active := some expired, expired := some active }, h)
    else
      let nextPrio ← queueIndex (getFirstNotEmptyListIndex (sched.arrays expired).queue)
      let (nextPcb, list, h) ← linkedlistPop ((sched.arrays expired).queue nextPrio) h
      let sched := sched.modify expired fun arr => arr.setQueue nextPrio list
      let (list, h) ← linkedlistPush a ((sched.arrays active).queue nextPrio) nextPcb h
      let sched := sched.modify active fun arr => arr.setQueue nextPrio list
      let sched := sched.modify expired fun arr => arr.addActive (-1)
      return (1, sched.modify active fun arr => arr.addActive 1, h)

/-- Reference: `rq_prio_fifo_peek` (`src/scheduler_priority_fifo.c:33`). -/
def rqPrioFifoPeek (a : Addr) (sched : RtRunqueue) (h : Heap) :
    Outcome (VoidPtr × RtRunqueue × Heap) := do
  let (_, sched, h) ← rqPrioFifoUpdateSched a sched h
  let active ← followArray sched.active
  if (sched.arrays active).nrActive ≠ 0 then
    let nextPrio ← queueIndex (getFirstNotEmptyListIndex (sched.arrays active).queue)
    let pcb ← linkedlistGetFirst ((sched.arrays active).queue nextPrio) h
    return (pcb, sched, h)
  else
    return (NULL, sched, h)

/-- Reference: `rq_prio_fifo_out` (`src/scheduler_priority_fifo.c:45`). -/
def rqPrioFifoOut (a : Addr) (sched : RtRunqueue) (h : Heap) :
    Outcome (VoidPtr × RtRunqueue × Heap) := do
  let (_, sched, h) ← rqPrioFifoUpdateSched a sched h
  let active ← followArray sched.active
  if (sched.arrays active).nrActive ≠ 0 then
    let sched := sched.modify active fun arr => arr.addActive (-1)
    let sched := { sched with nrRunning := sched.nrRunning - 1 }
    let nextPrio ← queueIndex (getFirstNotEmptyListIndex (sched.arrays active).queue)
    let (pcb, list, h) ← linkedlistPop ((sched.arrays active).queue nextPrio) h
    return (pcb, sched.modify active fun arr => arr.setQueue nextPrio list, h)
  else
    return (NULL, sched, h)

/-! ## The simple run queue -/

/-- Reference: `rq_simple_fifo_in` (`src/scheduler_simple_fifo.c:5`). -/
def rqSimpleFifoIn (a : Addr) (rq : RtSimpleRunqueue) (newPcb : VoidPtr) (h : Heap) :
    Outcome (RtSimpleRunqueue × Heap) := do
  let (active, h) ← linkedlistPush a rq.active newPcb h
  return (⟨rq.nrRunning + 1, active⟩, h)

/-- Reference: `rq_simple_fifo_out` (`src/scheduler_simple_fifo.c:15`). -/
def rqSimpleFifoOut (rq : RtSimpleRunqueue) (h : Heap) :
    Outcome (VoidPtr × RtSimpleRunqueue × Heap) := do
  if rq.nrRunning ≠ 0 then
    let (pcb, active, h) ← linkedlistPop rq.active h
    return (pcb, ⟨rq.nrRunning - 1, active⟩, h)
  else
    return (NULL, rq, h)

/-- Reference: `rq_simple_fifo_peek` (`src/scheduler_simple_fifo.c:25`). -/
def rqSimpleFifoPeek (rq : RtSimpleRunqueue) (h : Heap) : Outcome VoidPtr :=
  if rq.nrRunning ≠ 0 then linkedlistGetFirst rq.active h else return NULL

/-! ## The interface -/

/-- What `sched_data` points to. -/
inductive SchedData
  | simple (rq : RtSimpleRunqueue)
  | prio (rq : RtRunqueue)

/-- Reference: `struct s_i_sched` (`headers/scheduler_data_interface.h:12`); `init` has been
called. -/
structure SISched where
  schedData : SchedData
  insert : InsertFn
  peek : TakeFn
  pop : TakeFn

/-- Call an `insert` function. -/
def SISched.callInsert (a : Addr) (f : InsertFn) (schedData : SchedData) (newPcb : VoidPtr)
    (currentPriority : Int) (h : Heap) : Outcome (SchedData × Heap) :=
  match f, schedData with
  | .rqPrioFifoIn, .prio rq => do
    let (rq, h) ← rqPrioFifoIn a rq newPcb currentPriority h
    return (.prio rq, h)
  | .rqSimpleFifoISchedAdptIn, .simple rq => do
    let (rq, h) ← rqSimpleFifoIn a rq newPcb h
    return (.simple rq, h)
  | _, _ => throw .wildPointer

/-- Call a `peek` or `pop` function. -/
def SISched.callTake (a : Addr) (f : TakeFn) (schedData : SchedData) (h : Heap) :
    Outcome (VoidPtr × SchedData × Heap) :=
  match f, schedData with
  | .rqPrioFifoOut, .prio rq => do
    let (pcb, rq, h) ← rqPrioFifoOut a rq h
    return (pcb, .prio rq, h)
  | .rqPrioFifoPeek, .prio rq => do
    let (pcb, rq, h) ← rqPrioFifoPeek a rq h
    return (pcb, .prio rq, h)
  | .rqSimpleFifoISchedAdptPeek, .simple rq => do
    let pcb ← rqSimpleFifoPeek rq h
    return (pcb, .simple rq, h)
  | .rqSimpleFifoISchedAdptOut, .simple rq => do
    let (pcb, rq, h) ← rqSimpleFifoOut rq h
    return (pcb, .simple rq, h)
  | _, _ => throw .wildPointer

/-- Reference: `i_sched_peek` (`src/scheduler_data_interface.c:26`). -/
def iSchedPeek (a : Addr) (iSched : SISched) (h : Heap) : Outcome (VoidPtr × SISched × Heap) := do
  let (pcb, schedData, h) ← SISched.callTake a iSched.peek iSched.schedData h
  return (pcb, { iSched with schedData }, h)

/-- Reference: `i_sched_pop` (`src/scheduler_data_interface.c:30`). -/
def iSchedPop (a : Addr) (iSched : SISched) (h : Heap) : Outcome (VoidPtr × SISched × Heap) := do
  let (pcb, schedData, h) ← SISched.callTake a iSched.pop iSched.schedData h
  return (pcb, { iSched with schedData }, h)

/-- Reference: `i_sched_insert` (`src/scheduler_data_interface.c:34`). -/
def iSchedInsert (a : Addr) (iSched : SISched) (newPcb : VoidPtr) (currentPriority : Int)
    (h : Heap) : Outcome (SISched × Heap) := do
  let (schedData, h) ←
    SISched.callInsert a iSched.insert iSched.schedData newPcb currentPriority h
  return ({ iSched with schedData }, h)

/-- Reference: `rq_prio_fifo_i_sched_inplement` (`src/scheduler_priority_fifo.c:121`). -/
def rqPrioFifoISchedInplement (rq : RtRunqueue) : SISched :=
  ⟨.prio rq, .rqPrioFifoIn, .rqPrioFifoOut, .rqPrioFifoPeek⟩

/-- Reference: `rq_simple_fifo_i_sched_implement` (`src/scheduler_simple_fifo.c:47`). -/
def rqSimpleFifoISchedImplement (rq : RtSimpleRunqueue) : SISched :=
  ⟨.simple rq, .rqSimpleFifoISchedAdptIn, .rqSimpleFifoISchedAdptPeek, .rqSimpleFifoISchedAdptOut⟩

end SeKernel.Nodes
