import Mathlib.Algebra.BigOperators.Fin
import SeKernel.Fault
import SeKernel.Lib.Buckets
import SeKernel.LinkedList.Sequence

/-!
# The run queues

`src/runqueues.c`, `src/scheduler_priority_fifo.c` and `src/scheduler_simple_fifo.c`. The queues
hold pointers to processes that they never follow, except that an insertion reads
`current_priority`; so `α` is any type of pointers and the priority read is an argument. A list is
the sequence of its data (`SeKernel.Seq`). The two pointers `active` and `expired` of a priority
run queue are kept as pointers, because the operations exchange them and because
`rq_prio_fifo_init` sets only one of them.
-/

namespace SeKernel

/-- Reference: `MAX_PRIO` (`headers/runqueue_s.h:4`). -/
abbrev maxPrio : Nat := 20

/-- Reference: `struct rt_prio_array` (`headers/runqueue_s.h:8`). -/
structure RtPrioArray (α : Type) where
  nrActive : Int
  queue : Fin maxPrio → List α

/-- Where a priority array can live: inside its run queue, or in memory of its own. -/
inductive PrioArrayRef
  | array (i : Fin 2)
  | mallocd
  deriving DecidableEq, Repr

/-- Reference: `struct rt_runqueue` (`headers/runqueue_s.h:15`). A pointer that was never set is
`none`; `arrays` is the memory behind the others. -/
structure RtRunqueue (α : Type) where
  nrRunning : Int
  active : Option PrioArrayRef
  expired : Option PrioArrayRef
  arrays : PrioArrayRef → RtPrioArray α

/-- Reference: `struct rt_simple_runqueue` (`headers/runqueue_s.h:24`). -/
structure RtSimpleRunqueue (α : Type) where
  nrRunning : Int
  active : List α

variable {α : Type}

/-! ## Initialisation -/

/-- Reference: `prio_array_init` (`src/runqueues.c:3`). -/
def prioArrayInit : RtPrioArray α := ⟨0, fun _ => []⟩

/-- Reference: `runqueue_init` (`src/runqueues.c:10`). -/
def runqueueInit (runq : RtRunqueue α) : RtRunqueue α where
  nrRunning := 0
  active := some (.array 0)
  expired := some (.array 1)
  arrays := Function.update (Function.update runq.arrays (.array 0) prioArrayInit) (.array 1)
    prioArrayInit

/-- Reference: `rq_prio_fifo_init` (`src/scheduler_priority_fifo.c:20`). -/
def rqPrioFifoInit (sched : RtRunqueue α) : RtRunqueue α :=
  { sched with
    nrRunning := 0
    expired := some .mallocd
    arrays := Function.update sched.arrays .mallocd prioArrayInit }

/-! ## The priority run queue -/

/-- Follow a pointer to a priority array. -/
def followArray : Option PrioArrayRef → Outcome PrioArrayRef
  | none => throw .wildPointer
  | some r => pure r

/-- `queue[i]` for an `int i`. -/
def queueIndex (i : Int) : Outcome (Fin maxPrio) :=
  if h : 0 ≤ i ∧ i < maxPrio then pure ⟨i.toNat, by omega⟩ else throw .outOfBounds

/-- Change the array behind a pointer. -/
def RtRunqueue.modify (sched : RtRunqueue α) (r : PrioArrayRef)
    (f : RtPrioArray α → RtPrioArray α) :
    RtRunqueue α :=
  { sched with arrays := Function.update sched.arrays r (f (sched.arrays r)) }

/-- Change one list of an array. -/
def RtPrioArray.setQueue (arr : RtPrioArray α) (i : Fin maxPrio) (xs : List α) : RtPrioArray α :=
  { arr with queue := Function.update arr.queue i xs }

/-- Add to the counter of an array. -/
def RtPrioArray.addActive (arr : RtPrioArray α) (k : Int) : RtPrioArray α :=
  { arr with nrActive := arr.nrActive + k }

/-- Reference: `get_first_not_empty_list_index` (`src/scheduler_priority_fifo.c:112`). -/
def getFirstNotEmptyListIndex (arr : Fin maxPrio → List α) : Int :=
  match Buckets.first arr with
  | some i => i
  | none => -1

/-- Reference: `rq_prio_fifo_in` (`src/scheduler_priority_fifo.c:8`). `nr_running` stays as it is:
the statement on line 17 has no effect. -/
def rqPrioFifoIn (sched : RtRunqueue α) (newPcb : α) (currentPriority : Int) :
    Outcome (RtRunqueue α) := do
  let r ← followArray sched.expired
  let pcbPriority : Int :=
    if (maxPrio : Int) ≤ currentPriority then maxPrio - 1 else currentPriority
  let i ← queueIndex pcbPriority
  pure <| sched.modify r fun arr =>
    (arr.setQueue i (Seq.linkedlistPush (arr.queue i) newPcb)).addActive 1

/-- Reference: `_rq_prio_fifo_update_sched` (`src/scheduler_priority_fifo.c:88`). -/
def rqPrioFifoUpdateSched (sched : RtRunqueue α) : Outcome (Int × RtRunqueue α) := do
  let e ← followArray sched.expired
  if (sched.arrays e).nrActive = 0 then
    pure (0, sched)
  else
    let a ← followArray sched.active
    if (sched.arrays a).nrActive = 0 then
      pure (1, { sched with active := some e, expired := some a })
    else
      let nextPrio ← queueIndex (getFirstNotEmptyListIndex (sched.arrays e).queue)
      match Seq.linkedlistPop ((sched.arrays e).queue nextPrio) with
      | (some nextPcb, rest) =>
        let sched := sched.modify e fun arr => arr.setQueue nextPrio rest
        let sched := sched.modify a fun arr =>
          arr.setQueue nextPrio (Seq.linkedlistPush (arr.queue nextPrio) nextPcb)
        let sched := sched.modify e fun arr => arr.addActive (-1)
        pure (1, sched.modify a fun arr => arr.addActive 1)
      -- not reached: `nextPrio` is the index of a nonempty list
      | (none, _) => throw .nullDeref

/-- Reference: `rq_prio_fifo_peek` (`src/scheduler_priority_fifo.c:33`). -/
def rqPrioFifoPeek (sched : RtRunqueue α) : Outcome (Option α × RtRunqueue α) := do
  let (_, sched) ← rqPrioFifoUpdateSched sched
  let a ← followArray sched.active
  if (sched.arrays a).nrActive ≠ 0 then
    let nextPrio ← queueIndex (getFirstNotEmptyListIndex (sched.arrays a).queue)
    pure (Seq.linkedlistGetFirst ((sched.arrays a).queue nextPrio), sched)
  else
    pure (none, sched)

/-- Reference: `rq_prio_fifo_out` (`src/scheduler_priority_fifo.c:45`). -/
def rqPrioFifoOut (sched : RtRunqueue α) : Outcome (Option α × RtRunqueue α) := do
  let (_, sched) ← rqPrioFifoUpdateSched sched
  let a ← followArray sched.active
  if (sched.arrays a).nrActive ≠ 0 then
    let sched := sched.modify a fun arr => arr.addActive (-1)
    let sched := { sched with nrRunning := sched.nrRunning - 1 }
    let nextPrio ← queueIndex (getFirstNotEmptyListIndex (sched.arrays a).queue)
    let (pcb, rest) := Seq.linkedlistPop ((sched.arrays a).queue nextPrio)
    pure (pcb, sched.modify a fun arr => arr.setQueue nextPrio rest)
  else
    pure (none, sched)

/-! ## The simple run queue -/

/-- Reference: `rq_simple_fifo_init` (`src/scheduler_simple_fifo.c:10`). It and the three operations
below take an `rt_runqueue *`; the object is an `rt_simple_runqueue`, whose list stands at the
offset of `active`. -/
def rqSimpleFifoInit (_rq : RtSimpleRunqueue α) : RtSimpleRunqueue α := ⟨0, []⟩

/-- Reference: `rq_simple_fifo_in` (`src/scheduler_simple_fifo.c:5`). -/
def rqSimpleFifoIn (rq : RtSimpleRunqueue α) (newPcb : α) : RtSimpleRunqueue α :=
  ⟨rq.nrRunning + 1, Seq.linkedlistPush rq.active newPcb⟩

/-- Reference: `rq_simple_fifo_out` (`src/scheduler_simple_fifo.c:15`). -/
def rqSimpleFifoOut (rq : RtSimpleRunqueue α) : Option α × RtSimpleRunqueue α :=
  if rq.nrRunning ≠ 0 then
    let (pcb, rest) := Seq.linkedlistPop rq.active
    (pcb, ⟨rq.nrRunning - 1, rest⟩)
  else
    (none, rq)

/-- Reference: `rq_simple_fifo_peek` (`src/scheduler_simple_fifo.c:25`). -/
def rqSimpleFifoPeek (rq : RtSimpleRunqueue α) : Option α :=
  if rq.nrRunning ≠ 0 then Seq.linkedlistGetFirst rq.active else none

end SeKernel
