import SeKernel.RunQueue.Prio
import SeKernel.RunQueue.Simple

/-!
# The scheduler's queue interface

`src/scheduler_data_interface.c`: a queue object and the functions that work on it. A function
pointer is the name of the function it points to. `rq_prio_fifo_i_sched_inplement` passes
`rq_prio_fifo_out` where `i_sched_implement` takes the `peek` function, and `rq_prio_fifo_peek`
where it takes `pop`; so `i_sched_peek` takes a process out of a priority queue and leaves a simple
queue as it is (`iSchedPeek_spec`).
-/

namespace SeKernel

open Buckets

/-- Reference: `SCHED_PRIO_RR` (`headers/scheduler_data_interface.h:7`). -/
def schedPrioRr : Int := 1

/-- Reference: `SCHED_PRIO_FIFO` (`headers/scheduler_data_interface.h:8`). -/
def schedPrioFifo : Int := 2

/-- Reference: `SCHED_FIFO` (`headers/scheduler_data_interface.h:9`). -/
def schedFifo : Int := 3

/-- Reference: `SCHED_RR` (`headers/scheduler_data_interface.h:10`). -/
def schedRr : Int := 4

/-- What `sched_data` points to. -/
inductive SchedData (α : Type)
  | simple (rq : RtSimpleRunqueue α)
  | prio (rq : RtRunqueue α)

/-- The functions that `insert` can point to. -/
inductive InsertFn
  | rqPrioFifoIn
  | rqSimpleFifoISchedAdptIn
  deriving DecidableEq, Repr

/-- The functions that `init` can point to. -/
inductive InitFn
  | rqPrioFifoInit
  | rqSimpleFifoISchedInit
  deriving DecidableEq, Repr

/-- The functions that `peek` and `pop` can point to. -/
inductive TakeFn
  | rqPrioFifoOut
  | rqPrioFifoPeek
  | rqSimpleFifoISchedAdptPeek
  | rqSimpleFifoISchedAdptOut
  deriving DecidableEq, Repr

/-- Reference: `struct s_i_sched` (`headers/scheduler_data_interface.h:12`). -/
structure SISched (α : Type) where
  schedData : SchedData α
  insert : InsertFn
  init : InitFn
  peek : TakeFn
  pop : TakeFn

variable {α : Type}

/-! ## Calls through the interface -/

/-- Call an `insert` function; it reads the priority of the new process where it needs it. A
function called on the other kind of object follows wild pointers. -/
def SISched.callInsert (f : InsertFn) (schedData : SchedData α) (newPcb : α)
    (currentPriority : Int) :
    Outcome (SchedData α) :=
  match f, schedData with
  | .rqPrioFifoIn, .prio rq => do
    let rq ← rqPrioFifoIn rq newPcb currentPriority
    return .prio rq
  | .rqSimpleFifoISchedAdptIn, .simple rq => return .simple (rqSimpleFifoIn rq newPcb)
  | _, _ => throw .wildPointer

/-- Call an `init` function. `rq_simple_fifo_i_sched_init` (`src/scheduler_simple_fifo.c:64`) takes
the queue for an interface object and follows its first bytes, which nothing has set. -/
def SISched.callInit (f : InitFn) (schedData : SchedData α) : Outcome (SchedData α) :=
  match f, schedData with
  | .rqPrioFifoInit, .prio rq => return .prio (rqPrioFifoInit rq)
  | .rqPrioFifoInit, .simple _ => throw .wildPointer
  | .rqSimpleFifoISchedInit, _ => throw .wildPointer

/-- Call a `peek` or `pop` function. -/
def SISched.callTake (f : TakeFn) (schedData : SchedData α) : Outcome (Option α × SchedData α) :=
  match f, schedData with
  | .rqPrioFifoOut, .prio rq => do
    let (pcb, rq) ← rqPrioFifoOut rq
    return (pcb, .prio rq)
  | .rqPrioFifoPeek, .prio rq => do
    let (pcb, rq) ← rqPrioFifoPeek rq
    return (pcb, .prio rq)
  | .rqSimpleFifoISchedAdptPeek, .simple rq => return (rqSimpleFifoPeek rq, .simple rq)
  | .rqSimpleFifoISchedAdptOut, .simple rq =>
    let (pcb, rq) := rqSimpleFifoOut rq
    return (pcb, .simple rq)
  | _, _ => throw .wildPointer

/-- Reference: `i_sched_init` (`src/scheduler_data_interface.c:22`). -/
def iSchedInit (iSched : SISched α) : Outcome (SISched α) := do
  let schedData ← SISched.callInit iSched.init iSched.schedData
  return { iSched with schedData }

/-- Reference: `i_sched_peek` (`src/scheduler_data_interface.c:26`). -/
def iSchedPeek (iSched : SISched α) : Outcome (Option α × SISched α) := do
  let (pcb, schedData) ← SISched.callTake iSched.peek iSched.schedData
  return (pcb, { iSched with schedData })

/-- Reference: `i_sched_pop` (`src/scheduler_data_interface.c:30`). -/
def iSchedPop (iSched : SISched α) : Outcome (Option α × SISched α) := do
  let (pcb, schedData) ← SISched.callTake iSched.pop iSched.schedData
  return (pcb, { iSched with schedData })

/-- Reference: `i_sched_insert` (`src/scheduler_data_interface.c:34`). -/
def iSchedInsert (iSched : SISched α) (newPcb : α) (currentPriority : Int) :
    Outcome (SISched α) := do
  let schedData ← SISched.callInsert iSched.insert iSched.schedData newPcb currentPriority
  return { iSched with schedData }

/-! ## Configuration -/

/-- Reference: `i_sched_implement` (`src/scheduler_data_interface.c:5`). -/
def iSchedImplement (schedData : SchedData α) (insert : InsertFn) (init : InitFn)
    (peek out : TakeFn) : SISched α where
  schedData := schedData
  insert := insert
  init := init
  peek := peek
  pop := out

/-- `rq` is the memory that `malloc` returns. Reference: `rq_prio_fifo_i_sched_inplement`
(`src/scheduler_priority_fifo.c:121`). -/
def rqPrioFifoISchedInplement (rq : RtRunqueue α) : SISched α :=
  iSchedImplement (.prio rq) .rqPrioFifoIn .rqPrioFifoInit .rqPrioFifoOut .rqPrioFifoPeek

/-- `rq` is the memory that `malloc` returns. Reference: `rq_simple_fifo_i_sched_implement`
(`src/scheduler_simple_fifo.c:47`). -/
def rqSimpleFifoISchedImplement (rq : RtSimpleRunqueue α) : SISched α :=
  iSchedImplement (.simple rq) .rqSimpleFifoISchedAdptIn .rqSimpleFifoISchedInit
    .rqSimpleFifoISchedAdptPeek .rqSimpleFifoISchedAdptOut

/-- The policies with a priority queue. -/
def PrioPolicy (policy : Int) : Prop := policy = schedPrioRr ∨ policy = schedPrioFifo

instance (policy : Int) : Decidable (PrioPolicy policy) := inferInstanceAs (Decidable (_ ∨ _))

/-- `prioRq` and `simpleRq` are what `malloc` returns for a queue of each kind. Reference:
`i_sched_configure` (`src/scheduler_data_interface.c:42`). -/
def iSchedConfigure (prioRq : RtRunqueue α) (simpleRq : RtSimpleRunqueue α) (policy : Int) :
    Outcome (SISched α) :=
  iSchedInit (if PrioPolicy policy then rqPrioFifoISchedInplement prioRq
    else rqSimpleFifoISchedImplement simpleRq)

/-! ## A correctly initialised back end -/

/-- The processes of a queue object. -/
def SchedData.queued : SchedData α → Multiset α
  | .simple rq => rq.active
  | .prio rq =>
    match rq.active, rq.expired with
    | some a, some e => elements (rq.entries a e)
    | _, _ => 0

/-- The queue object that the policy asks for, in a state that its operations keep. -/
inductive BackEndOk (policy : Int) : SISched α → Prop
  | prio {rq : RtRunqueue α} {a e : PrioArrayRef} (hpolicy : PrioPolicy policy)
      (hok : PrioOk rq a e) :
    BackEndOk policy (rqPrioFifoISchedInplement rq)
  | simple {rq : RtSimpleRunqueue α} (hpolicy : ¬ PrioPolicy policy)
    (hcount : rq.nrRunning = rq.active.length) : BackEndOk policy (rqSimpleFifoISchedImplement rq)

/-- The front of a simple queue. -/
def SchedData.front? : SchedData α → Option α
  | .simple rq => rq.active.head?
  | .prio _ => none

/-- The process that the queue is going to answer. -/
def SchedData.next? : SchedData α → Option α
  | .simple rq => rq.active.head?
  | .prio rq =>
    match rq.active, rq.expired with
    | some a, some e => rq.next? a e
    | _, _ => none

variable {policy : Int} {iSched : SISched α}

theorem PrioOk.queued {rq : RtRunqueue α} {a e : PrioArrayRef} (hok : PrioOk rq a e) :
    (SchedData.prio rq).queued = elements (rq.entries a e) := by
  unfold SchedData.queued
  dsimp only
  rw [hok.active, hok.expired]

theorem PrioOk.next? {rq : RtRunqueue α} {a e : PrioArrayRef} (hok : PrioOk rq a e) :
    (SchedData.prio rq).next? = rq.next? a e := by
  unfold SchedData.next?
  dsimp only
  rw [hok.active, hok.expired]

/-- An insertion adds one process; on a priority queue the priority must not be negative.
Reference: `i_sched_insert` (`src/scheduler_data_interface.c:34`). -/
theorem iSchedInsert_spec (h : BackEndOk policy iSched) (p : α) {currentPriority : Int}
    (hprio : PrioPolicy policy → 0 ≤ currentPriority) :
    ∃ iSched', iSchedInsert iSched p currentPriority = .ok iSched' ∧ BackEndOk policy iSched' ∧
      iSched'.schedData.queued = iSched.schedData.queued + {p} := by
  cases h with
  | prio hpolicy hok =>
    rename_i rq a e
    obtain ⟨rq', hin, hok', hent⟩ := rqPrioFifoIn_spec hok p (hprio hpolicy)
    refine ⟨rqPrioFifoISchedInplement rq', ?_, .prio hpolicy hok', ?_⟩
    · simp [iSchedInsert, rqPrioFifoISchedInplement, iSchedImplement, SISched.callInsert, hin]
    · show (SchedData.prio rq').queued = (SchedData.prio rq).queued + {p}
      rw [hok'.queued, hok.queued, hent, elements_add, elements_singleton]
  | simple hpolicy hcount =>
    rename_i rq
    refine ⟨rqSimpleFifoISchedImplement (rqSimpleFifoIn rq p), rfl, .simple hpolicy ?_, ?_⟩
    · simp [rqSimpleFifoIn, Seq.linkedlistPush, hcount]
    · rfl

/-- A negative priority indexes the priority queue outside its bounds. Reference: `rq_prio_fifo_in`
(`src/scheduler_priority_fifo.c:8`). -/
theorem iSchedInsert_negative (h : BackEndOk policy iSched) (p : α) {currentPriority : Int}
    (hpolicy : PrioPolicy policy) (hprio : currentPriority < 0) :
    iSchedInsert iSched p currentPriority = .error .outOfBounds := by
  cases h with
  | simple hnot => exact absurd hpolicy hnot
  | prio _ hok =>
    have hmax : ¬ 20 ≤ currentPriority := by omega
    have hindex : queueIndex currentPriority = .error .outOfBounds := by
      unfold queueIndex
      rw [dif_neg (by omega)]
      rfl
    simp [iSchedInsert, rqPrioFifoISchedInplement, iSchedImplement, SISched.callInsert,
      rqPrioFifoIn, hok.expired, followArray, hmax, hindex]

/-- Either way an insertion follows no wild pointer and no `NULL`. -/
theorem iSchedInsert_returns (h : BackEndOk policy iSched) (p : α) (currentPriority : Int) :
    (∃ iSched', iSchedInsert iSched p currentPriority = .ok iSched' ∧ BackEndOk policy iSched') ∨
      iSchedInsert iSched p currentPriority = .error .outOfBounds := by
  by_cases hprio : PrioPolicy policy → 0 ≤ currentPriority
  · obtain ⟨iSched', hin, hback, -⟩ := iSchedInsert_spec h p hprio
    exact .inl ⟨iSched', hin, hback⟩
  · obtain ⟨hpolicy, hneg⟩ := Classical.not_imp.1 hprio
    exact .inr (iSchedInsert_negative h p hpolicy (not_le.1 hneg))

/-- `i_sched_peek` answers the next process and `NULL` on the empty queue only; on a priority queue
it takes the process out, on a simple queue it reads the front. Reference: `i_sched_peek`
(`src/scheduler_data_interface.c:26`). -/
theorem iSchedPeek_spec (h : BackEndOk policy iSched) :
    ∃ r iSched', iSchedPeek iSched = .ok (r, iSched') ∧ BackEndOk policy iSched' ∧
      r = iSched.schedData.next? ∧ (r = none ↔ iSched.schedData.queued = 0) ∧
      ((PrioPolicy policy ∧ iSched.schedData.queued = iSched'.schedData.queued + r.elim 0 ({·})) ∨
        (¬ PrioPolicy policy ∧ iSched' = iSched ∧ r = iSched.schedData.front?)) := by
  cases h with
  | prio hpolicy hok =>
    rename_i rq a e
    have hqueued := hok.queued
    obtain ⟨r, rq', a', e', hout, hok', hnext, hcases⟩ := rqPrioFifoOut_spec hok
    have hpeek : iSchedPeek (rqPrioFifoISchedInplement rq) =
        .ok (r, rqPrioFifoISchedInplement rq') := by
      simp [iSchedPeek, rqPrioFifoISchedInplement, iSchedImplement, SISched.callTake, hout]
    refine ⟨r, rqPrioFifoISchedInplement rq', hpeek, .prio hpolicy hok',
      hnext.trans hok.next?.symm, ?_⟩
    show (r = none ↔ (SchedData.prio rq).queued = 0) ∧
      (PrioPolicy policy ∧
        (SchedData.prio rq).queued = (SchedData.prio rq').queued + r.elim 0 ({·}) ∨ _)
    rw [hok'.queued, hqueued]
    obtain ⟨rfl, h0, h0'⟩ | ⟨x, i, rfl, -, hent⟩ := hcases
    · exact ⟨by simp [h0], .inl ⟨hpolicy, by simp [h0, h0']⟩⟩
    · rw [← hent, elements_add, elements_singleton]
      exact ⟨by simp, .inl ⟨hpolicy, rfl⟩⟩
  | simple hpolicy hcount =>
    rename_i rq
    have hpeek := rqSimpleFifoPeek_eq hcount
    refine ⟨_, rqSimpleFifoISchedImplement rq, rfl, .simple hpolicy hcount, hpeek, ?_,
      .inr ⟨hpolicy, rfl, hpeek⟩⟩
    rw [hpeek, List.head?_eq_none_iff]
    exact (Multiset.coe_eq_zero _).symm

/-- Only a simple queue has a front, and it is one of its processes. -/
theorem BackEndOk.of_front? {x : α} (h : BackEndOk policy iSched)
    (hfront : iSched.schedData.front? = some x) :
    ∃ rq, iSched = rqSimpleFifoISchedImplement rq ∧ x ∈ rq.active := by
  cases h with
  | prio => cases hfront
  | simple => exact ⟨_, rfl, List.mem_of_mem_head? hfront⟩

end SeKernel
