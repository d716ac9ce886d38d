import SeKernel.Lib.Machine
import SeKernel.Scheduler.Interface

/-!
# The back ends behind the interface

What `i_sched_configure` sets up, and what the interface's calls do to it. No simple queue is ever
set up: `rq_simple_fifo_i_sched_init` expects the interface object and is called with the queue. A
priority queue is set up without its active array, so that the first `i_sched_peek` or `i_sched_pop`
follows a pointer that was never set (`iSchedConfigure_honours_iff`). On a queue that is initialised
correctly the two slots of a priority queue are still exchanged (`SchedOp.honoured_iff`).
-/

namespace SeKernel

open Buckets

/-- The calls of the interface; an insertion comes with the `current_priority` it reads. -/
inductive SchedOp (α : Type)
  | insert (newPcb : α) (currentPriority : Int)
  | peek
  | pop

variable {α : Type}

/-- Priorities are not negative. -/
def SchedOp.Valid : SchedOp α → Prop
  | .insert _ currentPriority => 0 ≤ currentPriority
  | .peek => True
  | .pop => True

/-- The call looks at the queue. -/
def SchedOp.Looks : SchedOp α → Prop
  | .insert _ _ => False
  | .peek => True
  | .pop => True

/-- One call. -/
def SchedOp.exec : SchedOp α → SISched α → Outcome (Option α × SISched α)
  | .insert newPcb currentPriority, iSched => do
    let iSched ← iSchedInsert iSched newPcb currentPriority
    return (none, iSched)
  | .peek, iSched => iSchedPeek iSched
  | .pop, iSched => iSchedPop iSched

/-- The processes of a queue object, be its two pointers set or not. -/
def SchedData.held : SchedData α → Multiset α
  | .simple rq => rq.active
  | .prio rq => elements rq.allEntries

/-- The call returns and does what the interface says: an insertion adds the process, a peek keeps
the processes, a pop removes the one it returns, and `NULL` means that there is none. -/
def SchedOp.Honoured : SchedOp α → SISched α → Prop
  | .insert newPcb currentPriority, iSched =>
    ∃ iSched', iSchedInsert iSched newPcb currentPriority = .ok iSched' ∧
      iSched'.schedData.held = iSched.schedData.held + {newPcb}
  | .peek, iSched =>
    ∃ r iSched', iSchedPeek iSched = .ok (r, iSched') ∧
      iSched'.schedData.held = iSched.schedData.held ∧ (r = none ↔ iSched.schedData.held = 0)
  | .pop, iSched =>
    ∃ r iSched', iSchedPop iSched = .ok (r, iSched') ∧
      iSched'.schedData.held + r.elim 0 ({·}) = iSched.schedData.held ∧
      (r = none ↔ iSched.schedData.held = 0)

/-- A set-up ends in an empty queue, on which every call of the sequence returns and does what the
interface says. -/
def HonoursInterface (configured : Outcome (SISched α)) (ops : List (SchedOp α)) : Prop :=
  ∃ iSched, configured = .ok iSched ∧ iSched.schedData.held = 0 ∧
    Machine.Meets SchedOp.exec SchedOp.Honoured ops iSched

/-- What `malloc` returns for an `rt_runqueue`: the pointers are not set, the rest is arbitrary. -/
def mallocRunqueue (nrRunning : Int) (arrays : PrioArrayRef → RtPrioArray α) : RtRunqueue α :=
  ⟨nrRunning, none, none, arrays⟩

/-- A priority queue without an active array. -/
structure NoActive (rq : RtRunqueue α) (e : PrioArrayRef) : Prop where
  active : rq.active = none
  expired : rq.expired = some e

variable {rq : RtRunqueue α} {a e : PrioArrayRef} {policy : Int} {iSched : SISched α}

/-! ## A queue without an active array -/

theorem NoActive.held (h : NoActive rq e) :
    (SchedData.prio rq).held = elements (rq.arrays e).entries := by
  simp [SchedData.held, RtRunqueue.allEntries, RtRunqueue.behind, h.active, h.expired]

/-- `rq_prio_fifo_init` sets the expired array only. Reference: `rq_prio_fifo_init`
(`src/scheduler_priority_fifo.c:20`). -/
theorem rqPrioFifoInit_noActive (nrRunning : Int) (arrays : PrioArrayRef → RtPrioArray α) :
    NoActive (rqPrioFifoInit (mallocRunqueue nrRunning arrays)) .mallocd ∧
      (SchedData.prio (rqPrioFifoInit (mallocRunqueue nrRunning arrays))).held = 0 := by
  have hinit : NoActive (rqPrioFifoInit (mallocRunqueue nrRunning arrays)) .mallocd := ⟨rfl, rfl⟩
  refine ⟨hinit, ?_⟩
  rw [hinit.held, elements_eq_zero]
  have hfresh :
      (rqPrioFifoInit (mallocRunqueue nrRunning arrays)).arrays .mallocd = prioArrayInit := by
    simp [rqPrioFifoInit]
  rw [hfresh]
  exact entries_empty

/-- An insertion does not need the active array. Reference: `rq_prio_fifo_in`
(`src/scheduler_priority_fifo.c:8`). -/
theorem NoActive.insert (h : NoActive rq e) (p : α) {currentPriority : Int}
    (hprio : 0 ≤ currentPriority) :
    ∃ rq', iSchedInsert (rqPrioFifoISchedInplement rq) p currentPriority =
        .ok (rqPrioFifoISchedInplement rq') ∧ NoActive rq' e ∧
      (SchedData.prio rq').held = (SchedData.prio rq).held + {p} := by
  let i := prioIndex currentPriority
  let rq' : RtRunqueue α := rq.modify e fun arr =>
    (arr.setQueue i (Seq.linkedlistPush (arr.queue i) p)).addActive 1
  have hin : rqPrioFifoIn rq p currentPriority = .ok rq' := by
    simp only [rqPrioFifoIn, h.expired, followArray, Outcome.pure_eq, Outcome.ok_bind,
      queueIndex_prioIndex hprio]
    rfl
  have hok : NoActive rq' e := ⟨h.active, h.expired⟩
  have hentries : (rq'.arrays e).entries = (rq.arrays e).entries + {(p, i)} := by
    rw [RtRunqueue.modify_arrays_self]
    exact entries_push _ _ _
  refine ⟨rq', ?_, hok, ?_⟩
  · simp [iSchedInsert, rqPrioFifoISchedInplement, iSchedImplement, SISched.callInsert, hin]
  · rw [hok.held, h.held, hentries, elements_add, elements_singleton]

/-- A look at the queue follows the pointer to the active array. Reference: `rq_prio_fifo_peek`
(`src/scheduler_priority_fifo.c:33`), `rq_prio_fifo_out` (`src/scheduler_priority_fifo.c:45`). -/
theorem NoActive.look (h : NoActive rq e) :
    rqPrioFifoPeek rq = .error .wildPointer ∧ rqPrioFifoOut rq = .error .wildPointer := by
  by_cases he : (rq.arrays e).nrActive = 0
  · simp [rqPrioFifoPeek, rqPrioFifoOut, rqPrioFifoUpdateSched, h.expired, h.active,
      followArray, he]
  · simp [rqPrioFifoPeek, rqPrioFifoOut, rqPrioFifoUpdateSched, h.expired, h.active,
      followArray, he]

theorem NoActive.not_honoured (h : NoActive rq e) {op : SchedOp α} (hop : op.Looks) :
    ¬ op.Honoured (rqPrioFifoISchedInplement rq) := by
  cases op with
  | insert p c => exact hop.elim
  | peek =>
    rintro ⟨r, iSched', hpeek, -⟩
    simp [iSchedPeek, rqPrioFifoISchedInplement, iSchedImplement, SISched.callTake,
      h.look.2] at hpeek
  | pop =>
    rintro ⟨r, iSched', hpop, -⟩
    simp [iSchedPop, rqPrioFifoISchedInplement, iSchedImplement, SISched.callTake, h.look.1] at hpop

/-- Without an active array a sequence of calls is honoured if and only if no call looks at the
queue. -/
theorem NoActive.meets_iff (h : NoActive rq e) {ops : List (SchedOp α)}
    (hvalid : ∀ op ∈ ops, op.Valid) :
    Machine.Meets SchedOp.exec SchedOp.Honoured ops (rqPrioFifoISchedInplement rq) ↔
      ∀ op ∈ ops, ¬ op.Looks := by
  induction ops generalizing rq with
  | nil => simp [Machine.Meets]
  | cons op ops ih =>
    rw [List.forall_mem_cons] at hvalid ⊢
    cases op with
    | peek =>
      have hnot : ¬ SchedOp.peek.Honoured (rqPrioFifoISchedInplement rq) := h.not_honoured trivial
      exact ⟨fun hmeets => absurd hmeets.1 hnot, fun hno => (hno.1 trivial).elim⟩
    | pop =>
      have hnot : ¬ SchedOp.pop.Honoured (rqPrioFifoISchedInplement rq) := h.not_honoured trivial
      exact ⟨fun hmeets => absurd hmeets.1 hnot, fun hno => (hno.1 trivial).elim⟩
    | insert p c =>
      obtain ⟨rq', hin, h', hheld⟩ := h.insert p hvalid.1
      have hstep : (SchedOp.insert p c).exec (rqPrioFifoISchedInplement rq) =
          .ok (none, rqPrioFifoISchedInplement rq') := by
        simp [SchedOp.exec, hin]
      have hrest := ih h' hvalid.2
      constructor
      · intro hmeets
        exact ⟨id, hrest.1 (hmeets.2 _ _ hstep)⟩
      · intro hno
        exact Machine.Meets.cons ⟨_, hin, hheld⟩ hstep (hrest.2 hno.2)

/-! ## A queue that is initialised correctly -/

theorem BackEndOk.held (h : BackEndOk policy iSched) :
    iSched.schedData.held = iSched.schedData.queued := by
  cases h with
  | simple => rfl
  | prio _ hok =>
    show (SchedData.prio _).held = (SchedData.prio _).queued
    rw [hok.queued, SchedData.held, hok.allEntries]

/-- `i_sched_pop` answers `NULL` on the empty queue only; on a simple queue it takes a process out,
on a priority queue it keeps them all. Reference: `i_sched_pop`
(`src/scheduler_data_interface.c:30`). -/
theorem iSchedPop_spec (h : BackEndOk policy iSched) :
    ∃ r iSched', iSchedPop iSched = .ok (r, iSched') ∧ BackEndOk policy iSched' ∧
      (r = none ↔ iSched.schedData.queued = 0) ∧
      ((PrioPolicy policy ∧ iSched'.schedData.queued = iSched.schedData.queued) ∨
        (¬ PrioPolicy policy ∧
          iSched'.schedData.queued + r.elim 0 ({·}) = iSched.schedData.queued)) := by
  cases h with
  | prio hpolicy hok =>
    rename_i rq a e
    obtain ⟨r, rq', a', e', hpeek, hok', hent, hcases⟩ := rqPrioFifoPeek_spec hok
    have hpop : iSchedPop (rqPrioFifoISchedInplement rq) =
        .ok (r, rqPrioFifoISchedInplement rq') := by
      simp [iSchedPop, rqPrioFifoISchedInplement, iSchedImplement, SISched.callTake, hpeek]
    refine ⟨r, rqPrioFifoISchedInplement rq', hpop, .prio hpolicy hok', ?_, .inl ⟨hpolicy, ?_⟩⟩
    · show r = none ↔ (SchedData.prio rq).queued = 0
      rw [hok.queued, elements_eq_zero]
      obtain ⟨rfl, h0⟩ | ⟨x, i, rfl, hleast, -⟩ := hcases
      · simp [h0]
      · simp [ne_of_mem_of_not_mem' hleast (Multiset.notMem_zero _)]
    · show (SchedData.prio rq').queued = (SchedData.prio rq).queued
      rw [hok'.queued, hok.queued, hent]
  | simple hpolicy hcount =>
    rename_i rq
    have hpop : iSchedPop (rqSimpleFifoISchedImplement rq) = .ok (rq.active.getLast?,
        rqSimpleFifoISchedImplement ⟨rq.active.dropLast.length, rq.active.dropLast⟩) := by
      simp [iSchedPop, rqSimpleFifoISchedImplement, iSchedImplement, SISched.callTake,
        rqSimpleFifoOut_eq hcount]
    refine ⟨_, _, hpop, .simple hpolicy rfl, ?_, .inr ⟨hpolicy, ?_⟩⟩
    · rw [List.getLast?_eq_none_iff]
      exact (Multiset.coe_eq_zero _).symm
    · show ((rq.active.dropLast : Multiset α)) + rq.active.getLast?.elim 0 ({·}) = rq.active
      cases rq.active using List.reverseRecOn with
      | nil => rfl
      | append_singleton xs x => simp [← Multiset.coe_add]

/-- Only `NULL` adds nothing. -/
theorem add_elim_eq_self {m : Multiset α} {r : Option α} : m + r.elim 0 ({·}) = m ↔ r = none := by
  cases r <;> simp

/-- On a queue that is initialised correctly a call is honoured if and only if it does not look at a
nonempty priority queue: there `i_sched_peek` takes out what it returns and `i_sched_pop` does not.
Reference: `rq_prio_fifo_i_sched_inplement` (`src/scheduler_priority_fifo.c:121`). -/
theorem SchedOp.honoured_iff (h : BackEndOk policy iSched) {op : SchedOp α} (hvalid : op.Valid) :
    op.Honoured iSched ↔ (op.Looks → PrioPolicy policy → iSched.schedData.held = 0) := by
  cases op with
  | insert p c =>
    obtain ⟨iSched', hin, hback, hqueued⟩ := iSchedInsert_spec h p fun _ => hvalid
    refine ⟨fun _ hlooks => hlooks.elim, fun _ => ⟨iSched', hin, ?_⟩⟩
    rw [hback.held, h.held, hqueued]
  | peek =>
    obtain ⟨r, iSched', hpeek, hback, -, hnull, hcases⟩ := iSchedPeek_spec h
    constructor
    · rintro ⟨r', s', hpeek', hheld, -⟩ - hpolicy
      rw [hpeek] at hpeek'
      cases hpeek'
      rw [hback.held, h.held] at hheld
      obtain ⟨-, hqueued⟩ | ⟨hnot, -⟩ := hcases
      · rw [← hheld] at hqueued
        rw [h.held, ← hnull]
        exact add_elim_eq_self.1 hqueued.symm
      · exact absurd hpolicy hnot
    · intro hzero
      rw [h.held] at hzero
      refine ⟨r, iSched', hpeek, ?_, by rw [h.held]; exact hnull⟩
      obtain ⟨hpolicy, hqueued⟩ | ⟨-, rfl, -⟩ := hcases
      · obtain rfl := hnull.2 (hzero trivial hpolicy)
        rw [hback.held, h.held, hqueued]
        exact (add_zero _).symm
      · rfl
  | pop =>
    obtain ⟨r, iSched', hpop, hback, hnull, hcases⟩ := iSchedPop_spec h
    constructor
    · rintro ⟨r', s', hpop', hheld, -⟩ - hpolicy
      rw [hpop] at hpop'
      cases hpop'
      rw [hback.held, h.held] at hheld
      obtain ⟨-, hqueued⟩ | ⟨hnot, -⟩ := hcases
      · rw [hqueued] at hheld
        rw [h.held, ← hnull]
        exact add_elim_eq_self.1 hheld
      · exact absurd hpolicy hnot
    · intro hzero
      rw [h.held] at hzero
      refine ⟨r, iSched', hpop, ?_, by rw [h.held]; exact hnull⟩
      rw [hback.held, h.held]
      obtain ⟨hpolicy, hqueued⟩ | ⟨-, hqueued⟩ := hcases
      · obtain rfl := hnull.2 (hzero trivial hpolicy)
        rw [hqueued]
        exact add_zero _
      · exact hqueued

/-- A call keeps a queue initialised correctly. -/
theorem SchedOp.exec_backEndOk {op : SchedOp α} {r : Option α} {iSched' : SISched α}
    (h : BackEndOk policy iSched) (hvalid : op.Valid) (hexec : op.exec iSched = .ok (r, iSched')) :
    BackEndOk policy iSched' := by
  cases op with
  | insert p c =>
    obtain ⟨s', hin, hback, -⟩ := iSchedInsert_spec h p fun _ => hvalid
    simp only [SchedOp.exec, hin, Outcome.ok_bind] at hexec
    cases hexec
    exact hback
  | peek =>
    obtain ⟨r', s', hpeek, hback, -⟩ := iSchedPeek_spec h
    rw [SchedOp.exec, hpeek] at hexec
    cases hexec
    exact hback
  | pop =>
    obtain ⟨r', s', hpop, hback, -⟩ := iSchedPop_spec h
    rw [SchedOp.exec, hpop] at hexec
    cases hexec
    exact hback

/-- The same for a sequence of calls. -/
theorem BackEndOk.meets_iff (h : BackEndOk policy iSched) {ops : List (SchedOp α)}
    (hvalid : ∀ op ∈ ops, op.Valid) :
    Machine.Meets SchedOp.exec SchedOp.Honoured ops iSched ↔
      Machine.Meets SchedOp.exec
        (fun op s => op.Looks → PrioPolicy policy → s.schedData.held = 0) ops iSched :=
  Machine.meets_congr_of_invariant
    (fun op s (hs : BackEndOk policy s) (hop : op.Valid) => SchedOp.honoured_iff hs hop)
    (fun _ _ _ _ hs hop _ hexec => SchedOp.exec_backEndOk hs hop hexec) h
    (Machine.Meets.of_forall hvalid iSched)

/-! ## Set-up -/

/-- What `i_sched_configure` sets up honours the interface if and only if the policy has a priority
queue and no call looks at it. Reference: `i_sched_configure`
(`src/scheduler_data_interface.c:42`). -/
theorem iSchedConfigure_honours_iff (nrRunning : Int) (arrays : PrioArrayRef → RtPrioArray α)
    (simpleRq : RtSimpleRunqueue α) (policy : Int) {ops : List (SchedOp α)}
    (hvalid : ∀ op ∈ ops, op.Valid) :
    HonoursInterface (iSchedConfigure (mallocRunqueue nrRunning arrays) simpleRq policy) ops ↔
      PrioPolicy policy ∧ ∀ op ∈ ops, ¬ op.Looks := by
  unfold iSchedConfigure
  by_cases hpolicy : PrioPolicy policy
  · obtain ⟨hno, hzero⟩ := rqPrioFifoInit_noActive nrRunning arrays
    rw [if_pos hpolicy, and_iff_right hpolicy]
    have hinit : iSchedInit (rqPrioFifoISchedInplement (mallocRunqueue nrRunning arrays)) =
        .ok (rqPrioFifoISchedInplement (rqPrioFifoInit (mallocRunqueue nrRunning arrays))) := rfl
    rw [hinit]
    constructor
    · rintro ⟨iSched, hconfigured, -, hmeets⟩
      cases hconfigured
      exact (hno.meets_iff hvalid).1 hmeets
    · intro hlooks
      exact ⟨_, rfl, hzero, (hno.meets_iff hvalid).2 hlooks⟩
  · rw [if_neg hpolicy]
    constructor
    · rintro ⟨iSched, hconfigured, -⟩
      cases hconfigured
    · rintro ⟨h, -⟩
      exact absurd h hpolicy

/-- Insertions into a priority queue. -/
theorem iSchedConfigure_honours_iff_two :
    HonoursInterface (iSchedConfigure (mallocRunqueue 7 fun _ => ⟨-3, fun _ => [8]⟩) ⟨7, [9]⟩
      schedPrioRr) [.insert 1 0, .insert (2 : Nat) 30] :=
  (iSchedConfigure_honours_iff 7 (fun _ => ⟨-3, fun _ => [8]⟩) ⟨7, [9]⟩ schedPrioRr
    (by simp [SchedOp.Valid])).2 ⟨by decide, by simp [SchedOp.Looks]⟩

/-- No simple queue is set up, and the first look at a priority queue follows a pointer that was
never set. -/
theorem iSchedConfigure_not_honours :
    iSchedConfigure (mallocRunqueue 0 fun _ => prioArrayInit) ⟨0, ([] : List Nat)⟩ schedFifo =
        .error .wildPointer ∧
      ¬ HonoursInterface
        (iSchedConfigure (mallocRunqueue 0 fun _ => prioArrayInit) ⟨0, ([] : List Nat)⟩
          schedFifo) [] ∧
      ¬ HonoursInterface
        (iSchedConfigure (mallocRunqueue 0 fun _ => prioArrayInit) ⟨0, ([] : List Nat)⟩
          schedPrioFifo) [.insert 1 0, .peek] := by
  refine ⟨rfl, ?_, ?_⟩
  · rintro ⟨iSched, hconfigured, -⟩
    cases hconfigured
  · rintro ⟨iSched, hconfigured, -, hmeets⟩
    cases hconfigured
    have hno := (rqPrioFifoInit_noActive 0 fun _ => (prioArrayInit : RtPrioArray Nat)).1
    exact (hno.meets_iff (by simp [SchedOp.Valid])).1 hmeets .peek (by simp) trivial

end SeKernel
