import SeKernel.Scheduler.Ownership
import SeKernel.Scheduler.Preemption
import SeKernel.Scheduler.WorkConservation

/-!
# Reading a process that is not there

`__sched_update_running_pcb` takes a finished process off its record, and what follows in the same
turn of the pass reads the current process: `sched_execute` reads its status under the policies
without a time slice, `sched_dispatcher` under the others once the slice is used up. So a turn reads
a field of `NULL` exactly when the record runs a finished process and has no time left
(`schedExecuteCore_nullDeref_iff`).
-/

namespace SeKernel

variable {ι τ : Type} {k n : Nat}

/-- The process has finished. -/
def Sched.Finished (s : Sched ι τ k n) (i : ι) : Prop :=
  ∃ p, s.pcbs (.pcb i) = some p ∧ p.status = prFini

/-- The record is idle and marked so, or it is marked busy and has a process. -/
def Sched.RecordOk (s : Sched ι τ k n) (c : Fin k) : Prop :=
  s.IdleMarked c ∨ (s.coreControlArray c).currrentCpuSchedStatus = processRun ∧
    ∃ o, (s.coreControlArray c).currentProcess = some (.pcb o)

/-- The policy leaves the record no time. -/
def Sched.OutOfTime (s : Sched ι τ k n) (c : Fin k) : Prop :=
  RoundRobin s.currentPolicy → (s.coreControlArray c).currentProcessQuantum ≤ 0

/-- The record runs a finished process and has no time left. -/
def Sched.Expired (s : Sched ι τ k n) (c : Fin k) : Prop :=
  ∃ o, (s.coreControlArray c).currentProcess = some (.pcb o) ∧ s.Finished o ∧ s.OutOfTime c

/-- The process that the queue is going to answer is not destroyed. -/
def Sched.NextLive (s : Sched ι τ k n) : Prop := ∀ x, s.next? = some x → (s.pcbs x).isSome

variable {c d : Fin k} {s s' t : Sched ι τ k n} {i o : ι} {p : Pcb}

/-! ## What cannot read a field of `NULL` -/

theorem PcbHeap.read_noNull (heap : PcbHeap (PcbPtr ι)) (x : PcbPtr ι) : (heap.read x).NoNull := by
  unfold PcbHeap.read
  cases heap x <;> exact nofun

theorem PcbHeap.status_noNull (heap : PcbHeap (PcbPtr ι)) (x : PcbPtr ι) :
    (heap.status (some x)).NoNull :=
  (heap.read_noNull x).bind fun _ _ => Outcome.noNull_ok _

theorem schedUpdateRunningPcb_noNull (s : Sched ι τ k n) (c : Fin k) :
    (schedUpdateRunningPcb s c).NoNull := by
  unfold schedUpdateRunningPcb
  split
  · exact Outcome.noNull_ok _
  · refine (s.pcbs.read_noNull _).bind fun p _ => ?_
    split <;> exact Outcome.noNull_ok _

theorem schedGetNextProcessCleanQueue_ok
    (hback : BackEndOk s.currentPolicy s.schedulerQueueIObject) :
    ∃ r iSched, schedGetNextProcessCleanQueue s c =
        .ok (r, { s with schedulerQueueIObject := iSched }) ∧
      BackEndOk s.currentPolicy iSched := by
  unfold schedGetNextProcessCleanQueue
  split
  · exact ⟨_, s.schedulerQueueIObject, rfl, hback⟩
  · obtain ⟨iSched, hnext, hback', -⟩ := schedGetNextProcess_next hback
    exact ⟨_, iSched, hnext, hback'⟩

variable [DecidableEq ι]

theorem dispDispatch_noNull (heap : PcbHeap (PcbPtr ι)) (old : Option (PcbPtr ι)) (next : PcbPtr ι)
    (thread : Thread n) : (dispDispatch heap old next thread).NoNull := by
  unfold dispDispatch dispUnloadOld
  refine Outcome.NoNull.bind ?_ fun heap' _ => (heap'.read_noNull next).bind fun _ _ =>
    Outcome.noNull_ok _
  cases old with
  | none => exact Outcome.noNull_ok _
  | some x => exact (heap.read_noNull x).bind fun _ _ => Outcome.noNull_ok _

theorem dispTerminate_noNull (heap : PcbHeap (PcbPtr ι)) (thread : Thread n) (x : PcbPtr ι) :
    (dispTerminate heap thread x).NoNull := by
  refine (heap.read_noNull x).bind fun p _ => ?_
  cases x with
  | nullProcess => exact nofun
  | pcb i => exact (PcbHeap.read_noNull _ _).bind fun _ _ => Outcome.noNull_ok _

theorem schedAddToProcessQueue_noNull (hback : BackEndOk s.currentPolicy s.schedulerQueueIObject)
    (x : PcbPtr ι) : (schedAddToProcessQueue s x).NoNull := by
  refine (s.pcbs.read_noNull x).bind fun p _ => Outcome.NoNull.bind ?_ fun _ _ =>
    Outcome.noNull_ok _
  rcases iSchedInsert_returns hback x p.currentPriority with ⟨iSched, hin, -⟩ | hout
  · rw [hin]
    exact Outcome.noNull_ok _
  · rw [hout]
    exact nofun

theorem schedDispatcherPutAway_noNull (hback : BackEndOk s.currentPolicy s.schedulerQueueIObject)
    (old : PcbPtr ι) : (schedDispatcherPutAway s c (some old)).NoNull := by
  unfold schedDispatcherPutAway
  split
  · exact Outcome.noNull_ok _
  · refine (s.pcbs.status_noNull old).bind fun status _ => ?_
    split
    · exact (dispTerminate_noNull _ _ old).bind fun _ _ => Outcome.noNull_ok _
    · exact schedAddToProcessQueue_noNull hback old

/-- The choice reads the old process only when the queue answered `NULL`. Reference:
`sched_dispatcher` (`src/scheduler.c:46`). -/
theorem schedDispatcherChoose_noNull (s : Sched ι τ k n) (c : Fin k) (old : PcbPtr ι)
    (r : Option (PcbPtr ι)) : (schedDispatcherChoose s c (some old) r).NoNull := by
  unfold schedDispatcherChoose
  cases r with
  | some y => exact Outcome.noNull_ok _
  | none =>
    dsimp only
    split
    · exact Outcome.noNull_ok _
    · refine (s.pcbs.status_noNull old).bind fun status _ => ?_
      split <;> exact Outcome.noNull_ok _

/-- The choice sets one field of the record and does not mark it idle. Reference: `sched_dispatcher`
(`src/scheduler.c:46`). -/
theorem schedDispatcherChoose_kept {old r r' : Option (PcbPtr ι)}
    (h : schedDispatcherChoose s c old r = .ok (r', t)) :
    t.currentPolicy = s.currentPolicy ∧ t.schedulerQueueIObject = s.schedulerQueueIObject ∧
      t.pcbs = s.pcbs ∧ ((t.coreControlArray c).currrentCpuSchedStatus = nullProcessRun →
        (s.coreControlArray c).currrentCpuSchedStatus = nullProcessRun) := by
  rcases schedDispatcherChoose_cases h with ⟨y, -, -, rfl⟩ | ⟨-, -, rfl, -⟩ | ⟨-, -, rfl, -⟩
  · exact ⟨rfl, rfl, rfl, by simp⟩
  · exact ⟨rfl, rfl, rfl, id⟩
  · refine ⟨rfl, rfl, rfl, ?_⟩
    simp [schedulerNullProcessRrFreq, nullProcessRun]

variable [DecidableEq τ]

theorem schedDispatcherLoad_noNull (old : Option (PcbPtr ι)) (next : PcbPtr ι) :
    (schedDispatcherLoad s c old next).NoNull :=
  (dispDispatch_noNull _ _ _ _).bind fun _ _ => Outcome.noNull_ok _

/-- A switch from a process. -/
theorem schedDispatcherSwitch_noNull (hback : BackEndOk s.currentPolicy s.schedulerQueueIObject)
    (old next : PcbPtr ι) : (schedDispatcherSwitch s c (some old) next).NoNull := by
  refine (schedDispatcherLoad_noNull _ next).bind fun t ht => Outcome.NoNull.bind ?_ fun _ _ =>
    Outcome.noNull_ok _
  obtain ⟨⟨pcbs, thread⟩, -, ht⟩ := Outcome.bind_eq_ok.1 ht
  cases ht
  refine schedDispatcherPutAway_noNull ?_ old
  exact hback

/-- The dispatcher on a record that has a process. Reference: `sched_dispatcher`
(`src/scheduler.c:42`). -/
theorem schedDispatcher_noNull_of_some (hback : BackEndOk s.currentPolicy s.schedulerQueueIObject)
    {x : PcbPtr ι} (hx : (s.coreControlArray c).currentProcess = some x) :
    (schedDispatcher s c).NoNull := by
  obtain ⟨r, iSched, hnext, hback'⟩ := schedGetNextProcessCleanQueue_ok (c := c) hback
  unfold schedDispatcher
  rw [hnext, Outcome.ok_bind]
  dsimp only
  rw [hx]
  refine (schedDispatcherChoose_noNull _ c x r).bind fun ⟨r', t⟩ ht => ?_
  obtain ⟨hpolicy, hqueue, -⟩ := schedDispatcherChoose_kept ht
  cases r' with
  | none => exact Outcome.noNull_ok _
  | some y =>
    refine schedDispatcherSwitch_noNull ?_ x y
    rw [hpolicy, hqueue]
    exact hback'

/-- The dispatcher on a record that is marked idle. Reference: `sched_dispatcher`
(`src/scheduler.c:42`). -/
theorem schedDispatcher_noNull_of_idle
    (hstatus : (s.coreControlArray c).currrentCpuSchedStatus = nullProcessRun) :
    (schedDispatcher s c).NoNull := by
  unfold schedDispatcher schedGetNextProcessCleanQueue
  rw [if_pos hstatus]
  refine (schedDispatcherLoad_noNull (s := s.modifyCore c
    ({ · with currentProcessQuantum := schedulerBaseProcessRrFreq })) _ .nullProcess).bind
    fun t ht => Outcome.NoNull.bind ?_ fun _ _ => Outcome.noNull_ok _
  obtain ⟨⟨pcbs, thread⟩, -, ht⟩ := Outcome.bind_eq_ok.1 ht
  cases ht
  unfold schedDispatcherPutAway
  rw [if_pos (by simpa using hstatus)]
  exact Outcome.noNull_ok _

/-- A switch from no process on a record that is not marked idle. Reference: `sched_dispatcher`
(`src/scheduler.c:59`). -/
theorem schedDispatcherSwitch_none_iff {next : PcbPtr ι}
    (hstatus : (s.coreControlArray c).currrentCpuSchedStatus ≠ nullProcessRun) :
    schedDispatcherSwitch s c none next = .error .nullDeref ↔ (s.pcbs next).isSome := by
  unfold schedDispatcherSwitch schedDispatcherLoad dispDispatch dispUnloadOld PcbHeap.read
  cases hnext : s.pcbs next with
  | none => simp [hnext]
  | some q =>
    simp [hnext, schedDispatcherPutAway, hstatus]

/-- The dispatcher on a record that is not marked idle and has no process: it reads the status of
`NULL`, unless the process that the queue answers is destroyed already. Reference:
`sched_dispatcher` (`src/scheduler.c:42`). -/
theorem schedDispatcher_nullDeref_iff_of_none
    (hback : BackEndOk s.currentPolicy s.schedulerQueueIObject)
    (hstatus : (s.coreControlArray c).currrentCpuSchedStatus ≠ nullProcessRun)
    (hcurrent : (s.coreControlArray c).currentProcess = none) :
    schedDispatcher s c = .error .nullDeref ↔ s.NextLive := by
  obtain ⟨iSched, hnext, -⟩ := schedGetNextProcess_next hback
  unfold schedDispatcher schedGetNextProcessCleanQueue
  rw [if_neg hstatus, hnext, Outcome.ok_bind]
  dsimp only
  rw [hcurrent]
  unfold Sched.NextLive
  cases hr : s.next? with
  | none => exact ⟨fun _ => nofun, fun _ => rfl⟩
  | some x =>
    simp only [Option.some.injEq, forall_eq']
    exact schedDispatcherSwitch_none_iff (by simpa using hstatus)

/-! ## One turn -/

omit [DecidableEq ι] [DecidableEq τ] in
theorem schedUpdateRunningPcb_live
    (ho : (s.coreControlArray c).currentProcess = some (.pcb o)) (hp : s.pcbs (.pcb o) = some p)
    (hlive : p.status ≠ prFini) : schedUpdateRunningPcb s c = .ok s := by
  unfold schedUpdateRunningPcb
  rw [ho]
  dsimp only
  rw [PcbHeap.read_eq_ok.2 hp, Outcome.ok_bind, if_neg hlive]
  rfl

/-- The turn of an idle record. Reference: `sched_execute` (`src/scheduler.c:26`). -/
theorem schedExecuteCore_noNull_of_idle (hidle : s.IdleMarked c) :
    (schedExecuteCore s c).NoNull := by
  refine (schedUpdateRunningPcb_noNull s c).bind fun t ht => ?_
  have hstatus := (hidle.updateRunningPcb ht).2
  unfold schedExecuteUpdated
  rw [if_pos hstatus]
  split
  · split
    · exact schedDispatcher_noNull_of_idle hstatus
    · exact Outcome.noNull_ok _
  · exact schedDispatcher_noNull_of_idle hstatus

section

variable (hback : BackEndOk s.currentPolicy s.schedulerQueueIObject)
  (hstatus : (s.coreControlArray c).currrentCpuSchedStatus ≠ nullProcessRun)
  (ho : (s.coreControlArray c).currentProcess = some (.pcb o))
  (hp : s.pcbs (.pcb o) = some p)

include hback hstatus ho hp

/-- The turn of a record whose process has not finished. Reference: `sched_execute`
(`src/scheduler.c:26`). -/
theorem schedExecuteCore_noNull_of_live (hlive : p.status ≠ prFini) :
    (schedExecuteCore s c).NoNull := by
  have hdispatcher := schedDispatcher_noNull_of_some hback ho
  unfold schedExecuteCore
  rw [schedUpdateRunningPcb_live ho hp hlive, Outcome.ok_bind]
  unfold schedExecuteUpdated
  rw [if_neg hstatus, ho]
  split
  · split
    · exact hdispatcher
    · exact Outcome.noNull_ok _
  · refine (s.pcbs.status_noNull _).bind fun status _ => ?_
    split
    · exact hdispatcher
    · exact Outcome.noNull_ok _

/-- The turn of a record whose process has finished: the process is taken off, and then the policy
decides who reads it. Reference: `sched_execute` (`src/scheduler.c:26`). -/
theorem schedExecuteCore_nullDeref_iff_of_finished (hfini : p.status = prFini) :
    schedExecuteCore s c = .error .nullDeref ↔
      (RoundRobin s.currentPolicy →
        (s.coreControlArray c).currentProcessQuantum ≤ 0 ∧ s.NextLive) := by
  let t := s.modifyCore c ({ · with currentProcess := none })
  have htstatus : (t.coreControlArray c).currrentCpuSchedStatus ≠ nullProcessRun := by
    simpa [t] using hstatus
  have htcurrent : (t.coreControlArray c).currentProcess = none := by simp [t]
  have htpolicy : t.currentPolicy = s.currentPolicy := rfl
  have htquantum : (t.coreControlArray c).currentProcessQuantum =
      (s.coreControlArray c).currentProcessQuantum := by simp [t]
  have hdispatcher : schedDispatcher t c = .error .nullDeref ↔ s.NextLive :=
    schedDispatcher_nullDeref_iff_of_none (s := t) hback htstatus htcurrent
  unfold schedExecuteCore
  rw [schedUpdateRunningPcb_fini ho hp hfini, Outcome.ok_bind]
  show schedExecuteUpdated t c = _ ↔ _
  unfold schedExecuteUpdated
  rw [htpolicy]
  by_cases hpolicy : RoundRobin s.currentPolicy
  · rw [if_pos hpolicy, htquantum]
    by_cases hquantum : (s.coreControlArray c).currentProcessQuantum ≤ 0
    · rw [if_pos hquantum, hdispatcher]
      simp [hpolicy, hquantum]
    · rw [if_neg hquantum]
      exact ⟨nofun, fun h => absurd (h hpolicy).1 hquantum⟩
  · rw [if_neg hpolicy, if_neg htstatus, htcurrent]
    exact ⟨fun _ h => absurd h hpolicy, fun _ => rfl⟩

end

/-- A turn reads a field of `NULL` if and only if its record runs a finished process with no time
left, and the queue's answer, where it is needed, is not destroyed already. Reference:
`sched_execute` (`src/scheduler.c:26`). -/
theorem schedExecuteCore_nullDeref_iff (hback : BackEndOk s.currentPolicy s.schedulerQueueIObject)
    (hrecord : s.RecordOk c) :
    schedExecuteCore s c = .error .nullDeref ↔
      s.Expired c ∧ (RoundRobin s.currentPolicy → s.NextLive) := by
  rcases hrecord with hidle | ⟨hstatus, o, ho⟩
  · refine iff_of_false (schedExecuteCore_noNull_of_idle hidle) ?_
    rintro ⟨⟨o, ho, -⟩, -⟩
    cases hidle.1.eq_nullProcess ho
  · have hbusy := ne_nullProcessRun hstatus
    have hexpired : s.Expired c ↔ s.Finished o ∧
        (RoundRobin s.currentPolicy → (s.coreControlArray c).currentProcessQuantum ≤ 0) := by
      unfold Sched.Expired Sched.OutOfTime
      rw [ho]
      simp
    rw [hexpired]
    cases hp : s.pcbs (.pcb o) with
    | none =>
      have hupdate : schedExecuteCore s c = .error .dangling := by
        simp [schedExecuteCore, schedUpdateRunningPcb, ho, PcbHeap.read, hp]
      rw [hupdate]
      simp [Sched.Finished, hp]
    | some p =>
      by_cases hfini : p.status = prFini
      · rw [schedExecuteCore_nullDeref_iff_of_finished hback hbusy ho hp hfini]
        have hfinished : s.Finished o := ⟨p, hp, hfini⟩
        tauto
      · refine iff_of_false (schedExecuteCore_noNull_of_live hback hbusy ho hp hfini) ?_
        rintro ⟨⟨⟨p', hp', hfini'⟩, -⟩, -⟩
        rw [hp] at hp'
        cases hp'
        exact hfini hfini'

end SeKernel
