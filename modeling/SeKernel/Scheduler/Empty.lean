import SeKernel.Lib.Lts
import SeKernel.Scheduler.Ownership

/-!
# The question whether the queue is empty

`sched_queue_is_empty` peeks, and on a priority queue a peek takes the process out. The process that
would have come next is then in no queue and on no core, and nothing that the scheduler does brings
it back: it never runs, and its PCB is never freed (`sched_queue_is_empty_loses`).
-/

namespace SeKernel

variable {ι τ : Type} {k n : Nat}

/-- Reference: `sched_queue_is_empty` (`src/scheduler.c:125`). -/
def schedQueueIsEmpty (sched : Sched ι τ k n) : Outcome (Int × Sched ι τ k n) := do
  let (process, schedulerQueueIObject) ← iSchedPeek sched.schedulerQueueIObject
  return (if process.isNone then 1 else 0, { sched with schedulerQueueIObject })

/-- A step of the scheduler, or the question. -/
inductive AskedStep (ι : Type) (k : Nat)
  | sched (step : SchedStep ι k)
  | queueIsEmpty

def AskedStep.exec [DecidableEq ι] [DecidableEq τ] (s : Sched ι τ k n) :
    AskedStep ι k → Outcome (Sched ι τ k n)
  | .sched step => step.exec s
  | .queueIsEmpty => do
    let (_, s') ← schedQueueIsEmpty s
    return s'

/-- The process `i` is in no queue and on no core, and its PCB is still allocated. -/
structure Sched.Lost (i : ι) (p : Pcb) (s : Sched ι τ k n) : Prop where
  backEnd : BackEndOk s.currentPolicy s.schedulerQueueIObject
  notQueued : .pcb i ∉ s.queued
  notRunning : ∀ c, (s.coreControlArray c).currentProcess ≠ some (.pcb i)
  pcb : s.pcbs (.pcb i) = some p

variable {c : Fin k} {i : ι} {p : Pcb} {s s' : Sched ι τ k n} {old next next' : Option (PcbPtr ι)}

/-! ## Steps on a lost process -/

/-- A change of a record's other fields. -/
theorem Sched.Lost.modifyCore {f : CoreControl ι τ → CoreControl ι τ} (h : s.Lost i p)
    (hf : (f (s.coreControlArray c)).currentProcess ≠ some (.pcb i)) :
    (s.modifyCore c f).Lost i p where
  backEnd := h.backEnd
  notQueued := h.notQueued
  notRunning d := by
    by_cases hd : d = c
    · subst hd
      rw [Sched.modifyCore_self]
      exact hf
    · rw [s.modifyCore_of_ne c f hd]
      exact h.notRunning d
  pcb := h.pcb

/-- Another queue, without the process. -/
theorem Sched.Lost.withQueue {iSched : SISched (PcbPtr ι)} (h : s.Lost i p)
    (hback : BackEndOk s.currentPolicy iSched) (hqueued : .pcb i ∉ iSched.schedData.queued) :
    ({ s with schedulerQueueIObject := iSched } : Sched ι τ k n).Lost i p :=
  ⟨hback, hqueued, h.notRunning, h.pcb⟩

/-- A peek answers another process. Reference: `i_sched_peek`
(`src/scheduler_data_interface.c:26`). -/
theorem Sched.Lost.peek {iSched : SISched (PcbPtr ι)} (h : s.Lost i p)
    (hpeek : iSchedPeek s.schedulerQueueIObject = .ok (next, iSched)) :
    ({ s with schedulerQueueIObject := iSched } : Sched ι τ k n).Lost i p ∧
      next ≠ some (.pcb i) := by
  obtain ⟨r, iSched', hpeek', hback, -, -, hcases⟩ := iSchedPeek_spec h.backEnd
  cases hpeek'.symm.trans hpeek
  rcases hcases with ⟨-, hqueued⟩ | ⟨-, rfl, hfront⟩
  · have hnotin := h.notQueued
    unfold Sched.queued at hnotin
    rw [hqueued, Multiset.mem_add, not_or] at hnotin
    refine ⟨h.withQueue hback hnotin.1, ?_⟩
    rintro rfl
    exact hnotin.2 (Multiset.mem_singleton_self _)
  · refine ⟨h, ?_⟩
    rintro rfl
    obtain ⟨rq, hrq, hmem⟩ := h.backEnd.of_front? hfront.symm
    have hnotin := h.notQueued
    unfold Sched.queued at hnotin
    rw [hrq] at hnotin
    exact hnotin hmem

/-- Reference: `__sched_get_next_process_clean_queue` (`src/scheduler.c:89`). -/
theorem Sched.Lost.getNextProcess (h : s.Lost i p)
    (hnext : schedGetNextProcessCleanQueue s c = .ok (next, s')) :
    s'.Lost i p ∧ next ≠ some (.pcb i) := by
  unfold schedGetNextProcessCleanQueue schedGetNextProcess at hnext
  split at hnext
  · cases hnext
    exact ⟨h, nofun⟩
  · split at hnext
    · obtain ⟨⟨r, iSched⟩, hpeek, hret⟩ := Outcome.bind_eq_ok.1 hnext
      cases hret
      exact h.peek hpeek
    · cases hnext
      exact ⟨h, nofun⟩

/-- Reference: `__sched_update_running_pcb` (`src/scheduler.c:78`). -/
theorem Sched.Lost.updateRunningPcb (h : s.Lost i p)
    (hupdate : schedUpdateRunningPcb s c = .ok s') : s'.Lost i p := by
  rcases schedUpdateRunningPcb_cases hupdate with ⟨-, rfl⟩ | ⟨-, rfl⟩
  · exact h
  · exact h.modifyCore nofun

variable [DecidableEq ι]

/-- Another process is queued. Reference: `sched_add_to_process_queue` (`src/scheduler.c:17`). -/
theorem Sched.Lost.addToProcessQueue {x : PcbPtr ι} (h : s.Lost i p) (hx : x ≠ .pcb i)
    (hadd : schedAddToProcessQueue s x = .ok s') : s'.Lost i p := by
  obtain ⟨q, hq, hadd⟩ := Outcome.bind_eq_ok.1 hadd
  obtain ⟨iSched, hinsert, hret⟩ := Outcome.bind_eq_ok.1 hadd
  cases hret
  have hprio : PrioPolicy s.currentPolicy → 0 ≤ q.currentPriority := by
    intro hpolicy
    by_contra hneg
    rw [iSchedInsert_negative h.backEnd x hpolicy (not_le.1 hneg)] at hinsert
    cases hinsert
  obtain ⟨iSched', hinsert', hback, hqueued⟩ := iSchedInsert_spec h.backEnd x hprio
  cases hinsert'.symm.trans hinsert
  refine ⟨hback, ?_, h.notRunning, ?_⟩
  · unfold Sched.queued
    rw [hqueued, Multiset.mem_add, Multiset.mem_singleton, not_or]
    exact ⟨h.notQueued, hx.symm⟩
  · exact (Function.update_of_ne hx.symm _ _).trans h.pcb

/-- A switch between other processes. Reference: `disp_dispatch` (`src/scheduler.c:129`). -/
theorem dispDispatch_other {heap heap' : PcbHeap (PcbPtr ι)} {x y : PcbPtr ι}
    {thread thread' : Thread n} (hx : x ≠ y) (hold : old ≠ some y)
    (h : dispDispatch heap old x thread = .ok (heap', thread')) : heap' y = heap y := by
  obtain ⟨heap₁, hunload, h⟩ := Outcome.bind_eq_ok.1 h
  obtain ⟨q, -, h⟩ := Outcome.bind_eq_ok.1 h
  cases h
  have hfirst : heap₁ y = heap y := by
    cases old with
    | none =>
      cases hunload
      rfl
    | some z =>
      obtain ⟨r, -, hret⟩ := Outcome.bind_eq_ok.1 hunload
      cases hret
      exact Function.update_of_ne (fun hyz => hold (congrArg some hyz.symm)) _ _
  exact (Function.update_of_ne hx.symm _ _).trans hfirst

variable [DecidableEq τ]

/-- Reference: `sched_dispatcher` (`src/scheduler.c:56`). -/
theorem Sched.Lost.dispatcherLoad {x : PcbPtr ι} (h : s.Lost i p) (hx : x ≠ .pcb i)
    (hold : old ≠ some (.pcb i)) (hload : schedDispatcherLoad s c old x = .ok s') :
    s'.Lost i p := by
  obtain ⟨⟨pcbs, thread⟩, hdispatch, hret⟩ := Outcome.bind_eq_ok.1 hload
  cases hret
  have hcore : (s.modifyCore c ({ · with currentProcess := some x })).Lost i p :=
    h.modifyCore fun hxi => hx (Option.some.inj hxi)
  exact ⟨hcore.backEnd, hcore.notQueued, hcore.notRunning,
    (dispDispatch_other hx hold hdispatch).trans h.pcb⟩

omit [DecidableEq τ] in
/-- Reference: `sched_dispatcher` (`src/scheduler.c:58`). -/
theorem Sched.Lost.dispatcherPutAway (h : s.Lost i p) (hold : old ≠ some (.pcb i))
    (haway : schedDispatcherPutAway s c old = .ok s') : s'.Lost i p := by
  rcases schedDispatcherPutAway_cases haway with
    ⟨-, rfl⟩ | ⟨-, x, status, rfl, -, ⟨-, pcbs, hterminate, rfl⟩ | ⟨-, hadd⟩⟩
  · exact h
  · refine ⟨h.backEnd, h.notQueued, h.notRunning, ?_⟩
    have hx : PcbPtr.pcb i ≠ x := fun hix => hold (congrArg some hix.symm)
    obtain ⟨q, -, hdestroy⟩ := Outcome.bind_eq_ok.1 hterminate
    cases x with
    | nullProcess => cases hdestroy
    | pcb j =>
      obtain ⟨-, -, hret⟩ := Outcome.bind_eq_ok.1 hdestroy
      cases hret
      exact (Function.update_of_ne hx _ _).trans ((Function.update_of_ne hx _ _).trans h.pcb)
  · exact h.addToProcessQueue (fun hx => hold (congrArg some hx)) hadd

/-- Reference: `sched_dispatcher` (`src/scheduler.c:42`). -/
theorem Sched.Lost.dispatcher (h : s.Lost i p) (hstep : schedDispatcher s c = .ok s') :
    s'.Lost i p := by
  obtain ⟨⟨next, t⟩, hnext, hstep⟩ := Outcome.bind_eq_ok.1 hstep
  obtain ⟨⟨next', u⟩, hchoose, hstep⟩ := Outcome.bind_eq_ok.1 hstep
  obtain ⟨ht, hother⟩ := h.getNextProcess hnext
  have hu : u.Lost i p ∧ next' ≠ some (.pcb i) := by
    rcases schedDispatcherChoose_cases hchoose with
      ⟨x, rfl, rfl, rfl⟩ | ⟨-, rfl, rfl, -⟩ | ⟨-, rfl, rfl, -⟩
    · exact ⟨ht.modifyCore (ht.notRunning c), hother⟩
    · exact ⟨ht, nofun⟩
    · exact ⟨ht.modifyCore (ht.notRunning c), nofun⟩
  cases next' with
  | none =>
    cases hstep
    exact hu.1
  | some x =>
    obtain ⟨v, hload, hstep⟩ := Outcome.bind_eq_ok.1 hstep
    obtain ⟨w, haway, hret⟩ := Outcome.bind_eq_ok.1 hstep
    cases hret
    have hv := hu.1.dispatcherLoad (fun hx => hu.2 (congrArg some hx)) (ht.notRunning c) hload
    have hw := hv.dispatcherPutAway (ht.notRunning c) haway
    exact hw.modifyCore (hw.notRunning c)

/-- Reference: `sched_execute` (`src/scheduler.c:26`). -/
theorem Sched.Lost.executeCore (h : s.Lost i p) (hstep : schedExecuteCore s c = .ok s') :
    s'.Lost i p := by
  obtain ⟨t, hupdate, hstep⟩ := Outcome.bind_eq_ok.1 hstep
  have ht := h.updateRunningPcb hupdate
  rcases schedExecuteUpdated_cases hstep with ⟨hdispatch, -⟩ | ⟨-, -, rfl⟩ | ⟨-, -, -, rfl⟩
  · exact ht.dispatcher hdispatch
  · exact ht.modifyCore (ht.notRunning c)
  · exact ht

/-- A step that does not add the process again. -/
theorem Sched.Lost.step {step : AskedStep ι k} (h : s.Lost i p) (hadd : step ≠ .sched (.add i))
    (hstep : step.exec s = .ok s') : s'.Lost i p := by
  cases step with
  | sched step =>
    cases step with
    | add j =>
      refine h.addToProcessQueue (fun hj => hadd ?_) hstep
      rw [PcbPtr.pcb.inj hj]
    | dispatcher c => exact h.dispatcher hstep
    | execute => exact Pass.foldlM_keeps (fun _ _ _ _ ht hturn => ht.executeCore hturn) h hstep
  | queueIsEmpty =>
    obtain ⟨⟨ret, t⟩, hask, hret⟩ := Outcome.bind_eq_ok.1 hstep
    cases hret
    obtain ⟨⟨r, iSched⟩, hpeek, hret⟩ := Outcome.bind_eq_ok.1 hask
    cases hret
    exact (h.peek hpeek).1

/-- `sched_queue_is_empty` answers right. On a simple queue it changes nothing. On a priority queue
it takes out the process that would have come next, and in every run from there on, of added
processes, dispatches, passes and further questions, that process is in no queue and on no core, and
its PCB is not freed. Reference: `sched_queue_is_empty` (`src/scheduler.c:125`). -/
theorem sched_queue_is_empty_loses {known : Set ι} (h : s.WellFormed known) :
    ∃ ret s', schedQueueIsEmpty s = .ok (ret, s') ∧ (ret = 1 ↔ s.queued = 0) ∧
      (¬ PrioPolicy s.currentPolicy → s' = s) ∧
      (PrioPolicy s.currentPolicy →
        ∀ i, s.schedulerQueueIObject.schedData.next? = some (.pcb i) →
          s.queued = s'.queued + {.pcb i} ∧ ∃ p, s.pcbs (.pcb i) = some p ∧
            ∀ steps u, .sched (.add i) ∉ steps →
              Lts.Steps (fun s (step : AskedStep ι k) s' => step.exec s = .ok s') s' steps u →
              .pcb i ∉ u.queued ∧ (∀ c, (u.coreControlArray c).currentProcess ≠ some (.pcb i)) ∧
                u.pcbs (.pcb i) = some p) := by
  obtain ⟨r, iSched, hpeek, hback, hnext, hempty, hcases⟩ := iSchedPeek_spec h.backEnd
  refine ⟨_, { s with schedulerQueueIObject := iSched }, by rw [schedQueueIsEmpty, hpeek]; rfl,
    ?_, fun hpolicy => ?_, fun hpolicy i hi => ?_⟩
  · unfold Sched.queued
    rw [← hempty]
    cases r <;> simp
  · rcases hcases with ⟨hprio, -⟩ | ⟨-, rfl, -⟩
    · exact absurd hprio hpolicy
    · rfl
  · rcases hcases with ⟨-, hqueued⟩ | ⟨hsimple, -⟩
    · obtain rfl : r = some (.pcb i) := hnext.trans hi
      have hbefore : s.queued = iSched.schedData.queued + {.pcb i} := hqueued
      have hmem : .pcb i ∈ s.queued := by simp [hbefore]
      obtain ⟨hknown, hlive, -⟩ := h.queued_placed hmem
      obtain ⟨p, hp⟩ := Option.isSome_iff_exists.1 hlive
      refine ⟨hbefore, p, hp, fun steps u hsteps hrun => ?_⟩
      have hlost : ({ s with schedulerQueueIObject := iSched } : Sched ι τ k n).Lost i p := by
        refine ⟨hback, fun hin => ?_, fun c hc => (h.running_placed hc).2.2 hmem, hp⟩
        have hone := h.once i hknown hlive
        have hrunning := s.running_nonneg i
        have hcount := Multiset.one_le_count_iff_mem.2 hin
        rw [Sched.places, hbefore, Multiset.count_add, Multiset.count_singleton_self] at hone
        have hcount' : 1 ≤ iSched.schedData.queued.count (.pcb i) := hcount
        omega
      have hkeep : ∀ (t : Sched ι τ k n) (step : AskedStep ι k) t', t.Lost i p →
          step ≠ .sched (.add i) → step.exec t = .ok t' → t'.Lost i p :=
        fun _ _ _ ht hadd hstep => ht.step hadd hstep
      have hend := hrun.invariant_of_labels hkeep hlost
        fun step hmem hadd => hsteps (by rwa [hadd] at hmem)
      exact ⟨hend.notQueued, hend.notRunning, hend.pcb⟩
    · exact absurd hpolicy hsimple

/-- One idle core under `SCHED_PRIO_FIFO`, and a process that is not queued yet. -/
def oneUnqueued : Sched Unit Unit 1 20 where
  currentPolicy := schedPrioFifo
  schedulerQueueIObject :=
    rqPrioFifoISchedInplement (runqueueInit ⟨0, none, none, fun _ => prioArrayInit⟩)
  timerTickFreq := 5
  coreControlArray _ := ⟨(), some .nullProcess, 0, nullProcessRun⟩
  pcbs _ := some ⟨1, 3, prReady, ⟨0, 0, 0⟩, ⟨0, 0, fun _ => 0, 0⟩⟩
  threads _ := ⟨0, 0, 0, fun _ => 0, 0, tlbFlush 20⟩

theorem oneUnqueued_wellFormed : oneUnqueued.WellFormed ∅ := by
  let runq : RtRunqueue (PcbPtr Unit) := ⟨0, none, none, fun _ => prioArrayInit⟩
  obtain ⟨hok, hzero⟩ := runqueueInit_ok runq
  have hqueued : oneUnqueued.queued = 0 := by
    show (SchedData.prio _).queued = 0
    rw [hok.queued, hzero]
    rfl
  have hidle : ∀ c, (oneUnqueued.coreControlArray c).currrentCpuSchedStatus ≠ processRun :=
    fun c => show nullProcessRun ≠ processRun by decide
  refine ⟨.prio (by decide) hok, rfl, nofun, fun i _ => ?_, nofun, fun c _ => hidle c⟩
  rw [Sched.places, hqueued]
  rfl

/-- The process is queued and lost, and no pass runs it. -/
theorem sched_queue_is_empty_loses_one : ∃ (s s' u : Sched Unit Unit 1 20) (ret : Int),
    schedAddToProcessQueue oneUnqueued (.pcb ()) = .ok s ∧ s.WellFormed {()} ∧
    schedQueueIsEmpty s = .ok (ret, s') ∧ schedExecute s' = .ok u ∧ .pcb () ∉ u.queued ∧
    (u.pcbs (.pcb ())).isSome := by
  obtain ⟨s, ret, s', u, hadd, hpolicy, hnext, hask, hpass⟩ : ∃ s ret s' u,
      schedAddToProcessQueue oneUnqueued (.pcb ()) = .ok s ∧ s.currentPolicy = schedPrioFifo ∧
      s.schedulerQueueIObject.schedData.next? = some (.pcb ()) ∧
      schedQueueIsEmpty s = .ok (ret, s') ∧ schedExecute s' = .ok u :=
    ⟨_, _, _, _, rfl, rfl, rfl, rfl, rfl⟩
  obtain ⟨s₁, hadd', hwf⟩ := (schedAddToProcessQueue_keeps_iff oneUnqueued_wellFormed
    (Set.notMem_empty ()) rfl).2 fun _ => by decide
  cases hadd'.symm.trans hadd
  obtain ⟨ret', s₂, hask', -, -, hloses⟩ := sched_queue_is_empty_loses hwf
  cases hask'.symm.trans hask
  obtain ⟨-, p, -, hruns⟩ := hloses (by rw [hpolicy]; decide) () hnext
  obtain ⟨hqueued, -, hpcb⟩ := hruns [.sched .execute] u (by simp) (Lts.Steps.refl.tail hpass)
  refine ⟨s, s', u, ret, hadd, ?_, hask, hpass, hqueued, by rw [hpcb]; rfl⟩
  rwa [insert_empty_eq] at hwf

end SeKernel
