import SeKernel.Scheduler.Basic

/-!
# What a turn leaves alone

Four functions of a turn have several ways to return. Each of them gets one lemma that lists these
ways (`schedUpdateRunningPcb_cases`, `schedExecuteUpdated_cases`, `schedDispatcherChoose_cases`,
`schedDispatcherPutAway_cases`).

The functions that work for one control record leave the policy, the other records and what a simple
queue already holds as they are, in every state (`schedExecuteCore_onlyCore`).
-/

namespace SeKernel

variable {ι τ : Type} {k n : Nat}

/-- `s'` has the policy of `s` and its records but for `c`, and a simple queue has lost nothing. -/
structure Sched.OnlyCore (c : Fin k) (s s' : Sched ι τ k n) : Prop where
  policy : s'.currentPolicy = s.currentPolicy
  cores : ∀ d, d ≠ c → s'.coreControlArray d = s.coreControlArray d
  queue : ∀ rq, s.schedulerQueueIObject = rqSimpleFifoISchedImplement rq →
    ∃ rq', s'.schedulerQueueIObject = rqSimpleFifoISchedImplement rq' ∧ rq.active <+: rq'.active

variable {c : Fin k} {s s' t : Sched ι τ k n} {next old : Option (PcbPtr ι)}

/-! ## The ways to return -/

/-- Reference: `__sched_update_running_pcb` (`src/scheduler.c:78`). -/
theorem schedUpdateRunningPcb_cases (h : schedUpdateRunningPcb s c = .ok s') :
    ((∀ x p, (s.coreControlArray c).currentProcess = some x → s.pcbs x = some p →
        p.status ≠ prFini) ∧ s' = s) ∨
    ((∃ x p, (s.coreControlArray c).currentProcess = some x ∧ s.pcbs x = some p ∧
        p.status = prFini) ∧ s' = s.modifyCore c ({ · with currentProcess := none })) := by
  unfold schedUpdateRunningPcb at h
  cases hcurrent : (s.coreControlArray c).currentProcess with
  | none =>
    rw [hcurrent] at h
    cases h
    exact .inl ⟨nofun, rfl⟩
  | some x =>
    rw [hcurrent] at h
    obtain ⟨p, hread, h⟩ := Outcome.bind_eq_ok.1 h
    have hp := PcbHeap.read_eq_ok.1 hread
    split at h
    · next hfini =>
      cases h
      exact .inr ⟨⟨x, p, rfl, hp, hfini⟩, rfl⟩
    · next hlive =>
      cases h
      refine .inl ⟨fun y q hy hq => ?_, rfl⟩
      cases hy
      cases hp.symm.trans hq
      exact hlive

/-- Reference: `sched_dispatcher` (`src/scheduler.c:46`). -/
theorem schedDispatcherChoose_cases [DecidableEq ι] {next' : Option (PcbPtr ι)}
    (h : schedDispatcherChoose s c old next = .ok (next', s')) :
    (∃ x, next = some x ∧ next' = some x ∧
      s' = s.modifyCore c ({ · with currentProcessQuantum := schedulerBaseProcessRrFreq })) ∨
    (next = none ∧ next' = none ∧ s' = s ∧
      (old = some .nullProcess ∨ ∃ status, s.pcbs.status old = .ok status ∧ status ≠ prFini)) ∨
    (next = none ∧ next' = some .nullProcess ∧
      s' = s.modifyCore c ({ · with currrentCpuSchedStatus := schedulerNullProcessRrFreq }) ∧
      old ≠ some .nullProcess ∧ s.pcbs.status old = .ok prFini) := by
  unfold schedDispatcherChoose at h
  cases next with
  | some x =>
    cases h
    exact .inl ⟨x, rfl, rfl, rfl⟩
  | none =>
    dsimp only at h
    split at h
    · next hold =>
      cases h
      exact .inr (.inl ⟨rfl, rfl, rfl, .inl hold⟩)
    · next hold =>
      obtain ⟨status, hstatus, h⟩ := Outcome.bind_eq_ok.1 h
      split at h
      · next hfini =>
        cases h
        exact .inr (.inr ⟨rfl, rfl, rfl, hold, hfini ▸ hstatus⟩)
      · next hlive =>
        cases h
        exact .inr (.inl ⟨rfl, rfl, rfl, .inr ⟨status, hstatus, hlive⟩⟩)

/-- Reference: `sched_dispatcher` (`src/scheduler.c:58`). -/
theorem schedDispatcherPutAway_cases [DecidableEq ι] (h : schedDispatcherPutAway s c old = .ok s') :
    ((s.coreControlArray c).currrentCpuSchedStatus = nullProcessRun ∧ s' = s) ∨
    ((s.coreControlArray c).currrentCpuSchedStatus ≠ nullProcessRun ∧
      ∃ x status, old = some x ∧ s.pcbs.status (some x) = .ok status ∧
        ((status = prFini ∧ ∃ pcbs, dispTerminate s.pcbs
            (s.threads (s.coreControlArray c).threadS) x = .ok pcbs ∧ s' = { s with pcbs }) ∨
          (status ≠ prFini ∧ schedAddToProcessQueue s x = .ok s'))) := by
  unfold schedDispatcherPutAway at h
  split at h
  · next hidle =>
    cases h
    exact .inl ⟨hidle, rfl⟩
  · next hbusy =>
    cases old with
    | none => cases h
    | some x =>
      obtain ⟨status, hstatus, h⟩ := Outcome.bind_eq_ok.1 h
      refine .inr ⟨hbusy, x, status, rfl, hstatus, ?_⟩
      split at h
      · next hfini =>
        obtain ⟨pcbs, hend, h⟩ := Outcome.bind_eq_ok.1 h
        cases h
        exact .inl ⟨hfini, pcbs, hend, rfl⟩
      · next hlive => exact .inr ⟨hlive, h⟩

/-- Reference: `sched_execute` (`src/scheduler.c:28`). -/
theorem schedExecuteUpdated_cases [DecidableEq ι] [DecidableEq τ]
    (h : schedExecuteUpdated s c = .ok s') :
    (schedDispatcher s c = .ok s' ∧
      ((RoundRobin s.currentPolicy ∧ (s.coreControlArray c).currentProcessQuantum ≤ 0) ∨
        (¬ RoundRobin s.currentPolicy ∧
          ((s.coreControlArray c).currrentCpuSchedStatus = nullProcessRun ∨
            s.pcbs.status (s.coreControlArray c).currentProcess = .ok prFini)))) ∨
    (RoundRobin s.currentPolicy ∧ 0 < (s.coreControlArray c).currentProcessQuantum ∧
      s' = s.modifyCore c fun r =>
        { r with currentProcessQuantum := r.currentProcessQuantum - s.timerTickFreq }) ∨
    (¬ RoundRobin s.currentPolicy ∧
      (s.coreControlArray c).currrentCpuSchedStatus ≠ nullProcessRun ∧
      (∃ status, s.pcbs.status (s.coreControlArray c).currentProcess = .ok status ∧
        status ≠ prFini) ∧ s' = s) := by
  unfold schedExecuteUpdated at h
  split at h
  · next hpolicy =>
    split at h
    · next hquantum => exact .inl ⟨h, .inl ⟨hpolicy, hquantum⟩⟩
    · next hquantum =>
      cases h
      exact .inr (.inl ⟨hpolicy, Int.not_le.1 hquantum, rfl⟩)
  · next hpolicy =>
    split at h
    · next hidle => exact .inl ⟨h, .inr ⟨hpolicy, .inl hidle⟩⟩
    · next hbusy =>
      obtain ⟨status, hstatus, h⟩ := Outcome.bind_eq_ok.1 h
      split at h
      · next hfini => exact .inl ⟨h, .inr ⟨hpolicy, .inr (hfini ▸ hstatus)⟩⟩
      · next hlive =>
        cases h
        exact .inr (.inr ⟨hpolicy, hbusy, ⟨status, hstatus, hlive⟩, rfl⟩)

/-! ## One record only -/

/-- A change of the PCBs and threads. -/
theorem Sched.OnlyCore.of_eq (hpolicy : s'.currentPolicy = s.currentPolicy)
    (hcores : s'.coreControlArray = s.coreControlArray)
    (hqueue : s'.schedulerQueueIObject = s.schedulerQueueIObject) : s.OnlyCore c s' where
  policy := hpolicy
  cores d _ := congrFun hcores d
  queue rq hrq := ⟨rq, hqueue.trans hrq, List.prefix_rfl⟩

theorem Sched.OnlyCore.refl (c : Fin k) (s : Sched ι τ k n) : s.OnlyCore c s := .of_eq rfl rfl rfl

theorem Sched.OnlyCore.trans (h : s.OnlyCore c t) (h' : t.OnlyCore c s') : s.OnlyCore c s' where
  policy := h'.policy.trans h.policy
  cores d hd := (h'.cores d hd).trans (h.cores d hd)
  queue rq hrq := by
    obtain ⟨rq₁, hrq₁, hpre₁⟩ := h.queue rq hrq
    obtain ⟨rq₂, hrq₂, hpre₂⟩ := h'.queue rq₁ hrq₁
    exact ⟨rq₂, hrq₂, hpre₁.trans hpre₂⟩

theorem Sched.OnlyCore.modifyCore (f : CoreControl ι τ → CoreControl ι τ) :
    s.OnlyCore c (s.modifyCore c f) where
  policy := rfl
  cores _ hd := Function.update_of_ne hd _ _
  queue rq hrq := ⟨rq, hrq, List.prefix_rfl⟩

/-- The front of a simple queue stays. -/
theorem Sched.OnlyCore.front?_eq (h : s.OnlyCore c s')
    (hback : BackEndOk s.currentPolicy s.schedulerQueueIObject) {x : PcbPtr ι}
    (hx : s.schedulerQueueIObject.schedData.front? = some x) :
    s'.schedulerQueueIObject.schedData.front? = s.schedulerQueueIObject.schedData.front? := by
  obtain ⟨rq, hrq, -⟩ := hback.of_front? hx
  obtain ⟨rq', hrq', hpre⟩ := h.queue rq hrq
  rw [hrq] at hx
  have hhead : rq.active.head? = some x := hx
  rw [hrq', hrq]
  show rq'.active.head? = rq.active.head?
  obtain ⟨l, hl⟩ := hpre
  rw [← hl, List.head?_append, hhead]
  rfl

theorem schedGetNextProcess_onlyCore (h : schedGetNextProcess s = .ok (next, s')) :
    s.OnlyCore c s' := by
  unfold schedGetNextProcess at h
  split at h
  · obtain ⟨⟨r, obj⟩, hpeek, h⟩ := Outcome.bind_eq_ok.1 h
    cases h
    refine ⟨rfl, fun d _ => rfl, ?_⟩
    intro rq hrq
    rw [hrq] at hpeek
    cases hpeek
    exact ⟨rq, rfl, List.prefix_rfl⟩
  · cases h
    exact .refl c s

theorem schedGetNextProcessCleanQueue_onlyCore
    (h : schedGetNextProcessCleanQueue s c = .ok (next, s')) : s.OnlyCore c s' := by
  unfold schedGetNextProcessCleanQueue at h
  split at h
  · cases h
    exact .refl c s
  · exact schedGetNextProcess_onlyCore h

theorem schedUpdateRunningPcb_onlyCore (h : schedUpdateRunningPcb s c = .ok s') :
    s.OnlyCore c s' := by
  rcases schedUpdateRunningPcb_cases h with ⟨-, rfl⟩ | ⟨-, rfl⟩
  · exact .refl c _
  · exact .modifyCore _

variable [DecidableEq ι]

theorem schedAddToProcessQueue_onlyCore {p : PcbPtr ι} (h : schedAddToProcessQueue s p = .ok s') :
    s.OnlyCore c s' := by
  obtain ⟨pcb, -, h⟩ := Outcome.bind_eq_ok.1 h
  obtain ⟨obj, hins, h⟩ := Outcome.bind_eq_ok.1 h
  cases h
  refine ⟨rfl, fun d _ => rfl, ?_⟩
  intro rq hrq
  rw [hrq] at hins
  cases hins
  exact ⟨rqSimpleFifoIn rq p, rfl, List.prefix_append rq.active [p]⟩

theorem schedDispatcherChoose_onlyCore {next' : Option (PcbPtr ι)}
    (h : schedDispatcherChoose s c old next = .ok (next', s')) : s.OnlyCore c s' := by
  rcases schedDispatcherChoose_cases h with ⟨x, -, -, rfl⟩ | ⟨-, -, rfl, -⟩ | ⟨-, -, rfl, -⟩
  · exact .modifyCore _
  · exact .refl c _
  · exact .modifyCore _

theorem schedDispatcherPutAway_onlyCore (h : schedDispatcherPutAway s c old = .ok s') :
    s.OnlyCore c s' := by
  rcases schedDispatcherPutAway_cases h with
    ⟨-, rfl⟩ | ⟨-, x, status, -, -, ⟨-, pcbs, -, rfl⟩ | ⟨-, hadd⟩⟩
  · exact .refl c _
  · exact .of_eq rfl rfl rfl
  · exact schedAddToProcessQueue_onlyCore hadd

variable [DecidableEq τ]

theorem schedDispatcherLoad_onlyCore {x : PcbPtr ι} (h : schedDispatcherLoad s c old x = .ok s') :
    s.OnlyCore c s' := by
  obtain ⟨⟨pcbs, thread⟩, -, h⟩ := Outcome.bind_eq_ok.1 h
  cases h
  have hcurrent : s.OnlyCore c (s.modifyCore c ({ · with currentProcess := some x })) :=
    .modifyCore _
  exact hcurrent.trans (.of_eq rfl rfl rfl)

theorem schedDispatcherSwitch_onlyCore {x : PcbPtr ι}
    (h : schedDispatcherSwitch s c old x = .ok s') : s.OnlyCore c s' := by
  obtain ⟨t, hload, h⟩ := Outcome.bind_eq_ok.1 h
  obtain ⟨u, haway, h⟩ := Outcome.bind_eq_ok.1 h
  cases h
  have hu := (schedDispatcherLoad_onlyCore hload).trans (schedDispatcherPutAway_onlyCore haway)
  exact hu.trans (.modifyCore _)

theorem schedDispatcher_onlyCore (h : schedDispatcher s c = .ok s') : s.OnlyCore c s' := by
  obtain ⟨⟨next, t⟩, hnext, h⟩ := Outcome.bind_eq_ok.1 h
  obtain ⟨⟨next', u⟩, hchoose, h⟩ := Outcome.bind_eq_ok.1 h
  have hu := (schedGetNextProcessCleanQueue_onlyCore hnext).trans
    (schedDispatcherChoose_onlyCore hchoose)
  cases next' with
  | none =>
    cases h
    exact hu
  | some x => exact hu.trans (schedDispatcherSwitch_onlyCore h)

theorem schedExecuteUpdated_onlyCore (h : schedExecuteUpdated s c = .ok s') : s.OnlyCore c s' := by
  rcases schedExecuteUpdated_cases h with ⟨hdispatch, -⟩ | ⟨-, -, rfl⟩ | ⟨-, -, -, rfl⟩
  · exact schedDispatcher_onlyCore hdispatch
  · exact .modifyCore _
  · exact .refl c _

/-- A turn changes its own record only, and takes nothing from a simple queue. Reference:
`sched_execute` (`src/scheduler.c:26`). -/
theorem schedExecuteCore_onlyCore (h : schedExecuteCore s c = .ok s') : s.OnlyCore c s' := by
  obtain ⟨t, hupdate, h⟩ := Outcome.bind_eq_ok.1 h
  exact (schedUpdateRunningPcb_onlyCore hupdate).trans (schedExecuteUpdated_onlyCore h)

end SeKernel
