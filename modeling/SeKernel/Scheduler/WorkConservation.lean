import SeKernel.Lib.Lts
import SeKernel.Lib.Pass
import SeKernel.Scheduler.WellFormed

/-!
# Idle cores

A record marked `NULL_PROCESS_RUN` gets `null_process` before the queue is looked at, and is marked
so again; an idle record that is not marked makes the dispatcher follow `NULL` or free
`null_process`. So no idle core ever takes a queued process, whatever the state
(`Sched.Idle.not_workConserved`), and the first core stays idle in every run from `sched_init`
(`work_never_conserved`).
-/

namespace SeKernel

variable {ι τ : Type} {k n : Nat}

/-- The core runs nothing or `null_process`. -/
def Sched.Idle (s : Sched ι τ k n) (c : Fin k) : Prop :=
  (s.coreControlArray c).currentProcess = none ∨
    (s.coreControlArray c).currentProcess = some .nullProcess

/-- The core is idle and marked so. -/
def Sched.IdleMarked (s : Sched ι τ k n) (c : Fin k) : Prop :=
  s.Idle c ∧ (s.coreControlArray c).currrentCpuSchedStatus = nullProcessRun

variable {c d : Fin k} {s s' t : Sched ι τ k n}

theorem Sched.Idle.eq_nullProcess (h : s.Idle c) {x : PcbPtr ι}
    (hx : (s.coreControlArray c).currentProcess = some x) : x = .nullProcess := by
  rcases h with hnone | hnull
  · rw [hnone] at hx
    cases hx
  · rw [hnull] at hx
    exact (Option.some.inj hx).symm

theorem Sched.IdleMarked.of_eq (h : s.IdleMarked c)
    (hcore : s'.coreControlArray c = s.coreControlArray c) : s'.IdleMarked c := by
  unfold Sched.IdleMarked Sched.Idle
  rw [hcore]
  exact h

theorem Sched.IdleMarked.updateRunningPcb (h : s.IdleMarked c)
    (hupdate : schedUpdateRunningPcb s c = .ok s') : s'.IdleMarked c := by
  rcases schedUpdateRunningPcb_cases hupdate with ⟨-, rfl⟩ | ⟨-, rfl⟩
  · exact h
  · exact ⟨.inl (by simp), by simpa using h.2⟩

variable [DecidableEq ι] [DecidableEq τ]

/-- The dispatcher makes the core run a process that was in the ready queue. -/
def Sched.WorkConserved (s : Sched ι τ k n) (c : Fin k) : Prop :=
  ∃ s', schedDispatcher s c = .ok s' ∧ ∃ x ∈ s.queued, x ≠ .nullProcess ∧
    (s'.coreControlArray c).currentProcess = some x

/-- In a pass that starts in `s`, the record `c` has its turn, and is up to date, in state `t`. -/
def Sched.PassReaches (s : Sched ι τ k n) (c : Fin k) (t : Sched ι τ k n) : Prop :=
  ∃ u, ((List.finRange k).take c).foldlM schedExecuteCore s = .ok u ∧
    schedUpdateRunningPcb u c = .ok t

/-! ## One call of the dispatcher -/

/-- A record marked idle switches to `null_process`. Reference:
`__sched_get_next_process_clean_queue` (`src/scheduler.c:91`). -/
theorem schedDispatcher_idleMarked
    (hstatus : (s.coreControlArray c).currrentCpuSchedStatus = nullProcessRun)
    (h : schedDispatcher s c = .ok s') :
    (s'.coreControlArray c).currentProcess = some .nullProcess ∧
      (s'.coreControlArray c).currrentCpuSchedStatus = nullProcessRun := by
  unfold schedDispatcher schedGetNextProcessCleanQueue at h
  rw [if_pos hstatus] at h
  exact schedDispatcherSwitch_core h

/-- No idle core takes a queued process. Reference: `sched_dispatcher` (`src/scheduler.c:42`). -/
theorem Sched.Idle.not_workConserved (hidle : s.Idle c) : ¬ s.WorkConserved c := by
  rintro ⟨s', hdispatch, x, -, hx, hcurrent⟩
  by_cases hstatus : (s.coreControlArray c).currrentCpuSchedStatus = nullProcessRun
  · have hnull := (schedDispatcher_idleMarked hstatus hdispatch).1
    rw [hcurrent] at hnull
    exact hx (Option.some.inj hnull)
  · rcases hidle with hnone | hnull
    · exact schedDispatcher_no_current hstatus hnone hdispatch
    · obtain ⟨⟨r, t⟩, hnext, h⟩ := Outcome.bind_eq_ok.1 hdispatch
      unfold schedGetNextProcessCleanQueue at hnext
      rw [if_neg hstatus] at hnext
      obtain ⟨iSched, rfl⟩ := schedGetNextProcess_eq hnext
      dsimp only at h
      rw [hnull] at h
      cases r with
      | none =>
        cases h
        dsimp only at hcurrent
        rw [hnull] at hcurrent
        exact hx (Option.some.inj hcurrent).symm
      | some y =>
        by_cases hy : y = .nullProcess
        · have hswitched := (schedDispatcherSwitch_core h).1
          rw [hcurrent] at hswitched
          exact hx ((Option.some.inj hswitched).trans hy)
        · exact schedDispatcherSwitch_nullProcess (by simpa using hstatus) hy h

/-! ## Runs -/

/-- Reference: `sched_execute` (`src/scheduler.c:28`). -/
theorem Sched.IdleMarked.executeUpdated (h : s.IdleMarked c)
    (hexecute : schedExecuteUpdated s c = .ok s') : s'.IdleMarked c := by
  have hdispatcher : ∀ t, schedDispatcher s c = .ok t → t.IdleMarked c := by
    intro t ht
    obtain ⟨hcurrent, hstatus⟩ := schedDispatcher_idleMarked h.2 ht
    exact ⟨.inr hcurrent, hstatus⟩
  rcases schedExecuteUpdated_cases hexecute with
    ⟨hdispatch, -⟩ | ⟨-, -, rfl⟩ | ⟨-, hbusy, -, -⟩
  · exact hdispatcher s' hdispatch
  · exact ⟨by simpa [Sched.Idle] using h.1, by simpa using h.2⟩
  · exact absurd h.2 hbusy

/-- A core that is idle and marked so stays like that in every turn of a pass. Reference:
`sched_execute` (`src/scheduler.c:26`). -/
theorem Sched.IdleMarked.executeCore (h : s.IdleMarked c)
    (hexecute : schedExecuteCore s d = .ok s') : s'.IdleMarked c := by
  by_cases hd : d = c
  · subst hd
    obtain ⟨t, hupdate, hexecute⟩ := Outcome.bind_eq_ok.1 hexecute
    exact (h.updateRunningPcb hupdate).executeUpdated hexecute
  · exact h.of_eq ((schedExecuteCore_onlyCore hexecute).cores c (Ne.symm hd))

/-- A core that is idle and marked so stays like that in every step. -/
theorem Sched.IdleMarked.step {step : SchedStep ι k} (h : s.IdleMarked c)
    (hstep : step.exec s = .ok s') : s'.IdleMarked c := by
  cases step with
  | add newPcb =>
    obtain ⟨p, -, hstep⟩ := Outcome.bind_eq_ok.1 hstep
    obtain ⟨iSched, -, hstep⟩ := Outcome.bind_eq_ok.1 hstep
    cases hstep
    exact h
  | dispatcher d =>
    by_cases hd : d = c
    · subst hd
      obtain ⟨hcurrent, hstatus⟩ := schedDispatcher_idleMarked h.2 hstep
      exact ⟨.inr hcurrent, hstatus⟩
    · exact h.of_eq ((schedDispatcher_onlyCore hstep).cores c (Ne.symm hd))
  | execute =>
    exact Pass.foldlM_keeps (I := fun u => u.IdleMarked c)
      (fun u d _ u' hu hturn => hu.executeCore hturn) h hstep

variable [NeZero k]

theorem schedInit_idleMarked {loadNullPcb : Mmu n → Pcb → Outcome (Mmu n × Pcb)}
    {configure : Int → Outcome (SISched (PcbPtr ι))} {sched : Sched ι τ k n} {timerTickFreq : Int}
    {firstThread : τ} {policy : Int}
    (h : schedInit loadNullPcb configure sched timerTickFreq firstThread policy = .ok s) :
    s.IdleMarked 0 := by
  obtain ⟨p, -, h⟩ := Outcome.bind_eq_ok.1 h
  obtain ⟨⟨mmu, p'⟩, -, h⟩ := Outcome.bind_eq_ok.1 h
  obtain ⟨iSched, -, h⟩ := Outcome.bind_eq_ok.1 h
  cases h
  simp [Sched.IdleMarked, Sched.Idle, schedCpuThreadControlInit]

/-- In every run from `sched_init`, for every policy, whatever queue is set up and whatever the
steps, the first core is idle in every state, and no call of the dispatcher in a pass makes an idle
core run a process of the queue. Reference: `sched_dispatcher` (`src/scheduler.c:42`),
`sched_execute` (`src/scheduler.c:24`), `sched_init` (`src/scheduler.c:141`). -/
theorem work_never_conserved {loadNullPcb : Mmu n → Pcb → Outcome (Mmu n × Pcb)}
    {configure : Int → Outcome (SISched (PcbPtr ι))} {sched s₀ s : Sched ι τ k n}
    {timerTickFreq : Int} {firstThread : τ} {policy : Int} {steps : List (SchedStep ι k)}
    (hinit : schedInit loadNullPcb configure sched timerTickFreq firstThread policy = .ok s₀)
    (hrun : Lts.Steps (fun s step s' => SchedStep.exec step s = .ok s') s₀ steps s) :
    s.Idle 0 ∧ ∀ c t, s.PassReaches c t → t.Idle c → ¬ t.WorkConserved c := by
  have hmarked : s.IdleMarked 0 :=
    hrun.invariant (I := (·.IdleMarked 0)) (fun t step u ht hstep => ht.step hstep)
      (schedInit_idleMarked hinit)
  exact ⟨hmarked.1, fun c t _ hidle => hidle.not_workConserved⟩

/-! ## One core and one process -/

/-- The structure of a scheduler with one core before `sched_init`, and a process. -/
def oneCore : Sched Unit Unit 1 20 where
  currentPolicy := 0
  schedulerQueueIObject := rqSimpleFifoISchedImplement ⟨0, []⟩
  timerTickFreq := 0
  coreControlArray _ := ⟨(), none, 0, 0⟩
  pcbs _ := some ⟨0, 0, prUndefined, ⟨0, 0, 0⟩, ⟨0, 0, fun _ => 0, 0⟩⟩
  threads _ := ⟨0, 0, 0, fun _ => 0, 0, tlbFlush 20⟩

/-- `sched_init` with policy `SCHED_FIFO` and an empty simple queue. -/
def oneCoreInit : Outcome (Sched Unit Unit 1 20) :=
  schedInit (fun _ pcb => .ok (tlbFlush 20, { pcb with memoryMap := ⟨0, 0, 0x400000⟩ }))
    (fun _ => .ok (rqSimpleFifoISchedImplement (rqSimpleFifoInit ⟨0, []⟩))) oneCore 5 () schedFifo

/-- The core is idle with a process queued. -/
theorem work_never_conserved_one :
    ∃ s₀ s, oneCoreInit = .ok s₀ ∧ (SchedStep.add ()).exec s₀ = .ok s ∧ s.Idle 0 := by
  have hsteps : ∃ s₀ s, oneCoreInit = .ok s₀ ∧ (SchedStep.add ()).exec s₀ = .ok s :=
    ⟨_, _, rfl, rfl⟩
  obtain ⟨s₀, s, hinit, hadd⟩ := hsteps
  exact ⟨s₀, s, hinit, hadd, (work_never_conserved hinit (.tail .refl hadd)).1⟩

/-- The first pass calls the dispatcher for the idle core while the process is queued; the core runs
`null_process` and the process stays in the queue. -/
theorem work_not_conserved :
    ∃ s₀ s t t', oneCoreInit = .ok s₀ ∧ (SchedStep.add ()).exec s₀ = .ok s ∧ s.PassReaches 0 t ∧
      t.Idle 0 ∧ .pcb () ∈ t.queued ∧ schedDispatcher t 0 = .ok t' ∧ schedExecute s = .ok t' ∧
      (t'.coreControlArray 0).currentProcess = some .nullProcess ∧ .pcb () ∈ t'.queued := by
  refine ⟨_, _, _, _, rfl, rfl, ⟨_, rfl, rfl⟩, .inl rfl, ?_, rfl, rfl, rfl, ?_⟩
  · exact List.mem_singleton_self _
  · exact List.mem_singleton_self _

end SeKernel
