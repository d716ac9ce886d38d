import SeKernel.Lib.Lts
import SeKernel.Lib.Pass
import SeKernel.Scheduler.WellFormed

/-!
# The scheduler's ownership invariant

Which steps of the scheduler keep a state well formed (`sched_step_wellFormed_iff`), and what that
means for runs (`sched_run_wellFormed`). A pass of `sched_execute` takes a turn with every record; a
turn that goes wrong does not return, or leaves a process running that is still queued, or a record
marked busy without a process, and no later turn mends that (`Sched.Broken`). Whether a pass goes
well can be said of the state at its start: `Sched.StartSafe` is always enough, and it is exact where
idle records are marked so, as the turns then do not get in each other's way
(`Sched.WellFormed.passSafe_iff`).
-/

namespace SeKernel

variable {ι τ : Type} {k n : Nat}

/-- In its turn the record keeps its process or exchanges it for one that leaves the queue. A record
that is idle and not marked so either has time left or stays on `null_process`, which has not
finished. -/
structure Sched.TurnSafe (s : Sched ι τ k n) (c : Fin k) : Prop where
  unfinished : ∀ o p, (s.coreControlArray c).currentProcess = some (.pcb o) →
    s.pcbs (.pcb o) = some p → p.status ≠ prFini
  slice : s.currentPolicy = schedRr → (s.coreControlArray c).currentProcessQuantum ≤ 0 →
    ∀ q, ¬ s.Peeks c q
  unmarked : (s.coreControlArray c).Unmarked →
    (RoundRobin s.currentPolicy → (s.coreControlArray c).currentProcessQuantum ≤ 0) →
    (s.coreControlArray c).currentProcess = some .nullProcess ∧
      (∀ p, s.pcbs .nullProcess = some p → p.status ≠ prFini) ∧
      (RoundRobin s.currentPolicy → s.NullStays c)

/-- At the start of a pass this is enough: the turn is safe, and under the policies with a time
slice a record that is idle and not marked so has time left. -/
structure Sched.StartSafe (s : Sched ι τ k n) (c : Fin k) : Prop where
  turn : s.TurnSafe c
  left : (s.coreControlArray c).Unmarked → RoundRobin s.currentPolicy →
    0 < (s.coreControlArray c).currentProcessQuantum

/-- Every idle record is marked so, as every function of the scheduler leaves it. -/
def Sched.Marked (s : Sched ι τ k n) : Prop := ∀ c, ¬ (s.coreControlArray c).Unmarked

/-- The record is marked busy and has no process, or its process is also queued. -/
def Sched.Broken (s : Sched ι τ k n) (c : Fin k) : Prop :=
  ((s.coreControlArray c).currrentCpuSchedStatus = processRun ∧
    (s.coreControlArray c).currentProcess = none) ∨ ∃ q, s.Doubled c q

variable {c d : Fin k} {s s' t : Sched ι τ k n} {known : Set ι} {i q : ι}

/-! ## Frames -/

theorem Sched.Undisturbed.refl (c : Fin k) (s : Sched ι τ k n) : s.Undisturbed c s :=
  ⟨rfl, fun _ _ => rfl, fun _ _ _ _ => rfl, fun _ => rfl⟩

theorem Sched.Undisturbed.trans (h : s.Undisturbed c t) (h' : t.Undisturbed c s') :
    s.Undisturbed c s' where
  policy := h'.policy.trans h.policy
  cores d hd := (h'.cores d hd).trans (h.cores d hd)
  pcbs d hd i hi := (h'.pcbs d hd i ((h.cores d hd).symm ▸ hi)).trans (h.pcbs d hd i hi)
  front hpolicy := (h'.front (h.policy.symm ▸ hpolicy)).trans (h.front hpolicy)

theorem Sched.Undisturbed.modifyCore (f : CoreControl ι τ → CoreControl ι τ) :
    s.Undisturbed c (s.modifyCore c f) where
  policy := rfl
  cores _ hd := s.modifyCore_of_ne c f hd
  pcbs _ _ _ _ := rfl
  front _ := rfl

/-- A turn of another record changes nothing for the own turn of a record that is marked. -/
theorem Sched.Undisturbed.turnSafe_iff (h : s.Undisturbed c s') (hd : d ≠ c)
    (hmarked : ¬ (s.coreControlArray d).Unmarked) : s'.TurnSafe d ↔ s.TurnSafe d := by
  have hpeeks : ∀ q, s'.Peeks d q ↔ s.Peeks d q := by
    intro q
    unfold Sched.Peeks
    rw [h.policy, h.cores d hd]
    refine and_congr_right fun _ => and_congr_right fun hpolicy => ?_
    rw [h.front hpolicy]
  constructor
  · intro hsafe
    refine ⟨fun o p ho hp => hsafe.unfinished o p (h.cores d hd ▸ ho) ?_,
      fun hpolicy hquantum q => ?_, fun hunmarked => absurd hunmarked hmarked⟩
    · rw [h.pcbs d hd o ho]
      exact hp
    · rw [← hpeeks]
      exact hsafe.slice (h.policy ▸ hpolicy) (h.cores d hd ▸ hquantum) q
  · intro hsafe
    refine ⟨fun o p ho hp => ?_, fun hpolicy hquantum q => ?_, fun hunmarked => ?_⟩
    · rw [h.cores d hd] at ho
      rw [h.pcbs d hd o ho] at hp
      exact hsafe.unfinished o p ho hp
    · rw [hpeeks]
      rw [h.policy] at hpolicy
      rw [h.cores d hd] at hquantum
      exact hsafe.slice hpolicy hquantum q
    · rw [h.cores d hd] at hunmarked
      exact absurd hunmarked hmarked

/-- The turns of other records do not mend a broken one. -/
theorem Sched.Broken.of_onlyCore (h : s.Broken c) (hd : d ≠ c) (hs' : s.OnlyCore d s') :
    s'.Broken c := by
  have hcore := hs'.cores c hd.symm
  rcases h with ⟨hstatus, hcurrent⟩ | ⟨q, hcurrent, rq, hrq, hmem⟩
  · exact .inl ⟨hcore ▸ hstatus, hcore ▸ hcurrent⟩
  · obtain ⟨rq', hrq', hpre⟩ := hs'.queue rq hrq
    exact .inr ⟨q, hcore ▸ hcurrent, rq', hrq', hpre.subset hmem⟩

/-- A process that has finished stops being the current one. Reference:
`__sched_update_running_pcb` (`src/scheduler.c:82`). -/
theorem schedUpdateRunningPcb_fini {o : ι} {p : Pcb}
    (ho : (s.coreControlArray c).currentProcess = some (.pcb o)) (hp : s.pcbs (.pcb o) = some p)
    (hfini : p.status = prFini) :
    schedUpdateRunningPcb s c = .ok (s.modifyCore c ({ · with currentProcess := none })) := by
  unfold schedUpdateRunningPcb
  rw [ho]
  dsimp only
  rw [PcbHeap.read_eq_ok.2 hp, Outcome.ok_bind, if_pos hfini]
  rfl

variable [DecidableEq ι]

theorem Sched.Broken.not_wellFormed (h : s.Broken c) : ¬ s.WellFormed known := by
  intro hwf
  rcases h with ⟨hstatus, hcurrent⟩ | ⟨q, hdoubled⟩
  · exact hwf.idle c (by simp [hcurrent]) hstatus
  · exact hdoubled.not_wellFormed hwf

/-! ## Processes and records -/

/-- A change of a record that keeps its process and its status keeps the state well formed. -/
theorem Sched.WellFormed.modifyCore (h : s.WellFormed known)
    {f : CoreControl ι τ → CoreControl ι τ}
    (hruns : ∀ i, (f (s.coreControlArray c)).currentProcess = some (.pcb i) ↔
      (s.coreControlArray c).currentProcess = some (.pcb i))
    (hstatus : (f (s.coreControlArray c)).currrentCpuSchedStatus =
      (s.coreControlArray c).currrentCpuSchedStatus) :
    (s.modifyCore c f).WellFormed known := by
  have hcore : ∀ d, ((s.modifyCore c f).coreControlArray d).currrentCpuSchedStatus =
        (s.coreControlArray d).currrentCpuSchedStatus ∧
      ∀ i, ((s.modifyCore c f).coreControlArray d).currentProcess = some (.pcb i) ↔
        (s.coreControlArray d).currentProcess = some (.pcb i) := by
    intro d
    by_cases hd : d = c
    · subst hd
      rw [Sched.modifyCore_self]
      exact ⟨hstatus, hruns⟩
    · rw [s.modifyCore_of_ne c f hd]
      exact ⟨rfl, fun _ => Iff.rfl⟩
  have hplaces : ∀ i, (s.modifyCore c f).places i = s.places i := by
    intro i
    have hsame : ∀ d, ((s.modifyCore c f).coreControlArray d).runs i =
        (s.coreControlArray d).runs i := by
      intro d
      simp [CoreControl.runs, (hcore d).2]
    unfold Sched.places Sched.running Counting.count
    simp only [hsame]
    rfl
  refine ⟨h.backEnd, h.nullProcess, fun i hi hlive => (hplaces i).trans (h.once i hi hlive),
    fun i hi => (hplaces i).trans (h.nowhere i hi), ?_, ?_⟩
  · intro d i hd
    exact (hcore d).1.trans (h.busy d i (((hcore d).2 i).1 hd))
  · intro d hd
    rw [(hcore d).1]
    exact h.idle d fun i hi => hd i (((hcore d).2 i).2 hi)

/-- A new process in the queue is known and has one place. -/
theorem Sched.WellFormed.enqueued {p p' : Pcb} {iSched : SISched (PcbPtr ι)}
    (h : s.WellFormed known)
    (hnew : i ∉ known) (hi : s.pcbs (.pcb i) = some p) (hback : BackEndOk s.currentPolicy iSched)
    (hqueued : iSched.schedData.queued = s.schedulerQueueIObject.schedData.queued + {.pcb i}) :
    Sched.WellFormed (insert i known)
      { s with pcbs := s.pcbs.write (.pcb i) p', schedulerQueueIObject := iSched } := by
  have hplaces : ∀ j, Sched.places { s with
      pcbs := s.pcbs.write (.pcb i) p', schedulerQueueIObject := iSched } j =
        s.places j + if j = i then 1 else 0 := by
    intro j
    unfold Sched.places Sched.queued Sched.running
    dsimp only
    rw [hqueued, Multiset.count_add, Multiset.count_singleton]
    simp only [PcbPtr.pcb.injEq]
    push_cast
    omega
  have hlive : ∀ x, (s.pcbs.write (.pcb i) p' x).isSome ↔ (s.pcbs x).isSome := by
    intro x
    unfold PcbHeap.write
    by_cases hx : x = .pcb i
    · subst hx
      simp [hi]
    · rw [Function.update_of_ne hx]
  refine ⟨hback, (hlive .nullProcess).2 h.nullProcess, ?_, ?_, h.busy, h.idle⟩
  · intro j hj hsome
    rw [hplaces]
    by_cases hji : j = i
    · rw [if_pos hji, hji, h.nowhere i (.inl hnew), zero_add]
    · rw [if_neg hji, h.once j (hj.resolve_left hji) ((hlive _).1 hsome), add_zero]
  · intro j hj
    have hji : j ≠ i := by
      rintro rfl
      rcases hj with hj | hj
      · exact hj (Set.mem_insert j known)
      · simp [PcbHeap.write] at hj
    rw [hplaces, if_neg hji, add_zero]
    refine h.nowhere j (hj.imp (fun hj hk => hj (.inr hk)) fun hnone => ?_)
    have hdead := hlive (.pcb j)
    dsimp only at hnone
    rw [hnone] at hdead
    simpa using hdead

/-- A process joins the queue if and only if the queue can index its priority. Reference:
`sched_add_to_process_queue` (`src/scheduler.c:17`). -/
theorem schedAddToProcessQueue_keeps_iff {p : Pcb} (h : s.WellFormed known) (hnew : i ∉ known)
    (hi : s.pcbs (.pcb i) = some p) :
    (∃ s', schedAddToProcessQueue s (.pcb i) = .ok s' ∧ s'.WellFormed (insert i known)) ↔
      (PrioPolicy s.currentPolicy → 0 ≤ p.currentPriority) := by
  constructor
  · rintro ⟨s', hadd, -⟩ hpolicy
    by_contra hneg
    have hinsert := iSchedInsert_negative h.backEnd (.pcb i) hpolicy (not_le.1 hneg)
    rw [schedAddToProcessQueue, PcbHeap.read_eq_ok.2 hi, Outcome.ok_bind, hinsert] at hadd
    cases hadd
  · intro hprio
    obtain ⟨iSched, hinsert, hback, hqueued⟩ := iSchedInsert_spec h.backEnd (.pcb i) hprio
    rw [schedAddToProcessQueue, PcbHeap.read_eq_ok.2 hi, Outcome.ok_bind, hinsert, Outcome.ok_bind]
    exact ⟨_, rfl, h.enqueued hnew hi hback hqueued⟩

/-- Only `null_process` stops being a current process. Reference: `__sched_update_running_pcb`
(`src/scheduler.c:78`). -/
theorem schedUpdateRunningPcb_keeps (h : s.WellFormed known) (hsafe : s.TurnSafe c) :
    ∃ t, schedUpdateRunningPcb s c = .ok t ∧ t.WellFormed known ∧ s.Undisturbed c t ∧
      t.TurnSafe c := by
  unfold schedUpdateRunningPcb
  split
  · exact ⟨s, rfl, h, .refl c s, hsafe⟩
  next x hx =>
    cases x with
    | pcb o =>
      obtain ⟨p, hp⟩ := Option.isSome_iff_exists.1 (h.running_placed hx).2.1
      rw [PcbHeap.read_eq_ok.2 hp, Outcome.ok_bind, if_neg (hsafe.unfinished o p hx hp)]
      exact ⟨s, rfl, h, .refl c s, hsafe⟩
    | nullProcess =>
      obtain ⟨p, hp⟩ := Option.isSome_iff_exists.1 h.nullProcess
      rw [PcbHeap.read_eq_ok.2 hp, Outcome.ok_bind]
      split
      next hfini =>
        refine ⟨_, rfl, h.modifyCore (by simp [hx]) rfl, .modifyCore _, ⟨by simp, ?_, ?_⟩⟩
        · intro hpolicy hquantum q hq
          simp only [Sched.modifyCore_self, Sched.modifyCore_currentPolicy, Sched.Peeks,
            Sched.modifyCore_schedulerQueueIObject] at hpolicy hquantum hq
          exact hsafe.slice hpolicy hquantum q hq
        · intro hmark hquantum
          rw [Sched.modifyCore_self] at hmark hquantum
          exact absurd hfini ((hsafe.unmarked hmark hquantum).2.1 p hp)
      next => exact ⟨s, rfl, h, .refl c s, hsafe⟩

/-- A call of the dispatcher in a safe turn is safe. -/
theorem Sched.TurnSafe.dispatchSafe (hsafe : s.TurnSafe c) (h : s.WellFormed known)
    (hdispatches : (RoundRobin s.currentPolicy ∧ (s.coreControlArray c).currentProcessQuantum ≤ 0) ∨
      (¬ RoundRobin s.currentPolicy ∧
        ((s.coreControlArray c).currrentCpuSchedStatus = nullProcessRun ∨
          s.pcbs.status (s.coreControlArray c).currentProcess = .ok prFini))) :
    s.DispatchSafe c := by
  rcases hdispatches with ⟨hpolicy, hquantum⟩ | ⟨hpolicy, hidle | hfini⟩
  · refine ⟨fun q hq => ?_, fun hmark => (hsafe.unmarked hmark fun _ => hquantum).2.2 hpolicy⟩
    rcases hpolicy with hpolicy | hpolicy
    · have hkeeps := hq.2.1
      rw [hpolicy] at hkeeps
      exact absurd hkeeps (by decide)
    · exact hsafe.slice hpolicy hquantum q hq
  · exact ⟨fun q hq => ne_nullProcessRun hq.1 hidle, fun hmark => absurd hidle hmark.2⟩
  · refine ⟨fun q hq => ?_, fun hmark => ?_⟩
    · obtain ⟨o, ho⟩ := h.current_of_eq hq.1
      obtain ⟨p, hp⟩ := Option.isSome_iff_exists.1 (h.running_placed ho).2.1
      rw [ho, PcbHeap.status, PcbHeap.read_eq_ok.2 hp] at hfini
      exact absurd (Except.ok.inj hfini) (hsafe.unfinished o p ho hp)
    · obtain ⟨hcurrent, hlive, -⟩ := hsafe.unmarked hmark fun h => absurd h hpolicy
      obtain ⟨p, hp⟩ := Option.isSome_iff_exists.1 h.nullProcess
      rw [hcurrent, PcbHeap.status, PcbHeap.read_eq_ok.2 hp] at hfini
      exact absurd (Except.ok.inj hfini) (hlive p hp)

variable [DecidableEq τ]

/-! ## A safe turn -/

/-- Reference: `sched_execute` (`src/scheduler.c:28`). -/
theorem schedExecuteUpdated_keeps (h : s.WellFormed known) (hsafe : s.TurnSafe c) :
    ∃ s', schedExecuteUpdated s c = .ok s' ∧ s'.WellFormed known ∧ s.Undisturbed c s' := by
  unfold schedExecuteUpdated
  split
  next hpolicy =>
    split
    next hquantum =>
      exact schedDispatcher_keeps h (hsafe.dispatchSafe h (.inl ⟨hpolicy, hquantum⟩))
    next => exact ⟨_, rfl, h.modifyCore (fun _ => Iff.rfl) rfl, .modifyCore _⟩
  next hpolicy =>
    split
    next hidle => exact schedDispatcher_keeps h (hsafe.dispatchSafe h (.inr ⟨hpolicy, .inl hidle⟩))
    next hidle =>
      -- the record is busy, or it is not marked idle and on `null_process`
      obtain ⟨x, p, hx, hp, hlive⟩ : ∃ x p, (s.coreControlArray c).currentProcess = some x ∧
          s.pcbs x = some p ∧ p.status ≠ prFini := by
        by_cases hbusy : (s.coreControlArray c).currrentCpuSchedStatus = processRun
        · obtain ⟨o, ho⟩ := h.current_of_eq hbusy
          obtain ⟨p, hp⟩ := Option.isSome_iff_exists.1 (h.running_placed ho).2.1
          exact ⟨_, p, ho, hp, hsafe.unfinished o p ho hp⟩
        · obtain ⟨hcurrent, hlive, -⟩ :=
            hsafe.unmarked ⟨hbusy, hidle⟩ fun h => absurd h hpolicy
          obtain ⟨p, hp⟩ := Option.isSome_iff_exists.1 h.nullProcess
          exact ⟨_, p, hcurrent, hp, hlive p hp⟩
      rw [hx, PcbHeap.status, PcbHeap.read_eq_ok.2 hp]
      refine ⟨s, ?_, h, .refl c s⟩
      simp [hlive]

/-- A safe turn keeps the state well formed. Reference: `sched_execute` (`src/scheduler.c:26`). -/
theorem schedExecuteCore_keeps (h : s.WellFormed known) (hsafe : s.TurnSafe c) :
    ∃ s', schedExecuteCore s c = .ok s' ∧ s'.WellFormed known ∧ s.Undisturbed c s' := by
  obtain ⟨t, hupdate, ht, hst, hsafe'⟩ := schedUpdateRunningPcb_keeps h hsafe
  obtain ⟨s', hexecute, hs', hts⟩ := schedExecuteUpdated_keeps ht hsafe'
  refine ⟨s', ?_, hs', hst.trans hts⟩
  rw [schedExecuteCore, hupdate, Outcome.ok_bind, hexecute]

/-- The dispatcher leaves a record marked. Reference: `sched_dispatcher` (`src/scheduler.c:42`). -/
theorem schedDispatcher_marked (hmarked : ¬ (s.coreControlArray c).Unmarked)
    (hstep : schedDispatcher s c = .ok s') : ¬ (s'.coreControlArray c).Unmarked := by
  obtain ⟨⟨r, t⟩, hget, hstep⟩ := Outcome.bind_eq_ok.1 hstep
  have hsame : t.coreControlArray = s.coreControlArray := by
    unfold schedGetNextProcessCleanQueue at hget
    split at hget
    · cases hget
      rfl
    · obtain ⟨iSched, rfl⟩ := schedGetNextProcess_eq hget
      rfl
  obtain ⟨⟨next, u⟩, hchoose, hstep⟩ := Outcome.bind_eq_ok.1 hstep
  have hswitch : ∀ x, schedDispatcherSwitch u c (t.coreControlArray c).currentProcess x = .ok s' →
      ¬ (s'.coreControlArray c).Unmarked := by
    intro x hx hunmarked
    have hstatus := (schedDispatcherSwitch_core hx).2
    split at hstatus
    · exact hunmarked.2 hstatus
    · exact hunmarked.1 hstatus
  rcases schedDispatcherChoose_cases hchoose with
    ⟨x, -, rfl, -⟩ | ⟨-, rfl, rfl, -⟩ | ⟨-, rfl, -⟩
  · exact hswitch x hstep
  · cases hstep
    rw [hsame]
    exact hmarked
  · exact hswitch .nullProcess hstep

/-- So does a turn. Reference: `sched_execute` (`src/scheduler.c:26`). -/
theorem schedExecuteCore_marked (h : s.Marked) (hstep : schedExecuteCore s c = .ok s') :
    s'.Marked := by
  intro d
  by_cases hd : d = c
  · subst hd
    obtain ⟨t, hupdate, hexecute⟩ := Outcome.bind_eq_ok.1 hstep
    have ht : ¬ (t.coreControlArray d).Unmarked := by
      rcases schedUpdateRunningPcb_cases hupdate with ⟨-, rfl⟩ | ⟨-, rfl⟩
      · exact h d
      · rw [Sched.modifyCore_self]
        exact h d
    rcases schedExecuteUpdated_cases hexecute with ⟨hdispatch, -⟩ | ⟨-, -, rfl⟩ | ⟨-, -, -, rfl⟩
    · exact schedDispatcher_marked ht hdispatch
    · rw [Sched.modifyCore_self]
      exact ht
    · exact ht
  · rw [(schedExecuteCore_onlyCore hstep).cores d hd]
    exact h d

/-! ## A safe start -/

/-- The process that is loaded has status `PR_EXEC`. Reference: `__disp_load`
(`src/scheduler.c:152`). -/
theorem schedDispatcherLoad_loaded {old : Option (PcbPtr ι)} {next : PcbPtr ι}
    (h : schedDispatcherLoad s c old next = .ok s') :
    ∃ p, s'.pcbs next = some p ∧ p.status = prExec := by
  obtain ⟨⟨pcbs, thread⟩, hdisp, h⟩ := Outcome.bind_eq_ok.1 h
  cases h
  obtain ⟨heap, -, hdisp⟩ := Outcome.bind_eq_ok.1 hdisp
  obtain ⟨p, -, hdisp⟩ := Outcome.bind_eq_ok.1 hdisp
  cases hdisp
  refine ⟨{ p with status := prExec }, ?_, rfl⟩
  exact Function.update_self ..

/-- A record that is marked idle leaves `null_process` loaded. Reference: `sched_dispatcher`
(`src/scheduler.c:56`). -/
theorem schedDispatcher_idle_loaded
    (hstatus : (s.coreControlArray c).currrentCpuSchedStatus = nullProcessRun)
    (h : schedDispatcher s c = .ok s') :
    ∃ p, s'.pcbs .nullProcess = some p ∧ p.status = prExec := by
  unfold schedDispatcher schedGetNextProcessCleanQueue at h
  rw [if_pos hstatus] at h
  have hswitch : schedDispatcherSwitch
      (s.modifyCore c ({ · with currentProcessQuantum := schedulerBaseProcessRrFreq })) c
      (s.coreControlArray c).currentProcess .nullProcess = .ok s' := by
    rw [← h]
    simp [schedDispatcherChoose]
  obtain ⟨t, hload, hswitch⟩ := Outcome.bind_eq_ok.1 hswitch
  obtain ⟨u, haway, hswitch⟩ := Outcome.bind_eq_ok.1 hswitch
  have hmarked : (t.coreControlArray c).currrentCpuSchedStatus = nullProcessRun := by
    obtain ⟨⟨pcbs, thread⟩, -, hload⟩ := Outcome.bind_eq_ok.1 hload
    cases hload
    simpa using hstatus
  rw [schedDispatcherPutAway_idle _ hmarked] at haway
  cases haway
  cases hswitch
  obtain ⟨p, hp, hexec⟩ := schedDispatcherLoad_loaded hload
  exact ⟨p, hp, hexec⟩

/-- Under the policies without a time slice a safe turn does not leave `null_process` finished.
Reference: `sched_execute` (`src/scheduler.c:36`). -/
theorem schedExecuteCore_null_live (hsafe : s.TurnSafe c) (hpolicy : ¬ RoundRobin s.currentPolicy)
    (hnull : ∀ p, s.pcbs .nullProcess = some p → p.status ≠ prFini)
    (hstep : schedExecuteCore s c = .ok s') :
    ∀ p, s'.pcbs .nullProcess = some p → p.status ≠ prFini := by
  have hlive : ∀ x p, (s.coreControlArray c).currentProcess = some x → s.pcbs x = some p →
      p.status ≠ prFini := by
    intro x p hx hp
    cases x with
    | pcb o => exact hsafe.unfinished o p hx hp
    | nullProcess => exact hnull p hp
  obtain ⟨t, hupdate, hexecute⟩ := Outcome.bind_eq_ok.1 hstep
  rcases schedUpdateRunningPcb_cases hupdate with ⟨-, rfl⟩ | ⟨⟨x, p, hx, hp, hfini⟩, -⟩
  · rcases schedExecuteUpdated_cases hexecute with
      ⟨hdispatch, ⟨hslice, -⟩ | ⟨-, hidle | hfini⟩⟩ | ⟨hslice, -⟩ | ⟨-, -, -, rfl⟩
    · exact absurd hslice hpolicy
    · obtain ⟨q, hq, hexec⟩ := schedDispatcher_idle_loaded hidle hdispatch
      intro p hp
      cases hq.symm.trans hp
      rw [hexec]
      decide
    · -- the dispatcher is not called for a process that has not finished
      cases hx : (t.coreControlArray c).currentProcess with
      | none =>
        rw [hx] at hfini
        cases hfini
      | some x =>
        rw [hx] at hfini
        obtain ⟨p, hread, hstatus⟩ := Outcome.bind_eq_ok.1 hfini
        exact absurd (Except.ok.inj hstatus) (hlive x p hx (PcbHeap.read_eq_ok.1 hread))
    · exact absurd hslice hpolicy
    · exact hnull
  · exact absurd hfini (hlive x p hx hp)

/-- The other turns of a pass leave a safe start of a record safe. -/
theorem Sched.StartSafe.of_turn (hd : s.StartSafe d) (h : s.WellFormed known)
    (hsafe : s.TurnSafe c) (hne : d ≠ c) (hundisturbed : s.Undisturbed c s')
    (hstep : schedExecuteCore s c = .ok s') : s'.StartSafe d := by
  have hcore := hundisturbed.cores d hne
  by_cases hmark : (s.coreControlArray d).Unmarked
  · have hleft : RoundRobin s'.currentPolicy →
        ¬ (s'.coreControlArray d).currentProcessQuantum ≤ 0 := by
      intro hpolicy
      rw [hundisturbed.policy] at hpolicy
      rw [hcore, Int.not_le]
      exact hd.left hmark hpolicy
    refine ⟨⟨fun o p ho _ => ?_, fun hpolicy hquantum => ?_, fun _ hquantum => ?_⟩,
      fun _ hpolicy => Int.not_le.1 (hleft hpolicy)⟩
    · rw [hcore] at ho
      exact absurd (h.busy d o ho) hmark.1
    · exact absurd hquantum (hleft (.inr hpolicy))
    · have hpolicy : ¬ RoundRobin s'.currentPolicy := fun hpolicy =>
        hleft hpolicy (hquantum hpolicy)
      have hpolicy' : ¬ RoundRobin s.currentPolicy := hundisturbed.policy ▸ hpolicy
      obtain ⟨hcurrent, hnull, -⟩ := hd.turn.unmarked hmark fun hslice => absurd hslice hpolicy'
      exact ⟨hcore ▸ hcurrent, schedExecuteCore_null_live hsafe hpolicy' hnull hstep,
        fun hslice => absurd hslice hpolicy⟩
  · refine ⟨(hundisturbed.turnSafe_iff hne hmark).2 hd.turn, fun hmark' => ?_⟩
    exact absurd (hcore ▸ hmark') hmark

/-! ## An unsafe turn -/

/-- A turn with a busy record that has no process leaves it like that, if it returns. Reference:
`sched_execute` (`src/scheduler.c:28`). -/
theorem schedExecuteUpdated_no_current
    (hstatus : (s.coreControlArray c).currrentCpuSchedStatus = processRun)
    (hcurrent : (s.coreControlArray c).currentProcess = none)
    (h : schedExecuteUpdated s c = .ok s') : s'.Broken c := by
  rcases schedExecuteUpdated_cases h with
    ⟨hdispatch, -⟩ | ⟨-, -, rfl⟩ | ⟨-, -, ⟨status, hread, -⟩, -⟩
  · exact absurd hdispatch (schedDispatcher_no_current (ne_nullProcessRun hstatus) hcurrent)
  · exact .inl ⟨by simpa using hstatus, by simpa using hcurrent⟩
  · rw [hcurrent] at hread
    cases hread

/-- An idle record that is not marked so has `null_process` in a turn that returns, or time left.
Reference: `sched_execute` (`src/scheduler.c:26`). -/
theorem schedExecuteCore_unmarked (h : s.WellFormed known)
    (hmark : (s.coreControlArray c).Unmarked)
    (hquantum : RoundRobin s.currentPolicy → (s.coreControlArray c).currentProcessQuantum ≤ 0)
    (hstep : schedExecuteCore s c = .ok s') :
    (s.coreControlArray c).currentProcess = some .nullProcess ∧
      (∀ p, s.pcbs .nullProcess = some p → p.status ≠ prFini) ∧
      (RoundRobin s.currentPolicy → s.NullStays c) := by
  have hnone : ∀ t : Sched ι τ k n, (t.coreControlArray c).Unmarked →
      (t.coreControlArray c).currentProcess = none →
      (RoundRobin t.currentPolicy → (t.coreControlArray c).currentProcessQuantum ≤ 0) →
      schedExecuteUpdated t c ≠ .ok s' := by
    intro t ht hcurrent hquantum hexecute
    rcases schedExecuteUpdated_cases hexecute with
      ⟨hdispatch, -⟩ | ⟨hpolicy, hpos, -⟩ | ⟨-, -, ⟨status, hread, -⟩, -⟩
    · exact schedDispatcher_no_current ht.2 hcurrent hdispatch
    · have hneg := hquantum hpolicy
      omega
    · rw [hcurrent] at hread
      cases hread
  obtain ⟨t, hupdate, hexecute⟩ := Outcome.bind_eq_ok.1 hstep
  rcases schedUpdateRunningPcb_cases hupdate with ⟨hlive, rfl⟩ | ⟨-, rfl⟩
  · obtain ⟨x, hx⟩ := Option.ne_none_iff_exists'.1 fun hcurrent =>
      hnone t hmark hcurrent hquantum hexecute
    obtain rfl := h.current_of_ne hmark.1 hx
    refine ⟨hx, fun p hp => hlive _ p hx hp, fun hpolicy => ?_⟩
    rcases schedExecuteUpdated_cases hexecute with ⟨hdispatch, -⟩ | ⟨-, hpos, -⟩ | ⟨hnot, -⟩
    · exact schedDispatcher_nullStays h hmark hdispatch
    · have hneg := hquantum hpolicy
      omega
    · exact absurd hpolicy hnot
  · exact absurd hexecute (hnone _ (by rw [Sched.modifyCore_self]; exact hmark) (by simp)
      (by rw [Sched.modifyCore_self]; exact hquantum))

/-- An unsafe turn of a well-formed state breaks the record, if it returns. Reference:
`sched_execute` (`src/scheduler.c:26`). -/
theorem schedExecuteCore_breaks (h : s.WellFormed known) (hbad : ¬ s.TurnSafe c)
    (hstep : schedExecuteCore s c = .ok s') : s'.Broken c := by
  obtain ⟨t, hupdate, hexecute⟩ := Outcome.bind_eq_ok.1 hstep
  by_cases hfini : ∃ o p, (s.coreControlArray c).currentProcess = some (.pcb o) ∧
      s.pcbs (.pcb o) = some p ∧ p.status = prFini
  · obtain ⟨o, p, ho, hp, hfini⟩ := hfini
    rw [schedUpdateRunningPcb_fini ho hp hfini] at hupdate
    cases hupdate
    refine schedExecuteUpdated_no_current ?_ (by simp) hexecute
    rw [Sched.modifyCore_self]
    exact h.busy c o ho
  · have hfirst : ∀ o p, (s.coreControlArray c).currentProcess = some (.pcb o) →
        s.pcbs (.pcb o) = some p → p.status ≠ prFini :=
      fun o p ho hp hstatus => hfini ⟨o, p, ho, hp, hstatus⟩
    obtain ⟨hpolicy, hquantum, q, hq⟩ : s.currentPolicy = schedRr ∧
        (s.coreControlArray c).currentProcessQuantum ≤ 0 ∧ ∃ q, s.Peeks c q := by
      by_contra hnot
      exact hbad ⟨hfirst, fun hpolicy hquantum q hq => hnot ⟨hpolicy, hquantum, q, hq⟩,
        fun hmark hquantum => schedExecuteCore_unmarked h hmark hquantum hstep⟩
    obtain ⟨o, ho⟩ := h.current_of_eq hq.1
    have hkept : t = s := by
      rcases schedUpdateRunningPcb_cases hupdate with ⟨-, hkept⟩ | ⟨⟨x, p, hx, hp, hfini⟩, -⟩
      · exact hkept
      · cases ho.symm.trans hx
        exact absurd hfini (hfirst o p ho hp)
    subst hkept
    unfold schedExecuteUpdated at hexecute
    rw [if_pos (.inr hpolicy), if_pos hquantum] at hexecute
    obtain ⟨u, hdispatch, hdoubled⟩ := schedDispatcher_doubles h hq
    rw [hdispatch] at hexecute
    cases hexecute
    exact .inr ⟨q, hdoubled⟩

/-! ## The steps -/

/-- The dispatcher keeps the state well formed if and only if it is safe. Reference:
`sched_dispatcher` (`src/scheduler.c:42`). -/
theorem schedDispatcher_keeps_iff (h : s.WellFormed known) :
    (∃ s', schedDispatcher s c = .ok s' ∧ s'.WellFormed known) ↔ s.DispatchSafe c := by
  constructor
  · rintro ⟨s', hdispatch, hs'⟩
    refine ⟨fun q hq => ?_, fun hmark => schedDispatcher_nullStays h hmark hdispatch⟩
    obtain ⟨t, hdispatch', hdoubled⟩ := schedDispatcher_doubles h hq
    rw [hdispatch] at hdispatch'
    cases hdispatch'
    exact hdoubled.not_wellFormed hs'
  · intro hsafe
    obtain ⟨s', hdispatch, hs', -⟩ := schedDispatcher_keeps h hsafe
    exact ⟨s', hdispatch, hs'⟩

/-- Every record's turn is safe when it comes. -/
def Sched.PassSafe (s : Sched ι τ k n) : Prop :=
  Pass.Meets schedExecuteCore Sched.TurnSafe (List.finRange k) s

/-- A pass keeps the state well formed if and only if every record's turn is safe when it comes.
Reference: `sched_execute` (`src/scheduler.c:24`). -/
theorem schedExecute_keeps_iff (h : s.WellFormed known) :
    (∃ s', schedExecute s = .ok s' ∧ s'.WellFormed known) ↔ s.PassSafe := by
  have hok : ∀ (s : Sched ι τ k n) c, s.WellFormed known → s.TurnSafe c →
      ∃ s', schedExecuteCore s c = .ok s' ∧ s'.WellFormed known := by
    intro s c hs hsafe
    obtain ⟨s', hstep, hs', -⟩ := schedExecuteCore_keeps hs hsafe
    exact ⟨s', hstep, hs'⟩
  have hbad : ∀ (s : Sched ι τ k n) c s', s.WellFormed known → ¬ s.TurnSafe c →
      schedExecuteCore s c = .ok s' → s'.Broken c :=
    fun s c s' hs hunsafe hstep => schedExecuteCore_breaks hs hunsafe hstep
  have hkeep : ∀ (s : Sched ι τ k n) c d s', s.Broken c → d ≠ c → schedExecuteCore s d = .ok s' →
      s'.Broken c :=
    fun s c d s' hbroken hd hstep => hbroken.of_onlyCore hd (schedExecuteCore_onlyCore hstep)
  have hbroken : ∀ (s : Sched ι τ k n) c, s.Broken c → ¬ s.WellFormed known :=
    fun s c hs => hs.not_wellFormed
  exact Pass.foldlM_keeps_iff hok hbad hkeep hbroken (List.nodup_finRange k) h

/-- A safe start of every record is enough for that. -/
theorem Sched.WellFormed.passSafe_of_start (h : s.WellFormed known) (hstart : ∀ c, s.StartSafe c) :
    s.PassSafe := by
  refine Pass.Meets.of_start (I := fun s : Sched ι τ k n => s.WellFormed known)
    (fun s c hc => hc.turn) ?_ (List.nodup_finRange k) h fun c _ => hstart c
  intro s c s' hs hsafe hstep
  obtain ⟨t, hstep', ht, hundisturbed⟩ := schedExecuteCore_keeps hs hsafe
  cases hstep'.symm.trans hstep
  exact ⟨ht, fun d hne hd => hd.of_turn hs hsafe hne hundisturbed hstep⟩

/-- Where every idle record is marked, that depends on the state at the start of the pass only. -/
theorem Sched.WellFormed.passSafe_iff (h : s.WellFormed known) (hmarked : s.Marked) :
    s.PassSafe ↔ ∀ c, s.StartSafe c := by
  have hok : ∀ (s : Sched ι τ k n) c, s.WellFormed known ∧ s.Marked → s.TurnSafe c →
      ∃ s', schedExecuteCore s c = .ok s' ∧ (s'.WellFormed known ∧ s'.Marked) ∧
        ∀ d, d ≠ c → (s'.TurnSafe d ↔ s.TurnSafe d) := by
    rintro s c ⟨hs, hm⟩ hsafe
    obtain ⟨s', hstep, hs', hundisturbed⟩ := schedExecuteCore_keeps hs hsafe
    exact ⟨s', hstep, ⟨hs', schedExecuteCore_marked hm hstep⟩,
      fun d hd => hundisturbed.turnSafe_iff hd (hm d)⟩
  have hmeets := Pass.meets_iff hok (List.nodup_finRange k) ⟨h, hmarked⟩
  refine hmeets.trans ⟨fun hsafe c => ⟨hsafe c (List.mem_finRange c), fun hmark => ?_⟩,
    fun hstart c _ => (hstart c).turn⟩
  exact absurd hmark (hmarked c)

/-! ## The invariant -/

/-- What the scheduler knows after a step. -/
def SchedStep.knows : SchedStep ι k → Set ι → Set ι
  | .add newPcb, known => insert newPcb known
  | .dispatcher _, known => known
  | .execute, known => known

/-- A process that is added exists and is new. -/
def SchedStep.Allowed : SchedStep ι k → Set ι → Sched ι τ k n → Prop
  | .add newPcb, known, s => newPcb ∉ known ∧ (s.pcbs (.pcb newPcb)).isSome
  | .dispatcher _, _, _ => True
  | .execute, _, _ => True

/-- The priority queue can index the priority of a new process, no process is taken that stays in
the queue, nor dropped for having finished, and an idle record that is not marked so stays on
`null_process`. -/
def SchedStep.Safe : SchedStep ι k → Sched ι τ k n → Prop
  | .add newPcb, s => PrioPolicy s.currentPolicy →
    ∀ p, s.pcbs (.pcb newPcb) = some p → 0 ≤ p.currentPriority
  | .dispatcher c, s => s.DispatchSafe c
  | .execute, s => s.PassSafe

/-- A safe step from a well-formed state returns, and leads to a well-formed state. -/
theorem SchedStep.Safe.keeps {step : SchedStep ι k} (hsafe : step.Safe s) (h : s.WellFormed known)
    (hstep : step.Allowed known s) :
    ∃ s', step.exec s = .ok s' ∧ s'.WellFormed (step.knows known) := by
  cases step with
  | add newPcb =>
    obtain ⟨p, hp⟩ := Option.isSome_iff_exists.1 hstep.2
    exact (schedAddToProcessQueue_keeps_iff h hstep.1 hp).2 fun hpolicy => hsafe hpolicy p hp
  | dispatcher c => exact (schedDispatcher_keeps_iff h).2 hsafe
  | execute => exact (schedExecute_keeps_iff h).2 hsafe

/-- Every run of safe steps keeps the state well formed. -/
theorem sched_run_wellFormed {steps : List (SchedStep ι k)} {known' : Set ι}
    (h : s.WellFormed known)
    (hrun : Lts.Steps (fun (x : Set ι × Sched ι τ k n) step y => step.Allowed x.1 x.2 ∧
      step.Safe x.2 ∧ step.exec x.2 = .ok y.2 ∧ y.1 = step.knows x.1)
      (known, s) steps (known', s')) :
    s'.WellFormed known' := by
  refine hrun.invariant (I := fun x => x.2.WellFormed x.1) ?_ h
  rintro ⟨known₁, s₁⟩ step ⟨known₂, s₂⟩ hwf ⟨hallowed, hsafe, hexec, rfl⟩
  obtain ⟨t, ht, hwf'⟩ := hsafe.keeps hwf hallowed
  cases ht.symm.trans hexec
  exact hwf'

/-- A step from a well-formed state leads to a well-formed state if and only if it is safe. For a
pass this is asked of every record as its turn comes. A condition on the state at its start is
enough, and it is exact where all idle records have status `NULL_PROCESS_RUN`. Reference:
`sched_add_to_process_queue` (`src/scheduler.c:17`), `sched_execute` (`src/scheduler.c:24`),
`sched_dispatcher` (`src/scheduler.c:42`). -/
theorem sched_step_wellFormed_iff {step : SchedStep ι k} (h : s.WellFormed known)
    (hstep : step.Allowed known s) :
    ((∃ s', step.exec s = .ok s' ∧ s'.WellFormed (step.knows known)) ↔ step.Safe s) ∧
      ((∀ c, s.StartSafe c) → (SchedStep.execute : SchedStep ι k).Safe s) ∧
      (s.Marked → ((SchedStep.execute : SchedStep ι k).Safe s ↔ ∀ c, s.StartSafe c)) := by
  refine ⟨?_, h.passSafe_of_start, h.passSafe_iff⟩
  cases step with
  | add newPcb =>
    obtain ⟨hnew, hlive⟩ := hstep
    obtain ⟨p, hp⟩ := Option.isSome_iff_exists.1 hlive
    refine (schedAddToProcessQueue_keeps_iff h hnew hp).trans (imp_congr_right fun _ => ?_)
    simp [hp]
  | dispatcher c => exact schedDispatcher_keeps_iff h
  | execute => exact schedExecute_keeps_iff h

/-! ## A slice that is over -/

/-- One core under `SCHED_RR` runs the process 0, whose slice is over; 1 is queued, and 2 is new. -/
def sliceOver : Sched (Fin 3) Unit 1 20 where
  currentPolicy := schedRr
  schedulerQueueIObject := rqSimpleFifoISchedImplement ⟨1, [.pcb 1]⟩
  timerTickFreq := 5
  coreControlArray _ := ⟨(), some (.pcb 0), 0, processRun⟩
  pcbs x := some ⟨1, 0, if x = .pcb 0 then prExec else prReady, ⟨0, 0, 0⟩, ⟨0, 0, fun _ => 0, 0⟩⟩
  threads _ := ⟨0, 0, 0, fun _ => 0, 0, tlbFlush 20⟩

theorem sliceOver_wellFormed : sliceOver.WellFormed {0, 1} := by
  refine ⟨.simple (by decide) rfl, rfl, ?_, ?_, fun _ _ _ => rfl, fun c hc => absurd rfl (hc 0)⟩
  · rintro i (rfl | rfl) -
    · decide
    · decide
  · rintro i (hi | hi)
    · have htwo : i = 2 := by
        revert hi
        simp only [Set.mem_insert_iff, Set.mem_singleton_iff]
        omega
      subst htwo
      decide
    · cases hi

/-- A new process joins the queue. -/
theorem sched_step_wellFormed_iff_add :
    ∃ s', (SchedStep.add 2).exec sliceOver = .ok s' ∧ s'.WellFormed {2, 0, 1} := by
  have hallowed : (SchedStep.add 2).Allowed {0, 1} sliceOver := ⟨by decide, rfl⟩
  refine (sched_step_wellFormed_iff sliceOver_wellFormed hallowed).1.2 fun hpolicy => ?_
  exact absurd hpolicy (by decide)

/-- The pass destroys 0 and runs 1, which is still queued. -/
theorem sched_execute_doubles : sliceOver.WellFormed {0, 1} ∧
    SchedStep.execute.Allowed {0, 1} sliceOver ∧
    ∃ s', SchedStep.execute.exec sliceOver = .ok s' ∧
      (s'.coreControlArray 0).currentProcess = some (.pcb 1) ∧ .pcb 1 ∈ s'.queued ∧
      s'.pcbs (.pcb 0) = none ∧ ¬ s'.WellFormed {0, 1} := by
  refine ⟨sliceOver_wellFormed, trivial, _, rfl, rfl, ?_, rfl, ?_⟩
  · exact List.mem_singleton_self _
  · intro h
    have hone := h.once 1 (by simp) rfl
    revert hone
    decide

end SeKernel
