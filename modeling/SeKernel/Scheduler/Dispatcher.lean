import SeKernel.Process.Transparency
import SeKernel.Scheduler.Frame

/-!
# What the dispatcher does to a record

A switch makes a process the current one of a record and destroys the one that ran before, if one
did: `disp_dispatch` saves it with status `PR_FINI`, and the status is tested after that
(`Sched.Switched`). A process that follows itself is queued again (`schedDispatcher_self`). A record
that is marked idle switches to `null_process`, whatever is queued (`schedDispatcher_idle`); one
that is idle and not marked so makes the dispatcher follow `NULL` or free `null_process`
(`schedDispatcher_no_current`, `schedDispatcher_nullProcess`).
-/

namespace SeKernel

variable {ι τ : Type} {k n : Nat}

variable {c : Fin k} {s s' t : Sched ι τ k n} {o : ι} {next : PcbPtr ι} {p : Pcb}

/-- A look at the queue changes nothing but the queue. Reference: `__sched_get_next_process`
(`src/scheduler.c:108`). -/
theorem schedGetNextProcess_eq {r : Option (PcbPtr ι)} (h : schedGetNextProcess s = .ok (r, t)) :
    ∃ iSched, t = { s with schedulerQueueIObject := iSched } := by
  unfold schedGetNextProcess at h
  split at h
  · obtain ⟨⟨r', iSched⟩, -, h⟩ := Outcome.bind_eq_ok.1 h
    cases h
    exact ⟨iSched, rfl⟩
  · cases h
    exact ⟨s.schedulerQueueIObject, rfl⟩

variable [DecidableEq ι]

/-- `next` is the current process of record `c` now, and the process `ended` is destroyed. -/
structure Sched.Switched (c : Fin k) (ended : Option ι) (next : PcbPtr ι) (s s' : Sched ι τ k n) :
    Prop where
  policy : s'.currentPolicy = s.currentPolicy
  queue : s'.schedulerQueueIObject = s.schedulerQueueIObject
  cores : ∀ d, d ≠ c → s'.coreControlArray d = s.coreControlArray d
  current : (s'.coreControlArray c).currentProcess = some next
  status : (s'.coreControlArray c).currrentCpuSchedStatus =
    if next = .nullProcess then nullProcessRun else processRun
  gone : ∀ o, ended = some o → s'.pcbs (.pcb o) = none
  live : (s'.pcbs next).isSome
  kept : ∀ x, x ≠ next → (∀ o, ended = some o → x ≠ .pcb o) → s'.pcbs x = s.pcbs x

/-- The hardware thread of a core. -/
def Sched.thread (s : Sched ι τ k n) (c : Fin k) : Thread n :=
  s.threads (s.coreControlArray c).threadS

/-- The process `x` of record `c`, whose PCB was `p`, was saved, loaded again and put into the
queue, which is `iSched` now. -/
structure Sched.Requeued (c : Fin k) (x : PcbPtr ι) (p : Pcb) (iSched : SISched (PcbPtr ι))
    (s s' : Sched ι τ k n) : Prop where
  queue : s'.schedulerQueueIObject = iSched
  pcb : s'.pcbs x = some { dispUnload (s.thread c) p with status := prReady }
  kept : ∀ y, y ≠ x → s'.pcbs y = s.pcbs y
  current : (s'.coreControlArray c).currentProcess = some x
  status : (s'.coreControlArray c).currrentCpuSchedStatus =
    if x = .nullProcess then nullProcessRun else processRun
  context : (s'.thread c).context = (s.thread c).context

/-- A change of the record before the switch does not matter. -/
theorem Sched.Switched.of_modifyCore {f : CoreControl ι τ → CoreControl ι τ} {ended : Option ι}
    (h : (s.modifyCore c f).Switched c ended next s') : s.Switched c ended next s' where
  policy := h.policy
  queue := h.queue
  cores d hd := (h.cores d hd).trans (Function.update_of_ne hd _ _)
  current := h.current
  status := h.status
  gone := h.gone
  live := h.live
  kept := h.kept

/-- Putting a process away does not touch the records. Reference: `sched_dispatcher`
(`src/scheduler.c:58`). -/
theorem schedDispatcherPutAway_cores {old : Option (PcbPtr ι)}
    (h : schedDispatcherPutAway s c old = .ok s') : s'.coreControlArray = s.coreControlArray := by
  rcases schedDispatcherPutAway_cases h with
    ⟨-, rfl⟩ | ⟨-, x, status, -, -, ⟨-, pcbs, -, rfl⟩ | ⟨-, hadd⟩⟩
  · rfl
  · rfl
  · obtain ⟨p, -, hadd⟩ := Outcome.bind_eq_ok.1 hadd
    obtain ⟨iSched, -, hret⟩ := Outcome.bind_eq_ok.1 hadd
    cases hret
    rfl

/-- Reference: `disp_terminate` (`src/scheduler.c:136`). -/
theorem dispTerminate_pcb {heap : PcbHeap (PcbPtr ι)} (thread : Thread n)
    (ho : heap (.pcb o) = some p) :
    dispTerminate heap thread (.pcb o) = .ok (Function.update heap (.pcb o) none) := by
  unfold dispTerminate pcbDestroy PcbHeap.read PcbHeap.write
  simp [ho]

/-- The old process was saved with status `PR_FINI`, so it is terminated. Reference:
`sched_dispatcher` (`src/scheduler.c:58`). -/
theorem schedDispatcherPutAway_pcb
    (hstatus : (s.coreControlArray c).currrentCpuSchedStatus ≠ nullProcessRun)
    (ho : s.pcbs (.pcb o) = some p) (hp : p.status = prFini) :
    schedDispatcherPutAway s c (some (.pcb o)) =
      .ok { s with pcbs := Function.update s.pcbs (.pcb o) none } := by
  unfold schedDispatcherPutAway PcbHeap.status PcbHeap.read
  simp [hstatus, ho, hp, dispTerminate_pcb _ ho]

theorem schedDispatcherPutAway_idle (old : Option (PcbPtr ι))
    (hstatus : (s.coreControlArray c).currrentCpuSchedStatus = nullProcessRun) :
    schedDispatcherPutAway s c old = .ok s := if_pos hstatus

variable [DecidableEq τ]

/-- A switch sets two fields of the record. Reference: `sched_dispatcher`
(`src/scheduler.c:55`). -/
theorem schedDispatcherSwitch_record {old : Option (PcbPtr ι)}
    (h : schedDispatcherSwitch s c old next = .ok s') :
    s'.coreControlArray c = { s.coreControlArray c with
      currentProcess := some next
      currrentCpuSchedStatus := if next = .nullProcess then nullProcessRun else processRun } := by
  obtain ⟨t, hload, hrest⟩ := Outcome.bind_eq_ok.1 h
  obtain ⟨u, haway, hret⟩ := Outcome.bind_eq_ok.1 hrest
  obtain ⟨⟨pcbs, thread⟩, -, hthread⟩ := Outcome.bind_eq_ok.1 hload
  cases hthread
  cases hret
  rw [Sched.modifyCore_self, schedDispatcherPutAway_cores haway]
  simp

/-- After a switch the record shows the next process and what it is. Reference: `sched_dispatcher`
(`src/scheduler.c:55`). -/
theorem schedDispatcherSwitch_core {old : Option (PcbPtr ι)}
    (h : schedDispatcherSwitch s c old next = .ok s') :
    (s'.coreControlArray c).currentProcess = some next ∧
      (s'.coreControlArray c).currrentCpuSchedStatus =
        if next = .nullProcess then nullProcessRun else processRun := by
  rw [schedDispatcherSwitch_record h]
  exact ⟨rfl, rfl⟩

/-! ## A record that runs a process -/

/-- The old process is saved and the next one loaded. Reference: `sched_dispatcher`
(`src/scheduler.c:56`). -/
theorem schedDispatcherLoad_pcb {q : Pcb} (hne : next ≠ .pcb o) (ho : s.pcbs (.pcb o) = some p)
    (hnext : s.pcbs next = some q) :
    ∃ p' q' threads, p'.status = prFini ∧ schedDispatcherLoad s c (some (.pcb o)) next =
      .ok { s.modifyCore c ({ · with currentProcess := some next }) with
        pcbs := (s.pcbs.write (.pcb o) p').write next q', threads } := by
  unfold schedDispatcherLoad dispDispatch dispUnloadOld PcbHeap.read
  simp only [ho, Outcome.ok_bind, Outcome.pure_eq, PcbHeap.write, Function.update_of_ne hne, hnext]
  exact ⟨dispUnload _ p, _, _, rfl, rfl⟩

/-- The process that a record runs is destroyed when another one takes its place. Reference:
`sched_dispatcher` (`src/scheduler.c:55`). -/
theorem schedDispatcherSwitch_pcb
    (hstatus : (s.coreControlArray c).currrentCpuSchedStatus ≠ nullProcessRun)
    (ho : (s.pcbs (.pcb o)).isSome) (hnext : (s.pcbs next).isSome) (hne : next ≠ .pcb o) :
    ∃ s', schedDispatcherSwitch s c (some (.pcb o)) next = .ok s' ∧
      s.Switched c (some o) next s' := by
  obtain ⟨p, ho⟩ := Option.isSome_iff_exists.1 ho
  obtain ⟨q, hnext⟩ := Option.isSome_iff_exists.1 hnext
  obtain ⟨p', q', threads, hp', hload⟩ := schedDispatcherLoad_pcb (c := c) hne ho hnext
  have haway := schedDispatcherPutAway_pcb (c := c) (o := o) (p := p')
    (s := { s.modifyCore c ({ · with currentProcess := some next }) with
      pcbs := (s.pcbs.write (.pcb o) p').write next q', threads })
    (by simpa using hstatus) (by simp [PcbHeap.write, Function.update_of_ne hne.symm]) hp'
  unfold schedDispatcherSwitch
  rw [hload, Outcome.ok_bind, haway, Outcome.ok_bind]
  refine ⟨_, rfl, rfl, rfl, ?_, ?_, ?_, ?_, ?_, ?_⟩
  · intro d hd
    simp [hd]
  · simp
  · simp
  · rintro _ ⟨⟩
    simp
  · simp [PcbHeap.write, Function.update_of_ne hne]
  · intro x hx hgone
    simp [PcbHeap.write, Function.update_of_ne (hgone o rfl), Function.update_of_ne hx]

section

variable {r : Option (PcbPtr ι)} {iSched : SISched (PcbPtr ι)}
  (hstatus : (s.coreControlArray c).currrentCpuSchedStatus ≠ nullProcessRun)
  (hcurrent : (s.coreControlArray c).currentProcess = some (.pcb o))
  (hnext : schedGetNextProcess s = .ok (r, { s with schedulerQueueIObject := iSched }))

include hstatus hcurrent hnext

/-- A record that runs a process switches to another one that the queue answers. Reference:
`sched_dispatcher` (`src/scheduler.c:42`). -/
theorem schedDispatcher_answered {x : PcbPtr ι} (hr : r = some x)
    (ho : (s.pcbs (.pcb o)).isSome) (hx : (s.pcbs x).isSome) (hne : x ≠ .pcb o) :
    ∃ s', schedDispatcher s c = .ok s' ∧
      Sched.Switched c (some o) x { s with schedulerQueueIObject := iSched } s' := by
  subst hr
  obtain ⟨s', hswitch, hs'⟩ := schedDispatcherSwitch_pcb (c := c)
    (s := Sched.modifyCore { s with schedulerQueueIObject := iSched } c
      ({ · with currentProcessQuantum := schedulerBaseProcessRrFreq }))
    (by simpa using hstatus) ho hx hne
  refine ⟨s', ?_, hs'.of_modifyCore⟩
  unfold schedDispatcher schedGetNextProcessCleanQueue
  rw [if_neg hstatus, hnext, Outcome.ok_bind]
  dsimp only
  rw [hcurrent]
  exact hswitch

/-- Without an answer it switches to `null_process` when its process has finished, and else keeps
it. Reference: `sched_dispatcher` (`src/scheduler.c:46`). -/
theorem schedDispatcher_unanswered (hr : r = none) (hp : s.pcbs (.pcb o) = some p)
    (hnull : (s.pcbs .nullProcess).isSome) :
    ∃ s', schedDispatcher s c = .ok s' ∧
      ((p.status ≠ prFini ∧ s' = { s with schedulerQueueIObject := iSched }) ∨
        (p.status = prFini ∧
          Sched.Switched c (some o) .nullProcess
            { s with schedulerQueueIObject := iSched } s')) := by
  subst hr
  unfold schedDispatcher schedGetNextProcessCleanQueue
  rw [if_neg hstatus, hnext, Outcome.ok_bind]
  dsimp only
  rw [hcurrent]
  by_cases hfini : p.status = prFini
  · have hne : PcbPtr.nullProcess ≠ .pcb o := nofun
    have ho : (s.pcbs (.pcb o)).isSome := by rw [hp]; rfl
    obtain ⟨s', hswitch, hs'⟩ := schedDispatcherSwitch_pcb (c := c)
      (s := Sched.modifyCore { s with schedulerQueueIObject := iSched } c
        ({ · with currrentCpuSchedStatus := schedulerNullProcessRrFreq }))
      (by simp [schedulerNullProcessRrFreq, nullProcessRun]) ho hnull hne
    refine ⟨s', ?_, .inr ⟨hfini, hs'.of_modifyCore⟩⟩
    simpa [schedDispatcherChoose, PcbHeap.status, PcbHeap.read, hp, hfini] using hswitch
  · refine ⟨_, ?_, .inl ⟨hfini, rfl⟩⟩
    simp [schedDispatcherChoose, PcbHeap.status, PcbHeap.read, hp, hfini]

/-- A record that runs a process either keeps it or switches to what the queue answers; without an
answer it switches to `null_process` when the process has finished. Reference: `sched_dispatcher`
(`src/scheduler.c:42`). -/
theorem schedDispatcher_busy (ho : (s.pcbs (.pcb o)).isSome)
    (hnull : (s.pcbs .nullProcess).isSome)
    (hr : ∀ x, r = some x → x ≠ .pcb o ∧ (s.pcbs x).isSome) :
    ∃ s', schedDispatcher s c = .ok s' ∧
      ((r = none ∧ s' = { s with schedulerQueueIObject := iSched }) ∨
        ∃ next, (r = some next ∨ r = none ∧ next = .nullProcess) ∧
          Sched.Switched c (some o) next { s with schedulerQueueIObject := iSched } s') := by
  cases hrx : r with
  | some x =>
    obtain ⟨hne, hx⟩ := hr x hrx
    obtain ⟨s', hdispatch, hs'⟩ := schedDispatcher_answered hstatus hcurrent hnext hrx ho hx hne
    exact ⟨s', hdispatch, .inr ⟨x, .inl rfl, hs'⟩⟩
  | none =>
    obtain ⟨p, hp⟩ := Option.isSome_iff_exists.1 ho
    obtain ⟨s', hdispatch, ⟨-, rfl⟩ | ⟨-, hs'⟩⟩ :=
      schedDispatcher_unanswered hstatus hcurrent hnext hrx hp hnull
    · exact ⟨_, hdispatch, .inl ⟨rfl, rfl⟩⟩
    · exact ⟨s', hdispatch, .inr ⟨.nullProcess, .inr ⟨rfl, rfl⟩, hs'⟩⟩

end

/-! ## A process that follows itself -/

/-- Saved and loaded again, a process has the registers of the thread and status `PR_EXEC`.
Reference: `sched_dispatcher` (`src/scheduler.c:56`). -/
theorem schedDispatcherLoad_self {x : PcbPtr ι} (hp : s.pcbs x = some p) :
    schedDispatcherLoad s c (some x) x =
      .ok { s.modifyCore c ({ · with currentProcess := some x }) with
        pcbs := s.pcbs.write x { dispUnload (s.thread c) p with status := prExec }
        threads := Function.update s.threads (s.coreControlArray c).threadS
          (dispLoad (s.thread c) (dispUnload (s.thread c) p)).1 } := by
  unfold schedDispatcherLoad dispDispatch dispUnloadOld PcbHeap.read
  simp only [hp, Outcome.ok_bind, Outcome.pure_eq, PcbHeap.write, Function.update_self,
    Function.update_idem]
  rfl

omit [DecidableEq τ] in
/-- A process that has not finished is queued again. Reference: `sched_dispatcher`
(`src/scheduler.c:63`). -/
theorem schedDispatcherPutAway_live {x : PcbPtr ι}
    (hstatus : (s.coreControlArray c).currrentCpuSchedStatus ≠ nullProcessRun)
    (hp : s.pcbs x = some p) (hlive : p.status ≠ prFini) :
    schedDispatcherPutAway s c (some x) = schedAddToProcessQueue s x := by
  unfold schedDispatcherPutAway PcbHeap.status PcbHeap.read
  simp [hstatus, hp, hlive]

/-- A process that follows itself is saved, loaded again and then put into the queue. Reference:
`sched_dispatcher` (`src/scheduler.c:55`). -/
theorem schedDispatcher_self {x : PcbPtr ι} {iSched : SISched (PcbPtr ι)}
    (hstatus : (s.coreControlArray c).currrentCpuSchedStatus ≠ nullProcessRun)
    (hcurrent : (s.coreControlArray c).currentProcess = some x) (hp : s.pcbs x = some p)
    (hnext : schedGetNextProcess s = .ok (some x, { s with schedulerQueueIObject := iSched })) :
    ∃ f : SISched (PcbPtr ι) → Sched ι τ k n,
      schedDispatcher s c = (iSchedInsert iSched x p.currentPriority >>= fun q => .ok (f q)) ∧
      ∀ q, s.Requeued c x p q (f q) := by
  let s₁ : Sched ι τ k n := Sched.modifyCore { s with schedulerQueueIObject := iSched } c
    ({ · with currentProcessQuantum := schedulerBaseProcessRrFreq })
  have hp₁ : s₁.pcbs x = some p := hp
  have hthread : s₁.thread c = s.thread c := by simp [s₁, Sched.thread, Sched.modifyCore]
  let s₂ : Sched ι τ k n := { s₁.modifyCore c ({ · with currentProcess := some x }) with
    pcbs := s.pcbs.write x { dispUnload (s.thread c) p with status := prExec }
    threads := Function.update s.threads (s₁.coreControlArray c).threadS
      (dispLoad (s.thread c) (dispUnload (s.thread c) p)).1 }
  have hload : schedDispatcherLoad s₁ c (some x) x = .ok s₂ := by
    rw [schedDispatcherLoad_self hp₁, hthread]
    rfl
  have hp₂ : s₂.pcbs x = some { dispUnload (s.thread c) p with status := prExec } := by
    simp [s₂, PcbHeap.write]
  have haway : schedDispatcherPutAway s₂ c (some x) = schedAddToProcessQueue s₂ x :=
    schedDispatcherPutAway_live (by simpa [s₂, s₁] using hstatus) hp₂
      (show prExec ≠ prFini by decide)
  refine ⟨fun q => Sched.modifyCore { s₂ with
      pcbs := s₂.pcbs.write x { dispUnload (s.thread c) p with status := prReady }
      schedulerQueueIObject := q } c ({ · with
        currrentCpuSchedStatus := if x = .nullProcess then nullProcessRun else processRun }),
    ?_, ?_⟩
  · unfold schedDispatcher schedGetNextProcessCleanQueue
    rw [if_neg hstatus, hnext, Outcome.ok_bind]
    dsimp only
    rw [hcurrent]
    show schedDispatcherSwitch s₁ c (some x) x = _
    unfold schedDispatcherSwitch
    rw [hload, Outcome.ok_bind, haway]
    unfold schedAddToProcessQueue
    rw [PcbHeap.read_eq_ok.2 hp₂, Outcome.ok_bind]
    show (iSchedInsert iSched x p.currentPriority >>= _) >>= _ = _
    cases iSchedInsert iSched x p.currentPriority with
    | error e => rfl
    | ok q => rfl
  · intro q
    refine ⟨rfl, ?_, ?_, ?_, ?_, ?_⟩
    · simp [PcbHeap.write]
    · intro y hy
      simp [s₂, PcbHeap.write, Function.update_of_ne hy]
    · simp [s₂]
    · simp
    · have hthreadS : (s₂.coreControlArray c).threadS = (s₁.coreControlArray c).threadS := by
        simp [s₂]
      unfold Sched.thread
      rw [Sched.modifyCore_self]
      show (Function.update s.threads (s₁.coreControlArray c).threadS
        (dispLoad (s.thread c) (dispUnload (s.thread c) p)).1
        (s₂.coreControlArray c).threadS).context = _
      rw [hthreadS, Function.update_self]
      rfl

/-! ## A record that is idle -/

/-- `null_process` takes over from itself or from nothing, and nothing is put away. Reference:
`sched_dispatcher` (`src/scheduler.c:55`). -/
theorem schedDispatcherSwitch_idle {old : Option (PcbPtr ι)}
    (hstatus : (s.coreControlArray c).currrentCpuSchedStatus = nullProcessRun)
    (hold : ∀ x, old = some x → x = .nullProcess) (hnull : (s.pcbs .nullProcess).isSome) :
    ∃ s', schedDispatcherSwitch s c old .nullProcess = .ok s' ∧
      s.Switched c none .nullProcess s' := by
  obtain ⟨p, hp⟩ := Option.isSome_iff_exists.1 hnull
  have hload : ∃ pcbs threads,
      schedDispatcherLoad s c old .nullProcess =
        .ok { s.modifyCore c ({ · with currentProcess := some .nullProcess }) with pcbs, threads } ∧
      (pcbs .nullProcess).isSome ∧ ∀ x, x ≠ .nullProcess → pcbs x = s.pcbs x := by
    unfold schedDispatcherLoad dispDispatch dispUnloadOld PcbHeap.read
    cases old with
    | none =>
      simp only [hp, Outcome.ok_bind, Outcome.pure_eq, PcbHeap.write]
      exact ⟨_, _, rfl, by simp, fun x hx => Function.update_of_ne hx ..⟩
    | some x =>
      cases hold x rfl
      simp only [hp, Outcome.ok_bind, Outcome.pure_eq, PcbHeap.write, Function.update_self,
        Function.update_idem]
      exact ⟨_, _, rfl, by simp, fun x hx => Function.update_of_ne hx ..⟩
  obtain ⟨pcbs, threads, hload, hlive, hkept⟩ := hload
  unfold schedDispatcherSwitch
  rw [hload, Outcome.ok_bind, schedDispatcherPutAway_idle old (by simpa using hstatus),
    Outcome.ok_bind]
  refine ⟨_, rfl, rfl, rfl, ?_, ?_, ?_, nofun, hlive, fun x hx _ => hkept x hx⟩
  · intro d hd
    simp [hd]
  · simp
  · simp

/-- An idle record switches to `null_process`; the queue is not looked at. Reference:
`sched_dispatcher` (`src/scheduler.c:42`). -/
theorem schedDispatcher_idle
    (hstatus : (s.coreControlArray c).currrentCpuSchedStatus = nullProcessRun)
    (hcurrent : ∀ x, (s.coreControlArray c).currentProcess = some x → x = .nullProcess)
    (hnull : (s.pcbs .nullProcess).isSome) :
    ∃ s', schedDispatcher s c = .ok s' ∧ s.Switched c none .nullProcess s' := by
  obtain ⟨s', hswitch, hs'⟩ := schedDispatcherSwitch_idle (c := c)
    (s := s.modifyCore c ({ · with currentProcessQuantum := schedulerBaseProcessRrFreq }))
    (by simpa using hstatus) hcurrent hnull
  refine ⟨s', ?_, hs'.of_modifyCore⟩
  unfold schedDispatcher schedGetNextProcessCleanQueue
  rw [if_pos hstatus]
  exact hswitch

/-! ## A record that is idle and not marked so -/

/-- The status of the old process is read through `NULL`. Reference: `sched_dispatcher`
(`src/scheduler.c:59`). -/
theorem schedDispatcherSwitch_none
    (hstatus : (s.coreControlArray c).currrentCpuSchedStatus ≠ nullProcessRun) :
    schedDispatcherSwitch s c none next ≠ .ok s' := by
  intro h
  obtain ⟨t, hload, h⟩ := Outcome.bind_eq_ok.1 h
  obtain ⟨u, haway, -⟩ := Outcome.bind_eq_ok.1 h
  obtain ⟨⟨pcbs, thread⟩, -, hload⟩ := Outcome.bind_eq_ok.1 hload
  cases hload
  rcases schedDispatcherPutAway_cases haway with ⟨hidle, -⟩ | ⟨-, x, status, hold, -⟩
  · exact hstatus (by simpa using hidle)
  · cases hold

/-- `null_process` was saved with status `PR_FINI` and cannot be freed. Reference:
`sched_dispatcher` (`src/scheduler.c:60`). -/
theorem schedDispatcherSwitch_nullProcess
    (hstatus : (s.coreControlArray c).currrentCpuSchedStatus ≠ nullProcessRun)
    (hne : next ≠ .nullProcess) :
    schedDispatcherSwitch s c (some .nullProcess) next ≠ .ok s' := by
  intro h
  obtain ⟨t, hload, h⟩ := Outcome.bind_eq_ok.1 h
  obtain ⟨u, haway, -⟩ := Outcome.bind_eq_ok.1 h
  obtain ⟨⟨pcbs, thread⟩, hdisp, hload⟩ := Outcome.bind_eq_ok.1 hload
  cases hload
  obtain ⟨heap, hunload, hdisp⟩ := Outcome.bind_eq_ok.1 hdisp
  obtain ⟨p, hp, hunload⟩ := Outcome.bind_eq_ok.1 hunload
  cases hunload
  obtain ⟨q, hq, hdisp⟩ := Outcome.bind_eq_ok.1 hdisp
  cases hdisp
  rcases schedDispatcherPutAway_cases haway with
    ⟨hidle, -⟩ | ⟨-, x, status, hold, hread, hways⟩
  · exact hstatus (by simpa using hidle)
  cases hold
  obtain ⟨p', hp', hread⟩ := Outcome.bind_eq_ok.1 hread
  cases hread
  rw [PcbHeap.read_eq_ok] at hp'
  simp only [PcbHeap.write, Function.update_of_ne hne.symm, Function.update_self,
    Option.some.injEq] at hp'
  subst hp'
  rcases hways with ⟨-, pcbs', hend, -⟩ | ⟨hlive, -⟩
  · obtain ⟨p', -, hend⟩ := Outcome.bind_eq_ok.1 hend
    cases hend
  · exact hlive rfl

/-- A record without a process and not marked idle makes the dispatcher follow `NULL`. Reference:
`sched_dispatcher` (`src/scheduler.c:42`). -/
theorem schedDispatcher_no_current
    (hstatus : (s.coreControlArray c).currrentCpuSchedStatus ≠ nullProcessRun)
    (hcurrent : (s.coreControlArray c).currentProcess = none) : schedDispatcher s c ≠ .ok s' := by
  intro h
  obtain ⟨⟨r, t⟩, hnext, h⟩ := Outcome.bind_eq_ok.1 h
  unfold schedGetNextProcessCleanQueue at hnext
  rw [if_neg hstatus] at hnext
  obtain ⟨iSched, rfl⟩ := schedGetNextProcess_eq hnext
  dsimp only at h
  rw [hcurrent] at h
  cases r with
  | none => cases h
  | some x => exact schedDispatcherSwitch_none (by simpa using hstatus) h

/-- A record of `null_process` that is not marked idle makes the dispatcher free `null_process` when
the queue answers another process. Reference: `sched_dispatcher` (`src/scheduler.c:42`). -/
theorem schedDispatcher_nullProcess {iSched : SISched (PcbPtr ι)}
    (hstatus : (s.coreControlArray c).currrentCpuSchedStatus ≠ nullProcessRun)
    (hcurrent : (s.coreControlArray c).currentProcess = some .nullProcess)
    (hnext : schedGetNextProcess s = .ok (some next, { s with schedulerQueueIObject := iSched }))
    (hne : next ≠ .nullProcess) : schedDispatcher s c ≠ .ok s' := by
  intro h
  unfold schedDispatcher schedGetNextProcessCleanQueue at h
  rw [if_neg hstatus, hnext, Outcome.ok_bind] at h
  dsimp only at h
  rw [hcurrent] at h
  exact schedDispatcherSwitch_nullProcess (by simpa using hstatus) hne h

end SeKernel
