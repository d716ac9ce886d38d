import SeKernel.Scheduler.NullReads

/-!
# Passes that read a process that is not there

A turn finishes no process of another record (`Sched.Steady`), so a pass whose start shows no
expired record reads no field of `NULL`. The turns before can spare an expired record only when its
process is in two places: they load it from the queue, or destroy it on another record. Without such
processes a pass stops exactly when a record has expired at its start (`schedExecute_nullReads`).
-/

namespace SeKernel

variable {ι τ : Type} {k n : Nat}

/-- The record runs the process `o`, and its time slice is over. -/
def Sched.SliceOver (s : Sched ι τ k n) (c : Fin k) (o : ι) : Prop :=
  RoundRobin s.currentPolicy ∧ (s.coreControlArray c).currentProcessQuantum ≤ 0 ∧
    (s.coreControlArray c).currentProcess = some (.pcb o)

/-- A process whose time slice is over is not queued and runs on no other record. -/
def Sched.Apart (s : Sched ι τ k n) : Prop :=
  ∀ c o, s.SliceOver c o → .pcb o ∉ s.queued ∧
    ∀ d, d ≠ c → (s.coreControlArray d).currentProcess ≠ some (.pcb o)

/-- No process is destroyed that the scheduler knows. -/
structure Sched.Live (s : Sched ι τ k n) : Prop where
  nullProcess : (s.pcbs .nullProcess).isSome
  queued : ∀ x ∈ s.queued, (s.pcbs x).isSome
  current : ∀ c x, (s.coreControlArray c).currentProcess = some x → (s.pcbs x).isSome

variable {c d : Fin k} {s s' t : Sched ι τ k n} {i o : ι} {p : Pcb}

variable [DecidableEq ι] [DecidableEq τ]

/-! ## What a turn keeps -/

/-- The back end stays fit, and no process finishes. -/
structure Sched.Steady (s s' : Sched ι τ k n) : Prop where
  backEnd : BackEndOk s'.currentPolicy s'.schedulerQueueIObject
  finished : ∀ i, s'.Finished i → s.Finished i

omit [DecidableEq ι] [DecidableEq τ] in
theorem Sched.Steady.of_eq (hback : BackEndOk s'.currentPolicy s'.schedulerQueueIObject)
    (hpcbs : s'.pcbs = s.pcbs) : s.Steady s' := by
  refine ⟨hback, fun i hi => ?_⟩
  unfold Sched.Finished at hi ⊢
  rw [← hpcbs]
  exact hi

omit [DecidableEq ι] [DecidableEq τ] in
theorem Sched.Steady.trans (h : s.Steady t) (h' : t.Steady s') : s.Steady s' :=
  ⟨h'.backEnd, fun i hi => h.finished i (h'.finished i hi)⟩

omit [DecidableEq τ] in
theorem schedAddToProcessQueue_steady {x : PcbPtr ι}
    (hback : BackEndOk s.currentPolicy s.schedulerQueueIObject)
    (h : schedAddToProcessQueue s x = .ok s') :
    s.Steady s' ∧ ∀ i, s'.Finished i → x ≠ .pcb i := by
  obtain ⟨p, -, h⟩ := Outcome.bind_eq_ok.1 h
  obtain ⟨iSched, hin, h⟩ := Outcome.bind_eq_ok.1 h
  cases h
  have hready : ∀ i, Sched.Finished { s with
      pcbs := s.pcbs.write x { p with status := prReady }
      schedulerQueueIObject := iSched } i → x ≠ .pcb i ∧ s.Finished i := by
    rintro i ⟨q, hq, hfini⟩
    simp only [PcbHeap.write, Function.update_apply] at hq
    split at hq
    · cases hq
      cases hfini
    next hx => exact ⟨Ne.symm hx, q, hq, hfini⟩
  refine ⟨⟨?_, fun i hi => (hready i hi).2⟩, fun i hi => (hready i hi).1⟩
  rcases iSchedInsert_returns hback x p.currentPriority with ⟨iSched', hin', hback'⟩ | hout
  · rw [hin] at hin'
    cases hin'
    exact hback'
  · rw [hout] at hin
    cases hin

omit [DecidableEq τ] in
/-- Only the terminated process is gone. Reference: `disp_terminate` (`src/scheduler.c:136`). -/
theorem dispTerminate_left {heap heap' : PcbHeap (PcbPtr ι)} {thread : Thread n} {x : PcbPtr ι}
    (h : dispTerminate heap thread x = .ok heap') (hp : heap' (.pcb i) = some p) :
    x ≠ .pcb i ∧ heap (.pcb i) = some p := by
  obtain ⟨q, -, h⟩ := Outcome.bind_eq_ok.1 h
  cases x with
  | nullProcess => cases h
  | pcb o =>
    obtain ⟨q', -, h⟩ := Outcome.bind_eq_ok.1 h
    cases h
    by_cases hi : PcbPtr.pcb i = .pcb o
    · simp [hi] at hp
    · simp only [PcbHeap.write, Function.update_of_ne hi] at hp
      exact ⟨Ne.symm hi, hp⟩

omit [DecidableEq τ] in
/-- The process that is put away is destroyed or queued again. Reference: `sched_dispatcher`
(`src/scheduler.c:58`). -/
theorem schedDispatcherPutAway_steady {x : PcbPtr ι}
    (hback : BackEndOk s.currentPolicy s.schedulerQueueIObject)
    (hstatus : (s.coreControlArray c).currrentCpuSchedStatus ≠ nullProcessRun)
    (h : schedDispatcherPutAway s c (some x) = .ok s') :
    s.Steady s' ∧ ∀ i, s'.Finished i → x ≠ .pcb i := by
  rcases schedDispatcherPutAway_cases h with
    ⟨hidle, -⟩ | ⟨-, y, status, hold, -, ⟨-, pcbs, hend, rfl⟩ | ⟨-, hadd⟩⟩
  · exact absurd hidle hstatus
  · cases hold
    have hleft : ∀ i, Sched.Finished { s with pcbs } i → x ≠ .pcb i ∧ s.Finished i := by
      rintro i ⟨p, hp, hfini⟩
      obtain ⟨hne, hp⟩ := dispTerminate_left hend hp
      exact ⟨hne, p, hp, hfini⟩
    exact ⟨⟨hback, fun i hi => (hleft i hi).2⟩, fun i hi => (hleft i hi).1⟩
  · cases hold
    exact schedAddToProcessQueue_steady hback hadd

/-- Loading a process marks no other one finished than the old one. Reference: `disp_dispatch`
(`src/scheduler.c:129`). -/
theorem schedDispatcherLoad_finished {old : Option (PcbPtr ι)} {next : PcbPtr ι}
    (h : schedDispatcherLoad s c old next = .ok t) (hi : t.Finished i) :
    s.Finished i ∨ old = some (.pcb i) := by
  obtain ⟨⟨pcbs, thread⟩, hdisp, h⟩ := Outcome.bind_eq_ok.1 h
  cases h
  obtain ⟨heap, hunload, hdisp⟩ := Outcome.bind_eq_ok.1 hdisp
  obtain ⟨q, -, hdisp⟩ := Outcome.bind_eq_ok.1 hdisp
  cases hdisp
  obtain ⟨p, hp, hfini⟩ := hi
  simp only [PcbHeap.write, Function.update_apply] at hp
  split at hp
  · cases hp
    cases hfini
  · cases old with
    | none =>
      cases hunload
      exact .inl ⟨p, hp, hfini⟩
    | some x =>
      obtain ⟨p', -, hunload⟩ := Outcome.bind_eq_ok.1 hunload
      cases hunload
      simp only [PcbHeap.write, Function.update_apply] at hp
      split at hp
      next hx => exact .inr (congrArg some hx.symm)
      next => exact .inl ⟨p, hp, hfini⟩

/-- A switch whose old process is put away, or is no process of a program. Reference:
`sched_dispatcher` (`src/scheduler.c:55`). -/
theorem schedDispatcherSwitch_steady {old : Option (PcbPtr ι)} {next : PcbPtr ι}
    (hback : BackEndOk s.currentPolicy s.schedulerQueueIObject)
    (hidle : (s.coreControlArray c).currrentCpuSchedStatus = nullProcessRun →
      ∀ x, old = some x → x = .nullProcess)
    (h : schedDispatcherSwitch s c old next = .ok s') : s.Steady s' := by
  obtain ⟨t, hload, h⟩ := Outcome.bind_eq_ok.1 h
  obtain ⟨u, haway, h⟩ := Outcome.bind_eq_ok.1 h
  cases h
  have hfinished : ∀ i, t.Finished i → s.Finished i ∨ old = some (.pcb i) :=
    fun i => schedDispatcherLoad_finished hload
  obtain ⟨⟨pcbs, thread⟩, -, hload⟩ := Outcome.bind_eq_ok.1 hload
  cases hload
  by_cases hstatus : (s.coreControlArray c).currrentCpuSchedStatus = nullProcessRun
  · rw [schedDispatcherPutAway_idle old (by simpa using hstatus)] at haway
    cases haway
    refine ⟨hback, fun i hi => (hfinished i hi).resolve_right fun hold => ?_⟩
    cases hidle hstatus _ hold
  · cases old with
    | none =>
      rcases schedDispatcherPutAway_cases haway with ⟨hmarked, -⟩ | ⟨-, x, status, hold, -⟩
      · exact absurd (by simpa using hmarked) hstatus
      · cases hold
    | some x =>
      obtain ⟨hsteady, haway⟩ :=
        schedDispatcherPutAway_steady (x := x) (by exact hback) (by simpa using hstatus) haway
      refine ⟨hsteady.backEnd, fun i hi => ?_⟩
      refine (hfinished i (hsteady.finished i hi)).resolve_right fun hold => ?_
      exact haway i hi (Option.some.inj hold)

/-- Reference: `sched_dispatcher` (`src/scheduler.c:42`). -/
theorem schedDispatcher_steady (hback : BackEndOk s.currentPolicy s.schedulerQueueIObject)
    (hidle : (s.coreControlArray c).currrentCpuSchedStatus = nullProcessRun → s.Idle c)
    (h : schedDispatcher s c = .ok s') : s.Steady s' := by
  obtain ⟨r₀, iSched, hnext, hback'⟩ := schedGetNextProcessCleanQueue_ok (c := c) hback
  unfold schedDispatcher at h
  rw [hnext, Outcome.ok_bind] at h
  obtain ⟨⟨r, t⟩, hchoose, h⟩ := Outcome.bind_eq_ok.1 h
  obtain ⟨hpolicy, hqueue, hpcbs, hmarked⟩ := schedDispatcherChoose_kept hchoose
  have ht : s.Steady t := .of_eq (by rw [hpolicy, hqueue]; exact hback') hpcbs
  cases r with
  | none =>
    cases h
    exact ht
  | some next =>
    exact ht.trans (schedDispatcherSwitch_steady ht.backEnd
      (fun hstatus x hx => (hidle (hmarked hstatus)).eq_nullProcess hx) h)

omit [DecidableEq ι] [DecidableEq τ] in
theorem schedUpdateRunningPcb_steady (hback : BackEndOk s.currentPolicy s.schedulerQueueIObject)
    (h : schedUpdateRunningPcb s c = .ok t) :
    s.Steady t ∧ (t.coreControlArray c).currrentCpuSchedStatus =
      (s.coreControlArray c).currrentCpuSchedStatus := by
  rcases schedUpdateRunningPcb_cases h with ⟨-, rfl⟩ | ⟨-, rfl⟩
  · exact ⟨.of_eq hback rfl, rfl⟩
  · exact ⟨.of_eq hback rfl, by simp⟩

/-- The turn of a record that is idle or busy. Reference: `sched_execute` (`src/scheduler.c:26`). -/
theorem schedExecuteCore_steady (hback : BackEndOk s.currentPolicy s.schedulerQueueIObject)
    (hrecord : s.RecordOk c) (h : schedExecuteCore s c = .ok s') : s.Steady s' := by
  obtain ⟨t, hupdate, h⟩ := Outcome.bind_eq_ok.1 h
  obtain ⟨ht, hstatus⟩ := schedUpdateRunningPcb_steady hback hupdate
  have hdispatcher : ∀ u, schedDispatcher t c = .ok u → t.Steady u := by
    refine fun u => schedDispatcher_steady ht.backEnd fun hidle => ?_
    rcases hrecord with hmarked | ⟨hbusy, -⟩
    · exact (hmarked.updateRunningPcb hupdate).1
    · exact absurd hidle (ne_nullProcessRun (hstatus.trans hbusy))
  refine ht.trans ?_
  rcases schedExecuteUpdated_cases h with ⟨hdispatch, -⟩ | ⟨-, -, rfl⟩ | ⟨-, -, -, rfl⟩
  · exact hdispatcher s' hdispatch
  · exact .of_eq ht.backEnd rfl
  · exact .of_eq ht.backEnd rfl

/-! ## A pass -/

/-- What the turns of other records leave to the records `l`, in a pass that starts in `s`. -/
structure Sched.Rest (s : Sched ι τ k n) (l : List (Fin k)) (t : Sched ι τ k n) : Prop where
  nodup : l.Nodup
  policy : t.currentPolicy = s.currentPolicy
  cores : ∀ c ∈ l, t.coreControlArray c = s.coreControlArray c
  steady : s.Steady t

/-- In a pass that starts in `s`, the turn of record `c` starts in state `t`. -/
def Sched.TurnStarts (s : Sched ι τ k n) (c : Fin k) (t : Sched ι τ k n) : Prop :=
  ∃ l l', List.finRange k = l ++ c :: l' ∧ l.foldlM schedExecuteCore s = .ok t

section

variable {l : List (Fin k)}

omit [DecidableEq ι] [DecidableEq τ] in
theorem Sched.Rest.start (hback : BackEndOk s.currentPolicy s.schedulerQueueIObject) :
    s.Rest (List.finRange k) s :=
  ⟨List.nodup_finRange k, rfl, fun _ _ => rfl, .of_eq hback rfl⟩

omit [DecidableEq ι] [DecidableEq τ] in
theorem Sched.Rest.recordOk (h : s.Rest l t) (hrecord : s.RecordOk c) (hc : c ∈ l) :
    t.RecordOk c := by
  unfold Sched.RecordOk Sched.IdleMarked Sched.Idle
  rw [h.cores c hc]
  exact hrecord

omit [DecidableEq ι] [DecidableEq τ] in
theorem Sched.Rest.expired (h : s.Rest l t) (hc : c ∈ l) (hexpired : t.Expired c) :
    s.Expired c := by
  obtain ⟨o, ho, hfini, htime⟩ := hexpired
  unfold Sched.OutOfTime at htime
  rw [h.cores c hc, h.policy] at htime
  exact ⟨o, by rw [← h.cores c hc, ho], h.steady.finished o hfini, htime⟩

/-- A turn leaves the other records what they need. -/
theorem Sched.Rest.turn (h : s.Rest (c :: l) t) (hrecord : s.RecordOk c)
    (hturn : schedExecuteCore t c = .ok s') : s.Rest l s' := by
  obtain ⟨hc, hl⟩ := List.nodup_cons.1 h.nodup
  have honly := schedExecuteCore_onlyCore hturn
  refine ⟨hl, honly.policy.trans h.policy, fun d hd => ?_, ?_⟩
  · rw [honly.cores d fun hdc => hc (hdc ▸ hd), h.cores d (List.mem_cons_of_mem c hd)]
  · exact h.steady.trans (schedExecuteCore_steady h.steady.backEnd
      (h.recordOk hrecord List.mem_cons_self) hturn)

end

/-- What holds when the turn of a record starts. -/
theorem Sched.TurnStarts.rest (hback : BackEndOk s.currentPolicy s.schedulerQueueIObject)
    (hrecord : ∀ c, s.RecordOk c) (h : s.TurnStarts c t) : ∃ l, s.Rest (c :: l) t := by
  obtain ⟨l, l', hl, hfold⟩ := h
  refine ⟨l', Pass.foldlM_keeps_rest (J := s.Rest)
    (fun d _ _ _ hu hturn => hu.turn (hrecord d) hturn) ?_ hfold⟩
  rw [← hl]
  exact .start hback

/-- A pass reads a field of `NULL` if and only if a turn does. -/
theorem schedExecute_nullDeref_iff (hback : BackEndOk s.currentPolicy s.schedulerQueueIObject)
    (hrecord : ∀ c, s.RecordOk c) :
    schedExecute s = .error .nullDeref ↔
      ∃ c t, s.TurnStarts c t ∧ t.Expired c ∧ (RoundRobin s.currentPolicy → t.NextLive) := by
  have hturn : ∀ c t, s.TurnStarts c t → (schedExecuteCore t c = .error .nullDeref ↔
      t.Expired c ∧ (RoundRobin s.currentPolicy → t.NextLive)) := by
    intro c t ht
    obtain ⟨l, hrest⟩ := ht.rest hback hrecord
    rw [schedExecuteCore_nullDeref_iff hrest.steady.backEnd
      (hrest.recordOk (hrecord c) List.mem_cons_self), hrest.policy]
  unfold schedExecute
  rw [Pass.foldlM_eq_error_iff]
  constructor
  · rintro ⟨l, c, l', t, hl, hfold, hstop⟩
    have ht : s.TurnStarts c t := ⟨l, l', hl, hfold⟩
    exact ⟨c, t, ht, (hturn c t ht).1 hstop⟩
  · rintro ⟨c, t, ht, hexpired⟩
    obtain ⟨l, l', hl, hfold⟩ := ht
    exact ⟨l, c, l', t, hl, hfold, (hturn c t ⟨l, l', hl, hfold⟩).2 hexpired⟩

/-! ## A pass over records with processes of their own -/

/-- A turn of record `c` takes from the queue at most, and destroys or changes no process but its
own one and those in the queue. -/
structure Sched.Spared (c : Fin k) (s s' : Sched ι τ k n) : Prop where
  queued : ∀ x ∈ s'.queued, x ∈ s.queued
  live : ∀ x, (s.pcbs x).isSome → (∀ o, s.SliceOver c o → x ≠ .pcb o) → (s'.pcbs x).isSome
  kept : ∀ i, (RoundRobin s.currentPolicy → .pcb i ∉ s.queued) → ¬ s.SliceOver c i →
    s'.pcbs (.pcb i) = s.pcbs (.pcb i)

omit [DecidableEq ι] [DecidableEq τ] in
theorem Sched.Spared.of_eq (hqueued : ∀ x ∈ s'.queued, x ∈ s.queued) (hpcbs : s'.pcbs = s.pcbs) :
    s.Spared c s' :=
  ⟨hqueued, fun x hx _ => by rwa [hpcbs], fun i _ _ => congrFun hpcbs _⟩

omit [DecidableEq τ] in
theorem Sched.Spared.of_idle (h : s.Switched c none .nullProcess s') : s.Spared c s' where
  queued x hx := by
    unfold Sched.queued at hx
    rw [h.queue] at hx
    exact hx
  live x hx _ := by
    by_cases hnull : x = .nullProcess
    · exact hnull ▸ h.live
    · rw [h.kept x hnull nofun]
      exact hx
  kept i _ _ := h.kept (.pcb i) nofun nofun

omit [DecidableEq τ] in
theorem Sched.Spared.of_switched {iSched : SISched (PcbPtr ι)} {x : PcbPtr ι}
    (ho : s.SliceOver c o) (hx : x ∈ s.queued)
    (hqueued : ∀ y ∈ iSched.schedData.queued, y ∈ s.queued)
    (h : Sched.Switched c (some o) x { s with schedulerQueueIObject := iSched } s') :
    s.Spared c s' where
  queued y hy := by
    unfold Sched.queued at hy
    rw [h.queue] at hy
    exact hqueued y hy
  live y hy hne := by
    by_cases hyx : y = x
    · exact hyx ▸ h.live
    · rw [h.kept y hyx ?_]
      · exact hy
      · rintro o' ⟨⟩
        exact hne o ho
  kept i hi hne := by
    refine h.kept (.pcb i) ?_ ?_
    · rintro rfl
      exact hi ho.1 hx
    · rintro o' ⟨⟩ hio
      cases hio
      exact hne ho

omit [DecidableEq ι] [DecidableEq τ] in
/-- An idle record has at most `null_process` to lose. Reference: `__sched_update_running_pcb`
(`src/scheduler.c:78`). -/
theorem schedUpdateRunningPcb_idle (hidle : s.IdleMarked c) (hnull : (s.pcbs .nullProcess).isSome) :
    ∃ t, schedUpdateRunningPcb s c = .ok t ∧ t.IdleMarked c ∧
      (t = s ∨ t = s.modifyCore c ({ · with currentProcess := none })) := by
  obtain ⟨p, hp⟩ := Option.isSome_iff_exists.1 hnull
  have hupdate : ∃ t, schedUpdateRunningPcb s c = .ok t ∧
      (t = s ∨ t = s.modifyCore c ({ · with currentProcess := none })) := by
    unfold schedUpdateRunningPcb
    rcases hidle.1 with hnone | hcurrent
    · rw [hnone]
      exact ⟨s, rfl, .inl rfl⟩
    · rw [hcurrent]
      dsimp only
      rw [PcbHeap.read_eq_ok.2 hp, Outcome.ok_bind]
      split
      · exact ⟨_, rfl, .inr rfl⟩
      · exact ⟨s, rfl, .inl rfl⟩
  obtain ⟨t, hupdate, ht⟩ := hupdate
  exact ⟨t, hupdate, hidle.updateRunningPcb hupdate, ht⟩

/-- The turn of an idle record. Reference: `sched_execute` (`src/scheduler.c:26`). -/
theorem schedExecuteCore_spares_idle (hidle : s.IdleMarked c)
    (hnull : (s.pcbs .nullProcess).isSome) :
    ∃ s', schedExecuteCore s c = .ok s' ∧ s.Spared c s' := by
  obtain ⟨t, hupdate, ht, hts⟩ := schedUpdateRunningPcb_idle hidle hnull
  have hpcbs : t.pcbs = s.pcbs := by rcases hts with rfl | rfl <;> rfl
  have hqueued : t.queued = s.queued := by rcases hts with rfl | rfl <;> rfl
  obtain ⟨s', hdispatch, hs'⟩ :=
    schedDispatcher_idle ht.2 (fun x => ht.1.eq_nullProcess) (by rw [hpcbs]; exact hnull)
  have hspared : s.Spared c s' := by
    rcases hts with rfl | rfl
    · exact .of_idle hs'
    · exact .of_idle hs'.of_modifyCore
  unfold schedExecuteCore schedExecuteUpdated
  rw [hupdate, Outcome.ok_bind]
  by_cases hpolicy : RoundRobin t.currentPolicy
  · rw [if_pos hpolicy]
    by_cases hquantum : (t.coreControlArray c).currentProcessQuantum ≤ 0
    · rw [if_pos hquantum]
      exact ⟨s', hdispatch, hspared⟩
    · rw [if_neg hquantum]
      refine ⟨_, rfl, .of_eq (fun x hx => ?_) hpcbs⟩
      rw [← hqueued]
      exact hx
  · rw [if_neg hpolicy, if_pos ht.2]
    exact ⟨s', hdispatch, hspared⟩

section

variable (hback : BackEndOk s.currentPolicy s.schedulerQueueIObject)
  (hstatus : (s.coreControlArray c).currrentCpuSchedStatus ≠ nullProcessRun)
  (ho : (s.coreControlArray c).currentProcess = some (.pcb o))
  (hp : s.pcbs (.pcb o) = some p)

include ho hp in
/-- The turn of a record that runs a finished process and has time left: the process is taken off.
Reference: `sched_execute` (`src/scheduler.c:33`). -/
theorem schedExecuteCore_spares_finished (hfini : p.status = prFini)
    (htime : ¬ s.OutOfTime c) : ∃ s', schedExecuteCore s c = .ok s' ∧ s.Spared c s' := by
  obtain ⟨hpolicy, hquantum⟩ := Classical.not_imp.1 htime
  unfold schedExecuteCore
  rw [schedUpdateRunningPcb_fini ho hp hfini, Outcome.ok_bind]
  unfold schedExecuteUpdated
  rw [Sched.modifyCore_currentPolicy, if_pos hpolicy, Sched.modifyCore_self, if_neg hquantum]
  exact ⟨_, rfl, .of_eq (fun x hx => hx) rfl⟩

include hback hstatus ho hp in
/-- The turn of a record whose process has not finished. Reference: `sched_execute`
(`src/scheduler.c:26`). -/
theorem schedExecuteCore_spares_live (hlive : p.status ≠ prFini)
    (hnull : (s.pcbs .nullProcess).isSome) (hqueued : ∀ x ∈ s.queued, (s.pcbs x).isSome)
    (hapart : s.SliceOver c o → .pcb o ∉ s.queued) :
    ∃ s', schedExecuteCore s c = .ok s' ∧ s.Spared c s' := by
  unfold schedExecuteCore
  rw [schedUpdateRunningPcb_live ho hp hlive, Outcome.ok_bind]
  unfold schedExecuteUpdated
  by_cases hpolicy : RoundRobin s.currentPolicy
  · rw [if_pos hpolicy]
    by_cases hquantum : (s.coreControlArray c).currentProcessQuantum ≤ 0
    · rw [if_pos hquantum]
      have hover : s.SliceOver c o := ⟨hpolicy, hquantum, ho⟩
      obtain ⟨iSched, hnext, -, hmem, hsub⟩ := schedGetNextProcess_next hback
      cases hr : s.next? with
      | none =>
        obtain ⟨s', hdispatch, ⟨-, rfl⟩ | ⟨hfini, -⟩⟩ :=
          schedDispatcher_unanswered hstatus ho hnext hr hp hnull
        · exact ⟨_, hdispatch, .of_eq hsub rfl⟩
        · exact absurd hfini hlive
      | some x =>
        have hx := hmem x hr
        have hne : x ≠ .pcb o := by
          rintro rfl
          exact hapart hover hx
        have holive : (s.pcbs (.pcb o)).isSome := by rw [hp]; rfl
        obtain ⟨s', hdispatch, hs'⟩ :=
          schedDispatcher_answered hstatus ho hnext hr holive (hqueued x hx) hne
        exact ⟨s', hdispatch, .of_switched hover hx hsub hs'⟩
    · rw [if_neg hquantum]
      exact ⟨_, rfl, .of_eq (fun x hx => hx) rfl⟩
  · rw [if_neg hpolicy, if_neg hstatus, ho, PcbHeap.status, PcbHeap.read_eq_ok.2 hp]
    refine ⟨s, ?_, .of_eq (fun x hx => hx) rfl⟩
    simp [hlive]

end

/-- What the turns of other records leave to the records `l`, in a pass that starts in `s`, where no
process is in two places. -/
structure Sched.RestApart (s : Sched ι τ k n) (l : List (Fin k)) (t : Sched ι τ k n) : Prop
    extends s.Rest l t where
  nullProcess : (t.pcbs .nullProcess).isSome
  queued : ∀ x ∈ t.queued, x ∈ s.queued ∧ (t.pcbs x).isSome
  current : ∀ c ∈ l, ∀ x, (s.coreControlArray c).currentProcess = some x → (t.pcbs x).isSome
  kept : ∀ c ∈ l, ∀ o, (s.coreControlArray c).currentProcess = some (.pcb o) → s.OutOfTime c →
    t.pcbs (.pcb o) = s.pcbs (.pcb o)

section

variable {l : List (Fin k)} (hapart : s.Apart) (hrecord : s.RecordOk c) (h : s.RestApart (c :: l) t)

include h

omit [DecidableEq ι] [DecidableEq τ] in
theorem Sched.RestApart.sliceOver_iff : t.SliceOver c o ↔ s.SliceOver c o := by
  unfold Sched.SliceOver
  rw [h.policy, h.cores c List.mem_cons_self]

omit [DecidableEq ι] [DecidableEq τ] in
theorem Sched.RestApart.expired_iff : t.Expired c ↔ s.Expired c := by
  refine ⟨h.toRest.expired List.mem_cons_self, ?_⟩
  rintro ⟨o, ho, ⟨p, hp, hfini⟩, htime⟩
  refine ⟨o, by rw [h.cores c List.mem_cons_self, ho], ⟨p, ?_, hfini⟩, ?_⟩
  · rw [h.kept c List.mem_cons_self o ho htime, hp]
  · unfold Sched.OutOfTime
    rw [h.policy, h.cores c List.mem_cons_self]
    exact htime

include hapart in
theorem Sched.RestApart.spared (hturn : schedExecuteCore t c = .ok s') (hrest : s.Rest l s')
    (hspared : t.Spared c s') : s.RestApart l s' := by
  have hover : ∀ o, t.SliceOver c o → .pcb o ∉ s.queued ∧
      ∀ d, d ≠ c → (s.coreControlArray d).currentProcess ≠ some (.pcb o) :=
    fun o ho => hapart c o (h.sliceOver_iff.1 ho)
  have hne : ∀ d ∈ l, d ≠ c := by
    rintro d hd rfl
    exact (List.nodup_cons.1 h.nodup).1 hd
  refine { hrest with nullProcess := ?_, queued := ?_, current := ?_, kept := ?_ }
  · exact hspared.live _ h.nullProcess fun o _ => nofun
  · intro x hx
    obtain ⟨hxs, hlive⟩ := h.queued x (hspared.queued x hx)
    refine ⟨hxs, hspared.live x hlive ?_⟩
    rintro o ho rfl
    exact (hover o ho).1 hxs
  · intro d hd x hx
    refine hspared.live x (h.current d (List.mem_cons_of_mem c hd) x hx) ?_
    rintro o ho rfl
    exact (hover o ho).2 d (hne d hd) hx
  · intro d hd o ho htime
    rw [hspared.kept o ?_ ?_]
    · exact h.kept d (List.mem_cons_of_mem c hd) o ho htime
    · intro hpolicy hqueued
      rw [h.policy] at hpolicy
      exact (hapart d o ⟨hpolicy, htime hpolicy, ho⟩).1 (h.queued _ hqueued).1
    · exact fun hslice => (hover o hslice).2 d (hne d hd) ho

include hapart hrecord

theorem Sched.RestApart.turn (hnot : ¬ s.Expired c) :
    ∃ s', schedExecuteCore t c = .ok s' ∧ s.RestApart l s' := by
  have hrecordt := h.toRest.recordOk hrecord List.mem_cons_self
  have hturn : ∃ s', schedExecuteCore t c = .ok s' ∧ t.Spared c s' := by
    rcases hrecordt with hidle | ⟨hbusy, o, ho⟩
    · exact schedExecuteCore_spares_idle hidle h.nullProcess
    · have hstatus := ne_nullProcessRun hbusy
      have hos : (s.coreControlArray c).currentProcess = some (.pcb o) := by
        rw [← h.cores c List.mem_cons_self, ho]
      obtain ⟨p, hp⟩ := Option.isSome_iff_exists.1 (h.current c List.mem_cons_self _ hos)
      by_cases hfini : p.status = prFini
      · refine schedExecuteCore_spares_finished ho hp hfini fun htime => hnot ?_
        exact h.expired_iff.1 ⟨o, ho, ⟨p, hp, hfini⟩, htime⟩
      · refine schedExecuteCore_spares_live h.steady.backEnd hstatus ho hp hfini h.nullProcess
          (fun x hx => (h.queued x hx).2) fun hover hqueued => ?_
        exact (hapart c o (h.sliceOver_iff.1 hover)).1 (h.queued _ hqueued).1
  obtain ⟨s', hturn, hspared⟩ := hturn
  exact ⟨s', hturn, h.spared hapart hturn (h.toRest.turn hrecord hturn) hspared⟩

omit hapart in
theorem Sched.RestApart.stops (hexpired : s.Expired c) :
    schedExecuteCore t c = .error .nullDeref := by
  have hrecordt := h.toRest.recordOk hrecord List.mem_cons_self
  refine (schedExecuteCore_nullDeref_iff h.steady.backEnd hrecordt).2
    ⟨h.expired_iff.2 hexpired, fun _ x hx => ?_⟩
  obtain ⟨iSched, -, -, hmem, -⟩ := schedGetNextProcess_next h.steady.backEnd
  exact (h.queued x (hmem x hx)).2

end

/-- When no process is in two places, a pass stops at a record that has expired or returns. -/
theorem schedExecute_of_apart (hback : BackEndOk s.currentPolicy s.schedulerQueueIObject)
    (hrecord : ∀ c, s.RecordOk c) (hlive : s.Live) (hapart : s.Apart) :
    (∃ c, s.Expired c) ∧ schedExecute s = .error .nullDeref ∨
      (∀ c, ¬ s.Expired c) ∧ ∃ s', schedExecute s = .ok s' := by
  have hstart : s.RestApart (List.finRange k) s := {
    Sched.Rest.start hback with
    nullProcess := hlive.nullProcess
    queued := fun x hx => ⟨hx, hlive.queued x hx⟩
    current := fun c _ => hlive.current c
    kept := fun _ _ _ _ _ => rfl }
  have hpass := Pass.foldlM_of_bad
    (fun c l t (h : s.RestApart (c :: l) t) (hbad : s.Expired c) => h.stops (hrecord c) hbad)
    (fun c l t h => h.turn hapart (hrecord c)) hstart
  unfold schedExecute
  simpa using hpass

/-- Whatever the policy, the number of cores and the ready queue, when every record is idle and
marked so or busy with a process: a pass reads a field of `NULL` if and only if the turn of a record
starts when it has expired and, under a policy with a time slice, the queue's answer is not
destroyed already. No turn makes a record expire, so a pass reads no field of `NULL` when no record
has expired at its start; and a pass over live processes that are in one place each returns if and
only if no record has. Reference: `sched_execute` (`src/scheduler.c:24`), `sched_dispatcher`
(`src/scheduler.c:42`), `__sched_update_running_pcb` (`src/scheduler.c:78`). -/
theorem schedExecute_nullReads (hback : BackEndOk s.currentPolicy s.schedulerQueueIObject)
    (hrecord : ∀ c, s.RecordOk c) :
    (schedExecute s = .error .nullDeref ↔
      ∃ c t, s.TurnStarts c t ∧ t.Expired c ∧ (RoundRobin s.currentPolicy → t.NextLive)) ∧
    ((∀ c, ¬ s.Expired c) → schedExecute s ≠ .error .nullDeref) ∧
    (s.Live → s.Apart →
      (schedExecute s = .error .nullDeref ↔ ∃ c, s.Expired c) ∧
      ((∃ s', schedExecute s = .ok s') ↔ ∀ c, ¬ s.Expired c)) := by
  have hiff := schedExecute_nullDeref_iff hback hrecord
  refine ⟨hiff, fun hnot hstop => ?_, fun hlive hapart => ?_⟩
  · obtain ⟨c, t, ht, hexpired, -⟩ := hiff.1 hstop
    obtain ⟨l, hrest⟩ := ht.rest hback hrecord
    exact hnot c (hrest.expired List.mem_cons_self hexpired)
  · rcases schedExecute_of_apart hback hrecord hlive hapart with ⟨hbad, hstop⟩ | ⟨hgood, s', hs'⟩
    · rw [hstop]
      refine ⟨⟨fun _ => hbad, fun _ => rfl⟩, ⟨?_, fun hgood => ?_⟩⟩
      · rintro ⟨s', ⟨⟩⟩
      · obtain ⟨c, hc⟩ := hbad
        exact absurd hc (hgood c)
    · rw [hs']
      refine ⟨⟨nofun, ?_⟩, ⟨fun _ => hgood, fun _ => ⟨s', rfl⟩⟩⟩
      rintro ⟨c, hc⟩
      exact absurd hc (hgood c)

/-- The process that the core runs has not finished, and the pass returns. -/
theorem schedExecute_nullReads_busy :
    ∃ s', schedExecute (oneCoreBusy (.pcb true)) = .ok s' := by
  have hfifo : ¬ RoundRobin schedFifo := by decide
  obtain ⟨-, -, hpass⟩ := schedExecute_nullReads (oneCoreBusy_backEndOk (.pcb true))
    (fun c => .inr ⟨rfl, false, rfl⟩)
  refine (hpass ⟨rfl, fun _ _ => rfl, fun _ _ _ => rfl⟩ fun c o ho => absurd ho.1 hfifo).2.2 ?_
  rintro c ⟨o, -, ⟨p, hp, hfini⟩, -⟩
  cases hp
  cases hfini

/-- A core is marked busy with a process that has finished. -/
def oneCoreFinished (policy : Int) : Sched Bool Unit 1 20 :=
  { oneCoreBusy (.pcb true) with
    currentPolicy := policy
    pcbs := fun _ => some ⟨0, 0, prFini, ⟨0, 0, 0⟩, ⟨0, 0, fun _ => 0, 0⟩⟩ }

/-- With a time slice that is over or without one, the pass reads the status of `NULL`. -/
theorem schedExecute_reads_null :
    (∀ policy ∈ [schedFifo, schedRr],
      BackEndOk (oneCoreFinished policy).currentPolicy
          (oneCoreFinished policy).schedulerQueueIObject ∧
        (∀ c, (oneCoreFinished policy).RecordOk c) ∧ (oneCoreFinished policy).Live) ∧
      schedExecute (oneCoreFinished schedFifo) = .error .nullDeref ∧
      schedExecute (oneCoreFinished schedRr) = .error .nullDeref := by
  refine ⟨fun policy hpolicy => ⟨?_, fun c => .inr ⟨rfl, false, rfl⟩, ?_⟩, rfl, rfl⟩
  · refine .simple ?_ rfl
    show ¬ PrioPolicy policy
    revert policy
    decide
  · exact ⟨rfl, fun _ _ => rfl, fun _ _ _ => rfl⟩

end SeKernel
