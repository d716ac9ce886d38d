import Mathlib.Tactic.Ring
import SeKernel.Lib.Machine
import SeKernel.Lib.Pass
import SeKernel.Scheduler.Dispatcher
import SeKernel.Scheduler.Frame

/-!
# Time slices

Under the policies with a time slice `sched_dispatcher` gives the process it installs a quantum of
10 ticks. `sched_execute` looks at the quantum before it takes a pass off it, so the pass that uses
the quantum up does not call the dispatcher, the one after it does: in every run and after every
installation the next call comes one pass late (`schedExecute_one_pass_late`). So the slices of a
run are kept only as long as none of them gets to its end (`schedExecute_onTime_iff`).
-/

namespace SeKernel

variable {ι τ : Type} {k n : Nat}

variable {c d : Fin k} {s s' t u : Sched ι τ k n}

/-! ## The timer's frequency -/

/-- The choice of the next process changes nothing but the queue. Reference:
`__sched_get_next_process_clean_queue` (`src/scheduler.c:89`). -/
theorem schedGetNextProcessCleanQueue_eq {next : Option (PcbPtr ι)}
    (h : schedGetNextProcessCleanQueue s c = .ok (next, t)) :
    ∃ iSched, t = { s with schedulerQueueIObject := iSched } := by
  unfold schedGetNextProcessCleanQueue at h
  split at h
  · cases h
    exact ⟨s.schedulerQueueIObject, rfl⟩
  · exact schedGetNextProcess_eq h

theorem schedUpdateRunningPcb_timerTickFreq (h : schedUpdateRunningPcb s c = .ok s') :
    s'.timerTickFreq = s.timerTickFreq := by
  rcases schedUpdateRunningPcb_cases h with ⟨-, rfl⟩ | ⟨-, rfl⟩ <;> rfl

variable [DecidableEq ι]

theorem schedAddToProcessQueue_timerTickFreq {p : PcbPtr ι}
    (h : schedAddToProcessQueue s p = .ok s') : s'.timerTickFreq = s.timerTickFreq := by
  obtain ⟨pcb, -, h⟩ := Outcome.bind_eq_ok.1 h
  obtain ⟨obj, -, h⟩ := Outcome.bind_eq_ok.1 h
  cases h
  rfl

theorem schedDispatcherChoose_timerTickFreq {old next next' : Option (PcbPtr ι)}
    (h : schedDispatcherChoose s c old next = .ok (next', s')) :
    s'.timerTickFreq = s.timerTickFreq := by
  rcases schedDispatcherChoose_cases h with ⟨x, -, -, rfl⟩ | ⟨-, -, rfl, -⟩ | ⟨-, -, rfl, -⟩ <;>
    rfl

theorem schedDispatcherPutAway_timerTickFreq {old : Option (PcbPtr ι)}
    (h : schedDispatcherPutAway s c old = .ok s') : s'.timerTickFreq = s.timerTickFreq := by
  rcases schedDispatcherPutAway_cases h with
    ⟨-, rfl⟩ | ⟨-, x, status, -, -, ⟨-, pcbs, -, rfl⟩ | ⟨-, hadd⟩⟩
  · rfl
  · rfl
  · exact schedAddToProcessQueue_timerTickFreq hadd

variable [DecidableEq τ]

theorem schedDispatcherLoad_timerTickFreq {old : Option (PcbPtr ι)} {next : PcbPtr ι}
    (h : schedDispatcherLoad s c old next = .ok s') : s'.timerTickFreq = s.timerTickFreq := by
  obtain ⟨⟨pcbs, thread⟩, -, h⟩ := Outcome.bind_eq_ok.1 h
  cases h
  rfl

theorem schedDispatcherSwitch_timerTickFreq {old : Option (PcbPtr ι)} {next : PcbPtr ι}
    (h : schedDispatcherSwitch s c old next = .ok s') : s'.timerTickFreq = s.timerTickFreq := by
  obtain ⟨t, hload, h⟩ := Outcome.bind_eq_ok.1 h
  obtain ⟨u, haway, h⟩ := Outcome.bind_eq_ok.1 h
  cases h
  exact (schedDispatcherPutAway_timerTickFreq haway).trans (schedDispatcherLoad_timerTickFreq hload)

theorem schedDispatcher_timerTickFreq (h : schedDispatcher s c = .ok s') :
    s'.timerTickFreq = s.timerTickFreq := by
  obtain ⟨⟨next, t⟩, hnext, h⟩ := Outcome.bind_eq_ok.1 h
  obtain ⟨⟨next', u⟩, hchoose, h⟩ := Outcome.bind_eq_ok.1 h
  obtain ⟨iSched, ht⟩ := schedGetNextProcessCleanQueue_eq hnext
  have hu : u.timerTickFreq = s.timerTickFreq :=
    (schedDispatcherChoose_timerTickFreq hchoose).trans (by rw [ht])
  cases next' with
  | none =>
    cases h
    exact hu
  | some x => exact (schedDispatcherSwitch_timerTickFreq h).trans hu

theorem schedExecuteUpdated_timerTickFreq (h : schedExecuteUpdated s c = .ok s') :
    s'.timerTickFreq = s.timerTickFreq := by
  rcases schedExecuteUpdated_cases h with ⟨hdispatch, -⟩ | ⟨-, -, rfl⟩ | ⟨-, -, -, rfl⟩
  · exact schedDispatcher_timerTickFreq hdispatch
  · rfl
  · rfl

/-- No turn changes the timer's frequency. Reference: `sched_execute` (`src/scheduler.c:26`). -/
theorem schedExecuteCore_timerTickFreq (h : schedExecuteCore s c = .ok s') :
    s'.timerTickFreq = s.timerTickFreq := by
  obtain ⟨t, hupdate, h⟩ := Outcome.bind_eq_ok.1 h
  exact (schedExecuteUpdated_timerTickFreq h).trans (schedUpdateRunningPcb_timerTickFreq hupdate)

/-! ## One turn -/

/-- The policy has a time slice and the record's is used up: `sched_execute` calls the dispatcher.
Reference: `sched_execute` (`src/scheduler.c:29`). -/
def Sched.UsedUp (s : Sched ι τ k n) (c : Fin k) : Prop :=
  RoundRobin s.currentPolicy ∧ (s.coreControlArray c).currentProcessQuantum ≤ 0

instance (s : Sched ι τ k n) (c : Fin k) : Decidable (s.UsedUp c) :=
  inferInstanceAs (Decidable (_ ∧ _))

theorem schedExecuteUpdated_of_usedUp (h : s.UsedUp c) :
    schedExecuteUpdated s c = schedDispatcher s c := by
  unfold schedExecuteUpdated
  rw [if_pos h.1, if_pos h.2]

theorem schedExecuteUpdated_of_not_usedUp (hpolicy : RoundRobin s.currentPolicy)
    (h : ¬ s.UsedUp c) : schedExecuteUpdated s c = .ok (s.modifyCore c fun r =>
      { r with currentProcessQuantum := r.currentProcessQuantum - s.timerTickFreq }) := by
  unfold schedExecuteUpdated
  rw [if_pos hpolicy, if_neg fun hquantum => h ⟨hpolicy, hquantum⟩]
  rfl

/-- What the time slice of a record depends on is the same. -/
structure Sched.SameSlice (c : Fin k) (s s' : Sched ι τ k n) : Prop where
  policy : s'.currentPolicy = s.currentPolicy
  freq : s'.timerTickFreq = s.timerTickFreq
  quantum : (s'.coreControlArray c).currentProcessQuantum =
    (s.coreControlArray c).currentProcessQuantum

omit [DecidableEq ι] [DecidableEq τ] in
theorem Sched.SameSlice.refl (c : Fin k) (s : Sched ι τ k n) : s.SameSlice c s := ⟨rfl, rfl, rfl⟩

omit [DecidableEq ι] [DecidableEq τ] in
theorem Sched.SameSlice.trans (h : s.SameSlice c t) (h' : t.SameSlice c s') : s.SameSlice c s' where
  policy := h'.policy.trans h.policy
  freq := h'.freq.trans h.freq
  quantum := h'.quantum.trans h.quantum

omit [DecidableEq ι] [DecidableEq τ] in
theorem Sched.SameSlice.usedUp_iff (h : s.SameSlice c t) (hpolicy : RoundRobin s.currentPolicy) :
    t.UsedUp c ↔ (s.coreControlArray c).currentProcessQuantum ≤ 0 := by
  unfold Sched.UsedUp
  rw [h.policy, h.quantum, and_iff_right hpolicy]

omit [DecidableEq ι] [DecidableEq τ] in
/-- A finished process leaves its record, and its slice stays. Reference:
`__sched_update_running_pcb` (`src/scheduler.c:78`). -/
theorem schedUpdateRunningPcb_sameSlice (h : schedUpdateRunningPcb s c = .ok s') :
    s.SameSlice c s' where
  policy := (schedUpdateRunningPcb_onlyCore h).policy
  freq := schedUpdateRunningPcb_timerTickFreq h
  quantum := by
    rcases schedUpdateRunningPcb_cases h with ⟨-, rfl⟩ | ⟨-, rfl⟩
    · rfl
    · simp

/-- The turns of the other records leave a slice alone. -/
theorem foldlM_schedExecuteCore_sameSlice {l : List (Fin k)} (hc : c ∉ l)
    (h : l.foldlM schedExecuteCore s = .ok s') : s.SameSlice c s' := by
  refine Pass.foldlM_keeps (I := fun u => s.SameSlice c u) ?_ (.refl c s) h
  intro u d hd u' hu hturn
  have hne : c ≠ d := fun hcd => hc (hcd ▸ hd)
  have honly := schedExecuteCore_onlyCore hturn
  exact hu.trans ⟨honly.policy, schedExecuteCore_timerTickFreq hturn, by rw [honly.cores c hne]⟩

/-! ## One pass -/

/-- The state in which a pass tests record `c`: the turns before it are over and the record is up to
date. Reference: `sched_execute` (`src/scheduler.c:26`). -/
def Sched.turn (s : Sched ι τ k n) (c : Fin k) : Outcome (Sched ι τ k n) := do
  let sched ← ((List.finRange k).take c).foldlM schedExecuteCore s
  schedUpdateRunningPcb sched c

/-- A pass from here calls the dispatcher for record `c`. -/
def Sched.passDispatches (s : Sched ι τ k n) (c : Fin k) : Bool :=
  match s.turn c with
  | .ok t => t.UsedUp c
  | .error _ => false

/-- A pass is the turns before that of a record, its turn, and the turns after it. -/
theorem finRange_eq_append (c : Fin k) :
    List.finRange k = (List.finRange k).take c ++ c :: (List.finRange k).drop (c + 1) := by
  have hlt : (c : Nat) < (List.finRange k).length := by simp
  have hdrop := List.drop_eq_getElem_cons hlt
  rw [List.getElem_finRange] at hdrop
  conv_lhs => rw [← List.take_append_drop c (List.finRange k), hdrop]
  simp

theorem Sched.turn_sameSlice (h : s.turn c = .ok t) : s.SameSlice c t := by
  obtain ⟨u, hbefore, hupdate⟩ := Outcome.bind_eq_ok.1 h
  have hnodup := List.nodup_finRange k
  rw [finRange_eq_append c, List.nodup_append] at hnodup
  have hc : c ∉ (List.finRange k).take c := fun hc => hnodup.2.2 c hc c List.mem_cons_self rfl
  exact (foldlM_schedExecuteCore_sameSlice hc hbefore).trans
    (schedUpdateRunningPcb_sameSlice hupdate)

/-- What a pass that returns does to a slice: its record is tested, has its turn, and the rest of
the pass leaves it alone. Reference: `sched_execute` (`src/scheduler.c:24`). -/
theorem schedExecute_turn (h : schedExecute s = .ok s') :
    ∃ t u, s.turn c = .ok t ∧ schedExecuteUpdated t c = .ok u ∧ u.SameSlice c s' := by
  unfold schedExecute at h
  have hnodup := List.nodup_finRange k
  rw [finRange_eq_append c, List.nodup_append, List.nodup_cons] at hnodup
  rw [finRange_eq_append c, List.foldlM_append] at h
  obtain ⟨v, hbefore, h⟩ := Outcome.bind_eq_ok.1 h
  rw [List.foldlM_cons] at h
  obtain ⟨u, hturn, hafter⟩ := Outcome.bind_eq_ok.1 h
  obtain ⟨t, hupdate, hexecute⟩ := Outcome.bind_eq_ok.1 hturn
  refine ⟨t, u, ?_, hexecute, foldlM_schedExecuteCore_sameSlice hnodup.2.1.1 hafter⟩
  unfold Sched.turn
  rw [hbefore]
  exact hupdate

/-- A pass calls the dispatcher only for a record whose quantum is down. -/
theorem Sched.quantum_of_passDispatches (hpolicy : RoundRobin s.currentPolicy)
    (h : s.passDispatches c = true) : (s.coreControlArray c).currentProcessQuantum ≤ 0 := by
  unfold Sched.passDispatches at h
  cases hturn : s.turn c with
  | error e =>
    rw [hturn] at h
    cases h
  | ok t =>
    rw [hturn] at h
    exact ((Sched.turn_sameSlice hturn).usedUp_iff hpolicy).1 (of_decide_eq_true h)

/-- A pass that returns calls the dispatcher for a record whose quantum is down. Reference:
`sched_execute` (`src/scheduler.c:29`). -/
theorem schedExecute_passDispatches_iff (hpolicy : RoundRobin s.currentPolicy)
    (h : schedExecute s = .ok s') :
    s.passDispatches c = true ↔ (s.coreControlArray c).currentProcessQuantum ≤ 0 := by
  obtain ⟨t, u, hturn, -, -⟩ := schedExecute_turn (c := c) h
  unfold Sched.passDispatches
  rw [hturn, ← (Sched.turn_sameSlice hturn).usedUp_iff hpolicy]
  exact decide_eq_true_iff

/-- A pass that does not call the dispatcher takes its ticks off the quantum. Reference:
`sched_execute` (`src/scheduler.c:33`). -/
theorem schedExecute_quantum (hpolicy : RoundRobin s.currentPolicy) (h : schedExecute s = .ok s')
    (hquantum : 0 < (s.coreControlArray c).currentProcessQuantum) :
    (s'.coreControlArray c).currentProcessQuantum =
      (s.coreControlArray c).currentProcessQuantum - s.timerTickFreq := by
  obtain ⟨t, u, hturn, hexecute, hafter⟩ := schedExecute_turn (c := c) h
  have hsame := Sched.turn_sameSlice hturn
  have hnot : ¬ t.UsedUp c := by
    rw [hsame.usedUp_iff hpolicy]
    omega
  rw [schedExecuteUpdated_of_not_usedUp (by rw [hsame.policy]; exact hpolicy) hnot] at hexecute
  cases hexecute
  rw [hafter.quantum, Sched.modifyCore_self, hsame.quantum, hsame.freq]

theorem schedExecute_sameTimer (h : schedExecute s = .ok s') :
    s'.currentPolicy = s.currentPolicy ∧ s'.timerTickFreq = s.timerTickFreq := by
  refine Pass.foldlM_keeps (I := fun u => u.currentPolicy = s.currentPolicy ∧
    u.timerTickFreq = s.timerTickFreq) ?_ ⟨rfl, rfl⟩ h
  intro u d _ u' hu hturn
  exact ⟨(schedExecuteCore_onlyCore hturn).policy.trans hu.1,
    (schedExecuteCore_timerTickFreq hturn).trans hu.2⟩

theorem schedDispatcherSwitch_quantum {old : Option (PcbPtr ι)} {next : PcbPtr ι}
    (h : schedDispatcherSwitch s c old next = .ok s') :
    (s'.coreControlArray c).currentProcessQuantum =
      (s.coreControlArray c).currentProcessQuantum := by
  rw [schedDispatcherSwitch_record h]

omit [DecidableEq τ] in
/-- Without a next process the quantum stays. Reference: `sched_dispatcher`
(`src/scheduler.c:46`). -/
theorem schedDispatcherChoose_quantum {old next : Option (PcbPtr ι)}
    (h : schedDispatcherChoose s c old none = .ok (next, s')) :
    (s'.coreControlArray c).currentProcessQuantum =
      (s.coreControlArray c).currentProcessQuantum := by
  rcases schedDispatcherChoose_cases h with ⟨x, hnext, -⟩ | ⟨-, -, rfl, -⟩ | ⟨-, -, rfl, -⟩
  · cases hnext
  · rfl
  · simp

/-- Where no time is left, the dispatcher leaves the quantum of 10 exactly if it has a next process
to install. Reference: `sched_dispatcher` (`src/scheduler.c:53`). -/
theorem schedDispatcher_installs_iff (h : schedDispatcher s c = .ok s')
    (hquantum : (s.coreControlArray c).currentProcessQuantum ≤ 0) :
    (s'.coreControlArray c).currentProcessQuantum = schedulerBaseProcessRrFreq ↔
      ∃ next t, schedGetNextProcessCleanQueue s c = .ok (some next, t) := by
  obtain ⟨⟨r, t⟩, hnext, h⟩ := Outcome.bind_eq_ok.1 h
  rw [hnext]
  cases r with
  | some next =>
    refine iff_of_true ?_ ⟨next, t, rfl⟩
    rw [schedDispatcherSwitch_quantum h]
    simp
  | none =>
    refine iff_of_false ?_ (by simp)
    obtain ⟨iSched, rfl⟩ := schedGetNextProcessCleanQueue_eq hnext
    obtain ⟨⟨next, u⟩, hchoose, h⟩ := Outcome.bind_eq_ok.1 h
    have hkept := schedDispatcherChoose_quantum hchoose
    have hs' : (s'.coreControlArray c).currentProcessQuantum =
        (u.coreControlArray c).currentProcessQuantum := by
      cases next with
      | none =>
        cases h
        rfl
      | some x => exact schedDispatcherSwitch_quantum h
    rw [hs', hkept, schedulerBaseProcessRrFreq]
    dsimp only
    omega

/-- A pass that calls the dispatcher for a record leaves it the quantum of 10 exactly if that call
has a process to install. Reference: `sched_execute` (`src/scheduler.c:31`). -/
theorem schedExecute_installs_iff (h : schedExecute s = .ok s')
    (hdispatches : s.passDispatches c = true) :
    ∃ t u, s.turn c = .ok t ∧ schedDispatcher t c = .ok u ∧
      ((s'.coreControlArray c).currentProcessQuantum = schedulerBaseProcessRrFreq ↔
        ∃ next v, schedGetNextProcessCleanQueue t c = .ok (some next, v)) := by
  obtain ⟨t, u, hturn, hexecute, hafter⟩ := schedExecute_turn (c := c) h
  have husedUp : t.UsedUp c := by
    unfold Sched.passDispatches at hdispatches
    rw [hturn] at hdispatches
    exact of_decide_eq_true hdispatches
  rw [schedExecuteUpdated_of_usedUp husedUp] at hexecute
  refine ⟨t, u, hturn, hexecute, ?_⟩
  rw [hafter.quantum]
  exact schedDispatcher_installs_iff hexecute husedUp.2

/-! ## Runs -/

/-- What happens to a running scheduler: a process is added, the processors and the loader work on
the PCBs and the threads, and the timer's action makes a pass. -/
inductive SchedEvent (ι τ : Type) (n : Nat)
  | add (newPcb : ι)
  | work (pcbs : PcbHeap (PcbPtr ι)) (threads : τ → Thread n)
  | pass

namespace SchedEvent

/-- Reference: `sched_add_to_process_queue`, `sched_execute` (`src/scheduler.c:17`,
`src/scheduler.c:24`). -/
def exec : SchedEvent ι τ n → Sched ι τ k n → Outcome (Sched ι τ k n)
  | .add newPcb, s => schedAddToProcessQueue s (.pcb newPcb)
  | .work pcbs threads, s => return { s with pcbs, threads }
  | .pass, s => schedExecute s

/-- The passes since the dispatcher last installed a process with the quantum of 10: a call leaves
that quantum only where it installs one (`StartsSlice`). -/
def age (c : Fin k) : SchedEvent ι τ n → Sched ι τ k n → Option Nat → Sched ι τ k n → Option Nat
  | .add _, _, passes, _ | .work _ _, _, passes, _ => passes
  | .pass, s, passes, s' =>
    if s.passDispatches c then
      if (s'.coreControlArray c).currentProcessQuantum = schedulerBaseProcessRrFreq then some 0
      else none
    else passes.map (· + 1)

/-- A run also counts the passes of a record's slice. -/
def step (c : Fin k) (event : SchedEvent ι τ n) (x : Sched ι τ k n × Option Nat) :
    Outcome (Unit × Sched ι τ k n × Option Nat) := do
  let s' ← event.exec x.1
  return ((), s', event.age c x.1 x.2 s')

/-- A pass calls the dispatcher for a record with a slice when its ticks since the installation come
to 10, this pass counted. -/
def OnTime (c : Fin k) (event : SchedEvent ι τ n) (x : Sched ι τ k n × Option Nat) : Prop :=
  ∀ passes, event = .pass → x.2 = some passes →
    (x.1.passDispatches c = true ↔
      schedulerBaseProcessRrFreq ≤ x.1.timerTickFreq * ((passes + 1 : Nat) : Int))

/-- No pass brings the ticks of a slice to 10. -/
def Unfinished (event : SchedEvent ι τ n) (x : Sched ι τ k n × Option Nat) : Prop :=
  ∀ passes, event = .pass → x.2 = some passes →
    x.1.timerTickFreq * ((passes + 1 : Nat) : Int) < schedulerBaseProcessRrFreq

/-- A pass that returns calls the dispatcher for a record with a slice when its ticks since the
installation came to 10 before it. -/
def OnePassLate (c : Fin k) (event : SchedEvent ι τ n) (x : Sched ι τ k n × Option Nat) : Prop :=
  ∀ passes s', event = .pass → x.2 = some passes → schedExecute x.1 = .ok s' →
    (x.1.passDispatches c = true ↔
      schedulerBaseProcessRrFreq ≤ x.1.timerTickFreq * (passes : Int))

/-- A pass that calls the dispatcher for a record starts a slice exactly if that call has a process
to install. -/
def StartsSlice (c : Fin k) (event : SchedEvent ι τ n) (x : Sched ι τ k n × Option Nat) : Prop :=
  ∀ s', event = .pass → schedExecute x.1 = .ok s' → x.1.passDispatches c = true →
    ∃ t u, x.1.turn c = .ok t ∧ schedDispatcher t c = .ok u ∧
      (event.age c x.1 x.2 s' = some 0 ↔
        ∃ next v, schedGetNextProcessCleanQueue t c = .ok (some next, v))

end SchedEvent

/-- The policy has time slices, and the quantum of the record is what its passes have left of 10. -/
structure Sched.Slices (c : Fin k) (s : Sched ι τ k n) (passes : Option Nat) : Prop where
  policy : RoundRobin s.currentPolicy
  quantum : ∀ m, passes = some m → (s.coreControlArray c).currentProcessQuantum =
    schedulerBaseProcessRrFreq - s.timerTickFreq * m

variable {passes : Option Nat} {event : SchedEvent ι τ n}

omit [DecidableEq ι] [DecidableEq τ] in
theorem Sched.Slices.of_eq (h : s.Slices c passes) (hpolicy : s'.currentPolicy = s.currentPolicy)
    (hfreq : s'.timerTickFreq = s.timerTickFreq)
    (hcores : s'.coreControlArray = s.coreControlArray) : s'.Slices c passes where
  policy := by rw [hpolicy]; exact h.policy
  quantum := by rw [hfreq, hcores]; exact h.quantum

theorem Sched.Slices.step (h : s.Slices c passes) (hstep : event.exec s = .ok s') :
    s'.Slices c (event.age c s passes s') := by
  cases event with
  | add newPcb =>
    obtain ⟨p, -, hstep⟩ := Outcome.bind_eq_ok.1 hstep
    obtain ⟨iSched, -, hstep⟩ := Outcome.bind_eq_ok.1 hstep
    cases hstep
    exact h.of_eq rfl rfl rfl
  | work pcbs threads =>
    cases hstep
    exact h.of_eq rfl rfl rfl
  | pass =>
    have htimer := schedExecute_sameTimer hstep
    refine ⟨by rw [htimer.1]; exact h.policy, ?_⟩
    intro m hm
    rw [SchedEvent.age] at hm
    split at hm
    · -- the dispatcher was called, and the record has a slice only if it installed a process
      split at hm
      · obtain rfl := Option.some.inj hm
        simpa using ‹_›
      · cases hm
    · -- one more pass of the slice has gone by
      rename_i hnot
      obtain ⟨m, rfl, rfl⟩ := Option.map_eq_some_iff.1 hm
      rw [schedExecute_passDispatches_iff h.policy hstep, Int.not_le] at hnot
      rw [schedExecute_quantum h.policy hstep hnot, h.quantum m rfl, htimer.2]
      push_cast
      ring

/-- In every run under a policy with time slices, whatever the record's slice, the dispatcher is
called one pass after the one that uses the slice up. Reference: `sched_execute`
(`src/scheduler.c:24`). -/
theorem schedExecute_one_pass_late (h : s.Slices c passes) (events : List (SchedEvent ι τ n)) :
    Machine.Meets (SchedEvent.step c) (SchedEvent.OnePassLate c) events (s, passes) := by
  have hkeep : ∀ (event : SchedEvent ι τ n) (x : Sched ι τ k n × Option Nat) (o : Unit)
      (x' : Sched ι τ k n × Option Nat), x.1.Slices c x.2 → True → event.step c x = .ok (o, x') →
      x'.1.Slices c x'.2 := by
    rintro event ⟨t, passes⟩ _ _ ht - hstep
    obtain ⟨t', hexec, hstep⟩ := Outcome.bind_eq_ok.1 hstep
    cases hstep
    exact ht.step hexec
  refine Machine.Meets.of_invariant ?_ hkeep h (Machine.Meets.of_forall (fun _ _ => trivial) _)
  rintro event ⟨t, passes⟩ ht - m t' rfl rfl hpass
  rw [schedExecute_passDispatches_iff ht.policy hpass, ht.quantum m rfl]
  omega

/-- The passes of a slice have not used up its 10 ticks. -/
def Sched.Unspent (s : Sched ι τ k n) (passes : Option Nat) : Prop :=
  ∀ m : Nat, passes = some m → s.timerTickFreq * m < schedulerBaseProcessRrFreq

/-- While no slice has come to its end, a pass is on time exactly when it ends none. -/
theorem Sched.Slices.onTime_iff (h : s.Slices c passes) (hunspent : s.Unspent passes) :
    SchedEvent.OnTime c event (s, passes) ↔ event.Unfinished (s, passes) := by
  refine forall_congr' fun m => forall_congr' fun _ => forall_congr' fun hm => ?_
  dsimp only at hm
  have hnot : s.passDispatches c ≠ true := by
    intro hdispatches
    have hquantum := Sched.quantum_of_passDispatches h.policy hdispatches
    rw [h.quantum m hm] at hquantum
    have := hunspent m hm
    omega
  rw [iff_false_left hnot, Int.not_le]

/-- A slice that no pass ends goes on. -/
theorem SchedEvent.Unfinished.unspent (h : event.Unfinished (s, passes))
    (hunspent : s.Unspent passes) (hstep : event.exec s = .ok s') :
    s'.Unspent (event.age c s passes s') := by
  intro m hm
  cases event with
  | add newPcb =>
    rw [schedAddToProcessQueue_timerTickFreq hstep]
    exact hunspent m hm
  | work pcbs threads =>
    cases hstep
    exact hunspent m hm
  | pass =>
    rw [(schedExecute_sameTimer hstep).2]
    rw [SchedEvent.age] at hm
    split at hm
    · split at hm
      · obtain rfl := Option.some.inj hm
        simp [schedulerBaseProcessRrFreq]
      · cases hm
    · obtain ⟨m', hm', rfl⟩ := Option.map_eq_some_iff.1 hm
      exact h m' rfl hm'

/-- In every run a slice starts exactly where the dispatcher installs a process. Reference:
`sched_dispatcher` (`src/scheduler.c:53`). -/
theorem schedExecute_startsSlice (events : List (SchedEvent ι τ n)) :
    Machine.Meets (SchedEvent.step c) (SchedEvent.StartsSlice c) events (s, passes) := by
  refine Machine.Meets.of_always ?_ events _
  rintro event ⟨t, passes⟩ t' rfl hpass hdispatches
  obtain ⟨u, v, hturn, hdispatcher, hinstalls⟩ := schedExecute_installs_iff hpass hdispatches
  refine ⟨u, v, hturn, hdispatcher, Iff.trans ?_ hinstalls⟩
  rw [SchedEvent.age, if_pos hdispatches]
  by_cases hquantum : (t'.coreControlArray c).currentProcessQuantum = schedulerBaseProcessRrFreq
  · exact iff_of_true (if_pos hquantum) hquantum
  · rw [if_neg hquantum]
    exact iff_of_false (fun h => by cases h) hquantum

/-- In every run under a policy with time slices, for every frequency of the timer, the dispatcher
is called on time exactly while no slice comes to its end: every slice that does ends one pass late.
A slice starts exactly where the dispatcher installs a process. Reference: `sched_execute`
(`src/scheduler.c:24`), `sched_dispatcher` (`src/scheduler.c:53`). -/
theorem schedExecute_onTime_iff (hpolicy : RoundRobin s.currentPolicy) (c : Fin k)
    (events : List (SchedEvent ι τ n)) :
    (Machine.Meets (SchedEvent.step c) (SchedEvent.OnTime c) events (s, none) ↔
      Machine.Meets (SchedEvent.step c) SchedEvent.Unfinished events (s, none)) ∧
    Machine.Meets (SchedEvent.step c) (SchedEvent.OnePassLate c) events (s, none) ∧
    Machine.Meets (SchedEvent.step c) (SchedEvent.StartsSlice c) events (s, none) := by
  have hstart : s.Slices c none := ⟨hpolicy, by simp⟩
  refine ⟨?_, schedExecute_one_pass_late hstart events, schedExecute_startsSlice events⟩
  have hkeep : ∀ (event : SchedEvent ι τ n) (x : Sched ι τ k n × Option Nat) (o : Unit)
      (x' : Sched ι τ k n × Option Nat), (x.1.Slices c x.2 ∧ x.1.Unspent x.2) → True →
      event.OnTime c x → event.step c x = .ok (o, x') →
      x'.1.Slices c x'.2 ∧ x'.1.Unspent x'.2 := by
    rintro event ⟨t, passes⟩ _ _ ⟨hslices, hunspent⟩ - honTime hstep
    obtain ⟨t', hexec, hstep⟩ := Outcome.bind_eq_ok.1 hstep
    cases hstep
    exact ⟨hslices.step hexec, ((hslices.onTime_iff hunspent).1 honTime).unspent hunspent hexec⟩
  refine Machine.meets_congr_of_invariant ?_ hkeep ⟨hstart, fun m hm => by cases hm⟩
    (Machine.Meets.of_forall (fun _ _ => trivial) _)
  rintro event ⟨t, passes⟩ ⟨hslices, hunspent⟩ -
  exact hslices.onTime_iff hunspent

/-- One core under `SCHED_RR` after `sched_init`, with a timer of 5 ticks and nothing queued. -/
def oneCoreRr : Sched Unit Unit 1 20 where
  currentPolicy := schedRr
  schedulerQueueIObject := rqSimpleFifoISchedImplement ⟨0, []⟩
  timerTickFreq := 5
  coreControlArray _ := ⟨(), none, 0, nullProcessRun⟩
  pcbs _ := some ⟨0, 0, prUndefined, ⟨0, 0, 0⟩, ⟨0, 0, fun _ => 0, 0⟩⟩
  threads _ := ⟨0, 0, 0, fun _ => 0, 0, tlbFlush 20⟩

/-- The first pass installs `null_process`, and the second leaves it half of its slice. -/
theorem schedExecute_onTime_iff_one :
    Machine.Meets (SchedEvent.step 0) (SchedEvent.OnTime 0) [.pass, .pass] (oneCoreRr, none) := by
  refine ((schedExecute_onTime_iff (.inr rfl) 0 _).1).2 ?_
  refine .cons ?_ rfl (.cons ?_ rfl trivial)
  · rintro _ - ⟨⟩
  · rintro _ - ⟨⟩
    decide

/-- Two passes of 5 ticks after the installation 10 ticks have passed, and the dispatcher is not
called. -/
theorem schedExecute_not_onTime :
    1 ≤ oneCoreRr.timerTickFreq ∧ RoundRobin oneCoreRr.currentPolicy ∧
    ¬ Machine.Meets (SchedEvent.step 0) (SchedEvent.OnTime 0) [.pass, .pass, .pass]
      (oneCoreRr, none) := by
  refine ⟨by decide, .inr rfl, fun h => ?_⟩
  have hthird := ((h.2 _ _ rfl).2 _ _ rfl).1 1 rfl rfl
  exact absurd (hthird.2 (by decide)) (by decide)

end SeKernel
