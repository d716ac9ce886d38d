import SeKernel.Process.Transparency
import SeKernel.Scheduler.WellFormed

/-!
# Preemption

`sched_dispatcher` saves the old process before it asks whether that process has finished, and
saving sets its status to `PR_FINI`. So a process is destroyed when another one takes its place,
whatever its status was. It survives, and is queued again, only when the queue hands out the very
process that is running: then loading it sets the status to `PR_EXEC` in between
(`schedDispatcher_preempts_iff`).
-/

namespace SeKernel

variable {ι τ : Type} {k n : Nat}

/-- The process `o` was taken off the core unharmed: it is queued with status `PR_READY` and the
registers that the core had, and a process of the queue is loaded. -/
structure Sched.Preempted (c : Fin k) (o : ι) (s s' : Sched ι τ k n) : Prop where
  saved : ∃ p, s'.pcbs (.pcb o) = some p ∧ p.status = prReady ∧
    p.cpuSnapshot = (s.thread c).context
  queued : .pcb o ∈ s'.queued
  loaded : ∃ x ∈ s.queued, ∃ q, (s'.coreControlArray c).currentProcess = some x ∧
    s'.pcbs x = some q ∧ (s'.thread c).context = q.cpuSnapshot

variable [DecidableEq ι] [DecidableEq τ]

/-- The dispatcher terminates the process `o`: it returns and the process is destroyed. -/
def Sched.Terminates (s : Sched ι τ k n) (c : Fin k) (o : ι) : Prop :=
  ∃ s', schedDispatcher s c = .ok s' ∧ s'.pcbs (.pcb o) = none

variable {c : Fin k} {s s' : Sched ι τ k n} {o : ι} {p : Pcb}

/-! ## Preemption -/

section

variable (hback : BackEndOk s.currentPolicy s.schedulerQueueIObject)
  (hlive : ∀ x ∈ s.queued, (s.pcbs x).isSome) (hnull : (s.pcbs .nullProcess).isSome)
  (hstatus : (s.coreControlArray c).currrentCpuSchedStatus = processRun)
  (hcurrent : (s.coreControlArray c).currentProcess = some (.pcb o))
  (hp : s.pcbs (.pcb o) = some p)

include hback hlive hstatus hcurrent hp

/-- A process that the queue hands out next replaces the old one, which is destroyed. -/
theorem schedDispatcher_destroys {x : PcbPtr ι} (hnext : s.next? = some x) (hx : x ≠ .pcb o) :
    ∃ s', schedDispatcher s c = .ok s' ∧ s'.pcbs (.pcb o) = none := by
  obtain ⟨iSched, hget, -, hmem, -⟩ := schedGetNextProcess_next hback
  have ho : (s.pcbs (.pcb o)).isSome := by rw [hp]; rfl
  obtain ⟨s', hdispatch, hs'⟩ := schedDispatcher_answered (ne_nullProcessRun hstatus) hcurrent hget
    hnext ho (hlive x (hmem x hnext)) hx
  exact ⟨s', hdispatch, hs'.gone o rfl⟩

omit hlive in
include hnull in
/-- With nothing to hand out, the old process is destroyed if and only if it has finished. -/
theorem schedDispatcher_alone (hnext : s.next? = none) :
    ∃ s', schedDispatcher s c = .ok s' ∧ (s'.pcbs (.pcb o) = none ↔ p.status = prFini) ∧
      (p.status ≠ prFini → s'.pcbs (.pcb o) = some p) := by
  obtain ⟨iSched, hget, -⟩ := schedGetNextProcess_next hback
  obtain ⟨s', hdispatch, ⟨hfini, rfl⟩ | ⟨hfini, hs'⟩⟩ :=
    schedDispatcher_unanswered (ne_nullProcessRun hstatus) hcurrent hget hnext hp hnull
  · exact ⟨_, hdispatch, by simp [hp, hfini], fun _ => hp⟩
  · exact ⟨s', hdispatch, by simp [hs'.gone o rfl, hfini], fun h => absurd hfini h⟩

omit hlive in
/-- A process that the queue hands out while it runs is queued again, unless its priority is
negative and the queue is a priority queue. -/
theorem schedDispatcher_requeues (hnext : s.next? = some (.pcb o)) :
    ((PrioPolicy s.currentPolicy → 0 ≤ p.currentPriority) →
      ∃ s', schedDispatcher s c = .ok s' ∧ s.Preempted c o s') ∧
    (PrioPolicy s.currentPolicy → p.currentPriority < 0 →
      schedDispatcher s c = .error .outOfBounds) := by
  obtain ⟨iSched, hget, hback', hmem, -⟩ := schedGetNextProcess_next hback
  rw [hnext] at hget
  obtain ⟨f, hdispatch, hf⟩ :=
    schedDispatcher_self (ne_nullProcessRun hstatus) hcurrent hp hget
  constructor
  · intro hprio
    obtain ⟨q, hin, -, hqueued⟩ := iSchedInsert_spec hback' (.pcb o) hprio
    have hs' := hf q
    rw [hin, Outcome.ok_bind] at hdispatch
    refine ⟨f q, hdispatch, ⟨_, hs'.pcb, rfl, rfl⟩, ?_, ?_⟩
    · unfold Sched.queued
      rw [hs'.queue, hqueued]
      simp
    · exact ⟨.pcb o, hmem _ hnext, _, hs'.current, hs'.pcb, hs'.context⟩
  · intro hpolicy hneg
    rw [hdispatch, iSchedInsert_negative hback' (.pcb o) hpolicy hneg]
    rfl

include hnull

/-- The old process is terminated when the queue hands out another one, or when the queue hands out
nothing and the process has finished. Reference: `disp_terminate` (`src/scheduler.c:136`). -/
theorem terminates_iff :
    s.Terminates c o ↔
      (∃ x, s.next? = some x ∧ x ≠ .pcb o) ∨ (s.next? = none ∧ p.status = prFini) := by
  cases hnext : s.next? with
  | none =>
    obtain ⟨s', hdispatch, hfini, -⟩ :=
      schedDispatcher_alone hback hnull hstatus hcurrent hp hnext
    simp only [reduceCtorEq, false_and, exists_false, true_and, false_or]
    constructor
    · rintro ⟨t, ht, hgone⟩
      rw [hdispatch] at ht
      cases ht
      exact hfini.1 hgone
    · exact fun h => ⟨s', hdispatch, hfini.2 h⟩
  | some x =>
    simp only [Option.some.injEq, exists_eq_left', reduceCtorEq, false_and, or_false]
    constructor
    · rintro ⟨t, ht, hgone⟩ rfl
      obtain ⟨hkept, hfails⟩ := schedDispatcher_requeues hback hstatus hcurrent hp hnext
      by_cases hprio : PrioPolicy s.currentPolicy → 0 ≤ p.currentPriority
      · obtain ⟨s', hdispatch, hpreempted⟩ := hkept hprio
        obtain ⟨p', hp', -⟩ := hpreempted.saved
        rw [hdispatch] at ht
        cases ht
        rw [hgone] at hp'
        cases hp'
      · obtain ⟨hpolicy, hneg⟩ := Classical.not_imp.1 hprio
        rw [hfails hpolicy (not_le.1 hneg)] at ht
        cases ht
    · exact fun hx => schedDispatcher_destroys hback hlive hstatus hcurrent hp hnext hx

/-- An executing process is preempted unharmed when the queue hands out that very process, with a
priority that the queue accepts. -/
theorem preempted_iff (hexec : p.status = prExec) :
    (∃ s', schedDispatcher s c = .ok s' ∧ s.Preempted c o s') ↔
      s.next? = some (.pcb o) ∧ (PrioPolicy s.currentPolicy → 0 ≤ p.currentPriority) := by
  constructor
  · rintro ⟨t, ht, hpreempted⟩
    obtain ⟨p', hp', hready, -⟩ := hpreempted.saved
    cases hnext : s.next? with
    | none =>
      obtain ⟨s', hdispatch, -, hkept⟩ :=
        schedDispatcher_alone hback hnull hstatus hcurrent hp hnext
      rw [hdispatch] at ht
      cases ht
      rw [hkept (by rw [hexec]; decide)] at hp'
      cases hp'
      rw [hexec] at hready
      exact absurd hready (by decide)
    | some x =>
      by_cases hx : x = .pcb o
      · subst hx
        refine ⟨rfl, fun hpolicy => not_lt.1 fun hneg => ?_⟩
        have hfails := (schedDispatcher_requeues hback hstatus hcurrent hp hnext).2 hpolicy hneg
        rw [hfails] at ht
        cases ht
      · obtain ⟨s', hdispatch, hgone⟩ :=
          schedDispatcher_destroys hback hlive hstatus hcurrent hp hnext hx
        rw [hdispatch] at ht
        cases ht
        rw [hgone] at hp'
        cases hp'
  · rintro ⟨hnext, hprio⟩
    exact (schedDispatcher_requeues hback hstatus hcurrent hp hnext).1 hprio

/-- A core that runs a live process, whatever is queued: an executing process is preempted unharmed
if and only if the queue hands out that process itself, with a priority the queue accepts; and the
old process is terminated exactly if it has finished if and only if the queue hands out nothing, or
another process exactly if the old one has finished. Reference: `sched_dispatcher`
(`src/scheduler.c:42`), `__disp_unload` (`src/scheduler.c:163`). -/
theorem schedDispatcher_preempts_iff :
    (p.status = prExec →
      ((∃ s', schedDispatcher s c = .ok s' ∧ s.Preempted c o s') ↔
        s.next? = some (.pcb o) ∧ (PrioPolicy s.currentPolicy → 0 ≤ p.currentPriority))) ∧
    ((s.Terminates c o ↔ p.status = prFini) ↔
      ∀ x, s.next? = some x → (x ≠ .pcb o ↔ p.status = prFini)) := by
  refine ⟨preempted_iff hback hlive hnull hstatus hcurrent hp, ?_⟩
  rw [terminates_iff hback hlive hnull hstatus hcurrent hp]
  cases s.next? with
  | none => simp
  | some x => simp

end

/-- A core executes the process `false`, and one process is queued. -/
def oneCoreBusy (queued : PcbPtr Bool) : Sched Bool Unit 1 20 where
  currentPolicy := schedFifo
  schedulerQueueIObject := rqSimpleFifoISchedImplement ⟨1, [queued]⟩
  timerTickFreq := 5
  coreControlArray _ := ⟨(), some (.pcb false), 0, processRun⟩
  pcbs _ := some ⟨0, 0, prExec, ⟨0, 0, 0⟩, ⟨0, 0, fun _ => 0, 0⟩⟩
  threads _ := ⟨0, 0, 0, fun _ => 7, 0, tlbFlush 20⟩

theorem oneCoreBusy_backEndOk (queued : PcbPtr Bool) :
    BackEndOk (oneCoreBusy queued).currentPolicy (oneCoreBusy queued).schedulerQueueIObject :=
  .simple (show ¬ PrioPolicy schedFifo by decide) rfl

/-- The process is queued itself while it runs. -/
theorem schedDispatcher_preempts_iff_self :
    ∃ s', schedDispatcher (oneCoreBusy (.pcb false)) 0 = .ok s' ∧
      (oneCoreBusy (.pcb false)).Preempted 0 false s' :=
  ((schedDispatcher_preempts_iff (oneCoreBusy_backEndOk (.pcb false)) (fun _ _ => rfl) rfl rfl rfl
    rfl).1 rfl).2 ⟨rfl, fun h => absurd h (show ¬ PrioPolicy schedFifo by decide)⟩

/-- A process that executes is destroyed when another one is queued. -/
theorem preemption_kills :
    .pcb true ∈ (oneCoreBusy (.pcb true)).queued ∧
      (∃ p, (oneCoreBusy (.pcb true)).pcbs (.pcb false) = some p ∧ p.status = prExec) ∧
      ∃ s', schedDispatcher (oneCoreBusy (.pcb true)) 0 = .ok s' ∧ s'.pcbs (.pcb false) = none ∧
        .pcb false ∉ s'.queued := by
  refine ⟨List.mem_singleton_self _, ⟨_, rfl, rfl⟩, _, rfl, rfl, ?_⟩
  exact fun h => nomatch List.mem_singleton.1 h

end SeKernel
