import SeKernel.Lib.Counting
import SeKernel.Scheduler.Dispatcher
import SeKernel.Scheduler.Frame

/-!
# Well-formed scheduler states

Every process that the scheduler knows and has not destroyed is in exactly one place, the ready
queue or a control record (`Sched.WellFormed`). The dispatcher keeps this (`schedDispatcher_keeps`)
unless a simple queue answers it: `i_sched_peek` then leaves the process that is going to run in the
queue (`schedDispatcher_doubles`). Only a record with status `NULL_PROCESS_RUN` counts as idle for
it: on another record without a process it returns when `null_process` is there and can stay, and
else ends in undefined behaviour (`schedDispatcher_nullStays`).
-/

namespace SeKernel

variable {ι τ : Type} [DecidableEq ι] {k n : Nat}

/-- The processes in the ready queue. -/
def Sched.queued (s : Sched ι τ k n) : Multiset (PcbPtr ι) :=
  s.schedulerQueueIObject.schedData.queued

/-- The process is the current one of the record. -/
def CoreControl.runs (r : CoreControl ι τ) (i : ι) : Bool := r.currentProcess = some (.pcb i)

/-- The number of records that run a process. -/
def Sched.running (s : Sched ι τ k n) (i : ι) : Int := Counting.count (·.runs i) s.coreControlArray

/-- The number of places of a process: in the ready queue and as a current process. -/
def Sched.places (s : Sched ι τ k n) (i : ι) : Int := s.queued.count (.pcb i) + s.running i

/-- Every process in `known` that is not destroyed has exactly one place, every other process none,
and a record's status is `PROCESS_RUN` when it runs one of them and only then. -/
structure Sched.WellFormed (known : Set ι) (s : Sched ι τ k n) : Prop where
  backEnd : BackEndOk s.currentPolicy s.schedulerQueueIObject
  nullProcess : (s.pcbs .nullProcess).isSome
  once : ∀ i, i ∈ known → (s.pcbs (.pcb i)).isSome → s.places i = 1
  nowhere : ∀ i, i ∉ known ∨ s.pcbs (.pcb i) = none → s.places i = 0
  busy : ∀ c i, (s.coreControlArray c).currentProcess = some (.pcb i) →
    (s.coreControlArray c).currrentCpuSchedStatus = processRun
  idle : ∀ c, (∀ i, (s.coreControlArray c).currentProcess ≠ some (.pcb i)) →
    (s.coreControlArray c).currrentCpuSchedStatus ≠ processRun

/-- The record is idle, and its status does not say so. -/
def CoreControl.Unmarked (r : CoreControl ι τ) : Prop :=
  r.currrentCpuSchedStatus ≠ processRun ∧ r.currrentCpuSchedStatus ≠ nullProcessRun

/-- The policies under which a process that the queue answers stays in it. -/
def KeepsFront (policy : Int) : Prop := policy = schedFifo ∨ policy = schedRr

instance (policy : Int) : Decidable (KeepsFront policy) := inferInstanceAs (Decidable (_ ∨ _))

/-- The process that the ready queue is going to answer. Reference: `__sched_get_next_process`
(`src/scheduler.c:108`). -/
def Sched.next? (s : Sched ι τ k n) : Option (PcbPtr ι) :=
  if KeepsFront s.currentPolicy ∨ PrioPolicy s.currentPolicy then
    s.schedulerQueueIObject.schedData.next?
  else none

/-- The dispatcher is going to take `q` for a record that runs a process, and leave `q` in the
queue. -/
def Sched.Peeks (s : Sched ι τ k n) (c : Fin k) (q : ι) : Prop :=
  (s.coreControlArray c).currrentCpuSchedStatus = processRun ∧ KeepsFront s.currentPolicy ∧
    s.schedulerQueueIObject.schedData.front? = some (.pcb q)

/-- The record is on `null_process`, and the dispatcher is going to leave it there: the queue has
nothing for it, or `null_process` once more with a priority that can be indexed. -/
def Sched.NullStays (s : Sched ι τ k n) (c : Fin k) : Prop :=
  (s.coreControlArray c).currentProcess = some .nullProcess ∧
    (s.next? = none ∨ (s.next? = some .nullProcess ∧ (PrioPolicy s.currentPolicy →
      ∀ p, s.pcbs .nullProcess = some p → 0 ≤ p.currentPriority)))

/-- The dispatcher takes no process that stays in the queue, and has no use for another process than
`null_process` on an idle record that is not marked so. -/
structure Sched.DispatchSafe (s : Sched ι τ k n) (c : Fin k) : Prop where
  peeks : ∀ q, ¬ s.Peeks c q
  unmarked : (s.coreControlArray c).Unmarked → s.NullStays c

/-- The process `q` runs, and it stands in a simple queue. -/
def Sched.Doubled (s : Sched ι τ k n) (c : Fin k) (q : ι) : Prop :=
  (s.coreControlArray c).currentProcess = some (.pcb q) ∧
    ∃ rq, s.schedulerQueueIObject = rqSimpleFifoISchedImplement rq ∧ .pcb q ∈ rq.active

/-- A turn of `c` left the other records, the processes they run and the front of a simple queue as
they were. -/
structure Sched.Undisturbed (c : Fin k) (s s' : Sched ι τ k n) : Prop where
  policy : s'.currentPolicy = s.currentPolicy
  cores : ∀ d, d ≠ c → s'.coreControlArray d = s.coreControlArray d
  pcbs : ∀ d, d ≠ c → ∀ i, (s.coreControlArray d).currentProcess = some (.pcb i) →
    s'.pcbs (.pcb i) = s.pcbs (.pcb i)
  front : KeepsFront s.currentPolicy →
    s'.schedulerQueueIObject.schedData.front? = s.schedulerQueueIObject.schedData.front?

/-- The record `c` is on `null_process` now, and nothing else has changed but `null_process`. -/
structure Sched.OnlyNull (c : Fin k) (s s' : Sched ι τ k n) : Prop where
  policy : s'.currentPolicy = s.currentPolicy
  backEnd : BackEndOk s.currentPolicy s'.schedulerQueueIObject
  queued : ∀ i, s'.queued.count (.pcb i) = s.queued.count (.pcb i)
  front : KeepsFront s.currentPolicy →
    s'.schedulerQueueIObject.schedData.front? = s.schedulerQueueIObject.schedData.front?
  cores : ∀ d, d ≠ c → s'.coreControlArray d = s.coreControlArray d
  current : (s'.coreControlArray c).currentProcess = some .nullProcess
  status : (s'.coreControlArray c).currrentCpuSchedStatus ≠ processRun
  pcbs : ∀ i, s'.pcbs (.pcb i) = s.pcbs (.pcb i)
  live : (s'.pcbs .nullProcess).isSome

variable {c : Fin k} {s s' t : Sched ι τ k n} {known : Set ι} {i q : ι} {next : PcbPtr ι}
variable {policy : Int} {iSched : SISched (PcbPtr ι)}

/-! ## Counting places -/

theorem CoreControl.runs_iff {r : CoreControl ι τ} :
    r.runs i ↔ r.currentProcess = some (.pcb i) := by
  simp [CoreControl.runs]

/-- A change of one record changes the number of records that run a process by that record. -/
theorem Sched.running_of_cores (i : ι)
    (hcores : ∀ d, d ≠ c → s'.coreControlArray d = s.coreControlArray d) :
    s'.running i = s.running i + (if (s'.coreControlArray c).runs i then 1 else 0) -
      (if (s.coreControlArray c).runs i then 1 else 0) := by
  have hupdate : s'.coreControlArray = Function.update s.coreControlArray c
      (s'.coreControlArray c) := by
    funext d
    by_cases hd : d = c
    · subst hd
      simp
    · rw [Function.update_of_ne hd, hcores d hd]
  unfold Sched.running
  rw [hupdate, Counting.count_update]
  simp

theorem Sched.running_pos (h : (s.coreControlArray c).currentProcess = some (.pcb i)) :
    1 ≤ s.running i := Counting.count_pos (CoreControl.runs_iff.2 h)

theorem Sched.running_nonneg (s : Sched ι τ k n) (i : ι) : 0 ≤ s.running i := by
  unfold Sched.running
  rw [Counting.count_eq_card]
  exact Int.natCast_nonneg _

/-- A process that has a place is a known one, is not destroyed and has no other place. -/
theorem Sched.WellFormed.placed (h : s.WellFormed known) (hpos : 1 ≤ s.places i) :
    i ∈ known ∧ (s.pcbs (.pcb i)).isSome ∧ s.places i = 1 := by
  by_cases hi : i ∈ known ∧ (s.pcbs (.pcb i)).isSome
  · exact ⟨hi.1, hi.2, h.once i hi.1 hi.2⟩
  · have hnone : i ∉ known ∨ s.pcbs (.pcb i) = none := by
      rw [not_and_or] at hi
      simpa using hi
    have hzero := h.nowhere i hnone
    omega

theorem Sched.WellFormed.queued_placed (h : s.WellFormed known) (hq : .pcb i ∈ s.queued) :
    i ∈ known ∧ (s.pcbs (.pcb i)).isSome ∧ s.running i = 0 := by
  have hcount := Multiset.one_le_count_iff_mem.2 hq
  have hrunning := s.running_nonneg i
  have hpos : 1 ≤ s.places i := by
    unfold Sched.places
    omega
  obtain ⟨hi, hlive, hone⟩ := h.placed hpos
  unfold Sched.places at hone
  exact ⟨hi, hlive, by omega⟩

theorem Sched.WellFormed.running_placed (h : s.WellFormed known)
    (hi : (s.coreControlArray c).currentProcess = some (.pcb i)) :
    i ∈ known ∧ (s.pcbs (.pcb i)).isSome ∧ .pcb i ∉ s.queued := by
  have hrunning := Sched.running_pos hi
  have hpos : 1 ≤ s.places i := by
    unfold Sched.places
    omega
  obtain ⟨hi, hlive, hone⟩ := h.placed hpos
  unfold Sched.places at hone
  refine ⟨hi, hlive, fun hq => ?_⟩
  have hcount := Multiset.one_le_count_iff_mem.2 hq
  omega

/-- No process runs on two cores. -/
theorem Sched.WellFormed.current_ne (h : s.WellFormed known) {d : Fin k} (hcd : d ≠ c)
    (hi : (s.coreControlArray c).currentProcess = some (.pcb i)) :
    (s.coreControlArray d).currentProcess ≠ some (.pcb i) := by
  intro hd
  have htwo : 2 ≤ s.running i :=
    Counting.two_le_count hcd (CoreControl.runs_iff.2 hd) (CoreControl.runs_iff.2 hi)
  have hpos : 1 ≤ s.places i := by
    unfold Sched.places
    omega
  have hone := (h.placed hpos).2.2
  unfold Sched.places at hone
  omega

/-- A record that does not run a process is on `null_process`, if it is on any. -/
theorem Sched.WellFormed.current_of_ne (h : s.WellFormed known)
    (hstatus : (s.coreControlArray c).currrentCpuSchedStatus ≠ processRun) {x : PcbPtr ι}
    (hx : (s.coreControlArray c).currentProcess = some x) : x = .nullProcess := by
  cases x with
  | nullProcess => rfl
  | pcb i => exact absurd (h.busy c i hx) hstatus

theorem Sched.WellFormed.current_of_eq (h : s.WellFormed known)
    (hstatus : (s.coreControlArray c).currrentCpuSchedStatus = processRun) :
    ∃ o, (s.coreControlArray c).currentProcess = some (.pcb o) := by
  by_contra hnot
  exact h.idle c (not_exists.1 hnot) hstatus

theorem Sched.Doubled.not_wellFormed (h : s.Doubled c q) : ¬ s.WellFormed known := by
  intro hwf
  obtain ⟨hcurrent, rq, hrq, hmem⟩ := h
  refine (hwf.running_placed hcurrent).2.2 ?_
  unfold Sched.queued
  rw [hrq]
  exact hmem

/-! ## The queue's answer -/

/-- The next process is answered. Under some policies it stays in the queue, under the others it is
taken out. Reference: `__sched_get_next_process` (`src/scheduler.c:108`). -/
theorem schedGetNextProcess_spec (h : BackEndOk s.currentPolicy s.schedulerQueueIObject) :
    ∃ iSched, schedGetNextProcess s = .ok (s.next?, { s with schedulerQueueIObject := iSched }) ∧
      BackEndOk s.currentPolicy iSched ∧
      ((KeepsFront s.currentPolicy ∧ iSched = s.schedulerQueueIObject ∧
          s.next? = s.schedulerQueueIObject.schedData.front?) ∨
        (¬ KeepsFront s.currentPolicy ∧
          ∀ x, s.queued.count x =
            iSched.schedData.queued.count x + if s.next? = some x then 1 else 0)) := by
  have hpolicies : (s.currentPolicy = schedFifo ∨ s.currentPolicy = schedPrioFifo ∨
      s.currentPolicy = schedRr ∨ s.currentPolicy = schedPrioRr) ↔
      KeepsFront s.currentPolicy ∨ PrioPolicy s.currentPolicy := by
    unfold KeepsFront PrioPolicy
    tauto
  have hapart : PrioPolicy s.currentPolicy → ¬ KeepsFront s.currentPolicy := by
    unfold KeepsFront PrioPolicy
    simp only [schedFifo, schedRr, schedPrioRr, schedPrioFifo]
    omega
  unfold schedGetNextProcess Sched.next?
  simp only [hpolicies]
  split
  next hpolicy =>
    obtain ⟨r, iSched, hpeek, hback, hnext, -, hcases⟩ := iSchedPeek_spec h
    rw [← hnext]
    refine ⟨iSched, by rw [hpeek]; rfl, hback, ?_⟩
    rcases hcases with ⟨hprio, hqueued⟩ | ⟨hprio, hkept, hr⟩
    · refine .inr ⟨hapart hprio, fun x => ?_⟩
      unfold Sched.queued
      rw [hqueued, Multiset.count_add]
      cases r with
      | none => simp
      | some y => simp [Multiset.count_singleton, eq_comm]
    · exact .inl ⟨hpolicy.resolve_right hprio, hkept, hr⟩
  next hpolicy =>
    exact ⟨s.schedulerQueueIObject, rfl, h, .inr ⟨fun hkeeps => hpolicy (.inl hkeeps),
      by simp [Sched.queued]⟩⟩

omit [DecidableEq ι] in
/-- The next process is in the queue, and no process is put there. Reference:
`__sched_get_next_process` (`src/scheduler.c:108`). -/
theorem schedGetNextProcess_next (h : BackEndOk s.currentPolicy s.schedulerQueueIObject) :
    ∃ iSched, schedGetNextProcess s = .ok (s.next?, { s with schedulerQueueIObject := iSched }) ∧
      BackEndOk s.currentPolicy iSched ∧ (∀ x, s.next? = some x → x ∈ s.queued) ∧
      ∀ x ∈ iSched.schedData.queued, x ∈ s.queued := by
  classical
  obtain ⟨iSched, hget, hback, ⟨-, rfl, hnext⟩ | ⟨-, hcount⟩⟩ := schedGetNextProcess_spec h
  · refine ⟨_, hget, hback, fun x hx => ?_, fun x hx => hx⟩
    obtain ⟨rq, hrq, hmem⟩ := h.of_front? (hnext.symm.trans hx)
    unfold Sched.queued
    rw [hrq]
    exact hmem
  · refine ⟨iSched, hget, hback, fun x hx => ?_, fun x hx => ?_⟩
    · rw [← Multiset.one_le_count_iff_mem, hcount, if_pos hx]
      omega
    · rw [← Multiset.one_le_count_iff_mem] at hx ⊢
      rw [hcount]
      omega

/-- When the front of a queue that keeps it is no process of the scheduler, the answer leaves the
queue. Reference: `__sched_get_next_process` (`src/scheduler.c:108`). -/
theorem schedGetNextProcess_leaves (h : BackEndOk s.currentPolicy s.schedulerQueueIObject)
    (hfront : KeepsFront s.currentPolicy →
      ∀ q, s.schedulerQueueIObject.schedData.front? ≠ some (.pcb q)) :
    ∃ iSched, schedGetNextProcess s = .ok (s.next?, { s with schedulerQueueIObject := iSched }) ∧
      BackEndOk s.currentPolicy iSched ∧
      (∀ i, s.queued.count (.pcb i) =
        iSched.schedData.queued.count (.pcb i) + if s.next? = some (.pcb i) then 1 else 0) ∧
      (KeepsFront s.currentPolicy → iSched = s.schedulerQueueIObject) := by
  obtain ⟨iSched, hget, hback, ⟨hpolicy, rfl, hnext⟩ | ⟨hpolicy, hcount⟩⟩ :=
    schedGetNextProcess_spec h
  · refine ⟨_, hget, hback, fun i => ?_, fun _ => rfl⟩
    rw [hnext, if_neg (hfront hpolicy i)]
    rfl
  · exact ⟨iSched, hget, hback, fun i => hcount (.pcb i), fun hkeeps => absurd hkeeps hpolicy⟩

/-! ## A switch to a process that has left the queue -/

section

variable {ended : Option ι} (h : s.WellFormed known)
  (hended : ∀ i, (s.coreControlArray c).currentProcess = some (.pcb i) ↔ ended = some i)
  (hqueued : ∀ i, s.queued.count (.pcb i) =
    iSched.schedData.queued.count (.pcb i) + if next = .pcb i then 1 else 0)
  (hs' : Sched.Switched c ended next { s with schedulerQueueIObject := iSched } s')

include hended hqueued hs' in
/-- The next process exchanges one place for another, and the old one loses its place. -/
theorem Sched.places_of_switched (i : ι) :
    s'.places i = s.places i - if ended = some i then 1 else 0 := by
  have hrunning := Sched.running_of_cores i hs'.cores
  have hold : (Sched.coreControlArray { s with schedulerQueueIObject := iSched } c).runs i =
      decide (ended = some i) := by
    simp [CoreControl.runs, hended]
  have hnew : (s'.coreControlArray c).runs i = decide (next = .pcb i) := by
    simp [CoreControl.runs, hs'.current]
  have hsame : Sched.running { s with schedulerQueueIObject := iSched } i = s.running i := rfl
  have hqueue : s'.queued = iSched.schedData.queued := congrArg (·.schedData.queued) hs'.queue
  have hcount : (s.queued.count (.pcb i) : Int) =
      iSched.schedData.queued.count (.pcb i) + if next = .pcb i then 1 else 0 := by
    exact_mod_cast hqueued i
  unfold Sched.places
  rw [hqueue, hrunning, hnew, hold, hsame]
  simp only [decide_eq_true_eq]
  omega

include hqueued in
theorem Sched.mem_queued_of_next (hi : next = .pcb i) : .pcb i ∈ s.queued := by
  have hcount := hqueued i
  rw [if_pos hi] at hcount
  exact Multiset.one_le_count_iff_mem.1 (by omega)

include h hended hqueued hs' in
/-- The next process was alive before, and the old one is the only one that is destroyed. -/
theorem Sched.WellFormed.live_iff_of_switched (i : ι) :
    (s.pcbs (.pcb i)).isSome ↔ (s'.pcbs (.pcb i)).isSome ∨ ended = some i := by
  by_cases hi : ended = some i
  · have hold := h.running_placed ((hended i).2 hi)
    simp [hi, hold.2.1]
  · by_cases hx : next = .pcb i
    · have hold := h.queued_placed (Sched.mem_queued_of_next hqueued hx)
      have hnew := hs'.live
      rw [hx] at hnew
      simp [hnew, hold.2.1]
    · have hkept := hs'.kept (.pcb i) (Ne.symm hx) fun o ho hio => hi (by cases hio; exact ho)
      rw [hkept]
      simp [hi]

include h hended hqueued hs' in
/-- A switch to a process that has left the queue keeps the state well formed. -/
theorem Sched.WellFormed.switched (hback : BackEndOk s.currentPolicy iSched) :
    s'.WellFormed known := by
  have hplaces := Sched.places_of_switched hended hqueued hs'
  have hlive := h.live_iff_of_switched hended hqueued hs'
  refine ⟨?_, ?_, ?_, ?_, ?_, ?_⟩
  · rw [hs'.policy, hs'.queue]
    exact hback
  · by_cases hx : .nullProcess = next
    · exact hx ▸ hs'.live
    · rw [hs'.kept .nullProcess hx nofun]
      exact h.nullProcess
  · intro i hi hsome
    have hkept : ended ≠ some i := by
      intro he
      rw [hs'.gone i he] at hsome
      cases hsome
    rw [hplaces, if_neg hkept, h.once i hi ((hlive i).2 (.inl hsome)), sub_zero]
  · intro i hi
    rw [hplaces]
    by_cases he : ended = some i
    · have hold := h.running_placed ((hended i).2 he)
      rw [if_pos he, h.once i hold.1 hold.2.1, sub_self]
    · rw [if_neg he, h.nowhere i ?_, sub_zero]
      refine hi.imp_right fun hnone => ?_
      have hdead := hlive i
      rw [hnone] at hdead
      simpa [he] using hdead
  · intro d i hd
    by_cases hdc : d = c
    · subst hdc
      rw [hs'.current] at hd
      cases hd
      exact hs'.status
    · rw [hs'.cores d hdc] at hd ⊢
      exact h.busy d i hd
  · intro d hd
    by_cases hdc : d = c
    · subst hdc
      rw [hs'.status, if_pos ?_]
      · exact fun hmarked => absurd hmarked (by decide)
      cases hnext : next with
      | nullProcess => rfl
      | pcb i => exact absurd (hnext ▸ hs'.current) (hd i)
    · rw [hs'.cores d hdc] at hd ⊢
      exact h.idle d hd

include h hended hqueued hs' in
/-- Neither the next process nor the old one runs on another core. -/
theorem Sched.WellFormed.undisturbed_of_switched
    (hfront : KeepsFront s.currentPolicy →
      iSched.schedData.front? = s.schedulerQueueIObject.schedData.front?) :
    s.Undisturbed c s' where
  policy := hs'.policy
  cores := hs'.cores
  pcbs d hd i hi := by
    refine hs'.kept (.pcb i) ?_ ?_
    · intro hx
      have hold := h.queued_placed (Sched.mem_queued_of_next hqueued hx.symm)
      have hpos := Sched.running_pos hi
      omega
    · intro o ho hio
      cases hio
      exact h.current_ne hd ((hended i).2 ho) hi
  front hpolicy := by
    rw [hs'.queue]
    exact hfront hpolicy

end

/-! ## The dispatcher -/

/-- What the queue holds does not change but for `null_process`. -/
theorem Sched.WellFormed.withQueue (h : s.WellFormed known)
    (hback : BackEndOk s.currentPolicy iSched)
    (hqueued : ∀ i, s.queued.count (.pcb i) = iSched.schedData.queued.count (.pcb i)) :
    Sched.WellFormed known { s with schedulerQueueIObject := iSched } := by
  have hplaces : ∀ i, Sched.places { s with schedulerQueueIObject := iSched } i = s.places i := by
    intro i
    have hcount := hqueued i
    unfold Sched.places
    rw [hcount]
    rfl
  exact ⟨hback, h.nullProcess, fun i hi hlive => (hplaces i).trans (h.once i hi hlive),
    fun i hi => (hplaces i).trans (h.nowhere i hi), h.busy, h.idle⟩

/-- Nothing has changed for the processes. -/
theorem Sched.WellFormed.onlyNull (h : s.WellFormed known)
    (hidle : ∀ i, (s.coreControlArray c).currentProcess ≠ some (.pcb i)) (hs' : s.OnlyNull c s') :
    s'.WellFormed known := by
  have hplaces : ∀ i, s'.places i = s.places i := by
    intro i
    have hold : (s.coreControlArray c).runs i = false := by simp [CoreControl.runs, hidle]
    have hnew : (s'.coreControlArray c).runs i = false := by simp [CoreControl.runs, hs'.current]
    unfold Sched.places
    rw [hs'.queued, Sched.running_of_cores i hs'.cores, hold, hnew]
    simp
  refine ⟨hs'.policy ▸ hs'.backEnd, hs'.live, fun i hi hlive => ?_, fun i hi => ?_,
    fun d i hd => ?_, fun d hd => ?_⟩
  · rw [hplaces]
    exact h.once i hi (hs'.pcbs i ▸ hlive)
  · rw [hplaces]
    exact h.nowhere i (hs'.pcbs i ▸ hi)
  · by_cases hdc : d = c
    · subst hdc
      rw [hs'.current] at hd
      cases hd
    · rw [hs'.cores d hdc] at hd ⊢
      exact h.busy d i hd
  · by_cases hdc : d = c
    · exact hdc ▸ hs'.status
    · rw [hs'.cores d hdc] at hd ⊢
      exact h.idle d hd

theorem Sched.OnlyNull.undisturbed (h : s.OnlyNull c s') : s.Undisturbed c s' :=
  ⟨h.policy, h.cores, fun _ _ i _ => h.pcbs i, h.front⟩

variable [DecidableEq τ]

/-- A record that runs a process keeps it, or exchanges it for one that leaves the queue. Reference:
`sched_dispatcher` (`src/scheduler.c:42`). -/
theorem schedDispatcher_keeps_busy {o : ι} (h : s.WellFormed known)
    (ho : (s.coreControlArray c).currentProcess = some (.pcb o))
    (hfront : KeepsFront s.currentPolicy →
      ∀ q, s.schedulerQueueIObject.schedData.front? ≠ some (.pcb q)) :
    ∃ s', schedDispatcher s c = .ok s' ∧ s'.WellFormed known ∧ s.Undisturbed c s' := by
  obtain ⟨-, holive, honot⟩ := h.running_placed ho
  obtain ⟨iSched, hnext, hback, hqueued, hkept⟩ := schedGetNextProcess_leaves h.backEnd hfront
  have hsame : KeepsFront s.currentPolicy →
      iSched.schedData.front? = s.schedulerQueueIObject.schedData.front? :=
    fun hpolicy => congrArg (·.schedData.front?) (hkept hpolicy)
  have hstatus := ne_nullProcessRun (h.busy c o ho)
  have hended : ∀ i, (s.coreControlArray c).currentProcess = some (.pcb i) ↔ some o = some i := by
    intro i
    rw [ho]
    simp
  have hlive : ∀ x, s.next? = some x → x ≠ .pcb o ∧ (s.pcbs x).isSome := by
    intro x hx
    cases x with
    | nullProcess => exact ⟨nofun, h.nullProcess⟩
    | pcb i =>
      have hcount := hqueued i
      rw [if_pos hx] at hcount
      have hmem : .pcb i ∈ s.queued := Multiset.one_le_count_iff_mem.1 (by omega)
      exact ⟨fun hio => honot (hio ▸ hmem), (h.queued_placed hmem).2.1⟩
  obtain ⟨s', hdispatch, ⟨hnone, rfl⟩ | ⟨next, hor, hs'⟩⟩ :=
    schedDispatcher_busy hstatus ho hnext holive h.nullProcess hlive
  · rw [hnone] at hqueued
    have hwf := h.withQueue hback (by simpa using hqueued)
    exact ⟨_, hdispatch, hwf, rfl, fun _ _ => rfl, fun _ _ _ _ => rfl, hsame⟩
  · have hnextQueued : ∀ i, s.queued.count (.pcb i) =
        iSched.schedData.queued.count (.pcb i) + if next = .pcb i then 1 else 0 := by
      rcases hor with hor | ⟨hor, rfl⟩
      · simpa [hor] using hqueued
      · simpa [hor] using hqueued
    exact ⟨s', hdispatch, h.switched hended hnextQueued hs' hback,
      h.undisturbed_of_switched hended hnextQueued hs' hsame⟩

/-- A record marked idle goes to `null_process`. Reference: `sched_dispatcher`
(`src/scheduler.c:42`). -/
theorem schedDispatcher_onlyNull_marked (h : s.WellFormed known)
    (hstatus : (s.coreControlArray c).currrentCpuSchedStatus = nullProcessRun) :
    ∃ s', schedDispatcher s c = .ok s' ∧ s.OnlyNull c s' := by
  have hne : (s.coreControlArray c).currrentCpuSchedStatus ≠ processRun :=
    fun hbusy => ne_nullProcessRun hbusy hstatus
  obtain ⟨s', hdispatch, hs'⟩ := schedDispatcher_idle hstatus
    (fun x hx => h.current_of_ne hne hx) h.nullProcess
  refine ⟨s', hdispatch, hs'.policy, hs'.queue ▸ h.backEnd, fun i => ?_, fun _ => ?_, hs'.cores,
    hs'.current, ?_, fun i => hs'.kept _ nofun nofun, hs'.live⟩
  · unfold Sched.queued
    rw [hs'.queue]
  · rw [hs'.queue]
  · rw [hs'.status, if_pos rfl]
    decide

/-- A record on `null_process` that is not marked idle stays there when the queue has no other
process. Reference: `sched_dispatcher` (`src/scheduler.c:42`). -/
theorem schedDispatcher_onlyNull_unmarked (h : s.WellFormed known)
    (hmark : (s.coreControlArray c).Unmarked) (hstays : s.NullStays c) :
    ∃ s', schedDispatcher s c = .ok s' ∧ s.OnlyNull c s' := by
  obtain ⟨hcurrent, hnull⟩ := hstays
  have hanswer : ∀ i, s.next? ≠ some (.pcb i) := by
    rintro i hi
    rcases hnull with hnone | ⟨hsome, -⟩
    · cases hnone.symm.trans hi
    · cases hsome.symm.trans hi
  have hfront : KeepsFront s.currentPolicy →
      ∀ q, s.schedulerQueueIObject.schedData.front? ≠ some (.pcb q) := by
    intro hpolicy q hq
    obtain ⟨-, -, -, ⟨-, -, hnext⟩ | ⟨hnot, -⟩⟩ := schedGetNextProcess_spec h.backEnd
    · exact hanswer q (hnext.trans hq)
    · exact hnot hpolicy
  obtain ⟨iSched, hget, hback, hqueued, hkept⟩ := schedGetNextProcess_leaves h.backEnd hfront
  simp only [hanswer, if_false, Nat.add_zero] at hqueued
  rcases hnull with hnone | ⟨hsome, hprio⟩
  · rw [hnone] at hget
    refine ⟨{ s with schedulerQueueIObject := iSched }, ?_, rfl, hback, fun i => (hqueued i).symm,
      fun hpolicy => congrArg (·.schedData.front?) (hkept hpolicy), fun _ _ => rfl, hcurrent,
      hmark.1, fun _ => rfl, h.nullProcess⟩
    unfold schedDispatcher schedGetNextProcessCleanQueue schedDispatcherChoose
    rw [if_neg hmark.2, hget, Outcome.ok_bind]
    dsimp only
    rw [if_pos hcurrent]
    rfl
  · obtain ⟨p, hp⟩ := Option.isSome_iff_exists.1 h.nullProcess
    rw [hsome] at hget
    obtain ⟨f, hdispatch, hf⟩ := schedDispatcher_self hmark.2 hcurrent hp hget
    obtain ⟨q, hin, hback', hq⟩ := iSchedInsert_spec hback .nullProcess fun hpolicy =>
      hprio hpolicy p hp
    rw [hin, Outcome.ok_bind] at hdispatch
    have honly := schedDispatcher_onlyCore hdispatch
    have hs' := hf q
    refine ⟨f q, hdispatch, honly.policy, by rw [hs'.queue]; exact hback', fun i => ?_,
      fun hpolicy => ?_, honly.cores, hs'.current, ?_, fun i => hs'.kept _ nofun, ?_⟩
    · unfold Sched.queued at hqueued ⊢
      rw [hs'.queue, hq, hqueued i, Multiset.count_add]
      simp
    · obtain ⟨-, -, -, ⟨-, -, hnext⟩ | ⟨hnot, -⟩⟩ := schedGetNextProcess_spec h.backEnd
      · exact honly.front?_eq h.backEnd (hnext.symm.trans hsome)
      · exact absurd hpolicy hnot
    · rw [hs'.status, if_pos rfl]
      decide
    · rw [hs'.pcb]
      rfl

/-- An idle record stays idle. Reference: `sched_dispatcher` (`src/scheduler.c:42`). -/
theorem schedDispatcher_onlyNull (h : s.WellFormed known) (hsafe : s.DispatchSafe c)
    (hstatus : (s.coreControlArray c).currrentCpuSchedStatus ≠ processRun) :
    ∃ s', schedDispatcher s c = .ok s' ∧ s.OnlyNull c s' := by
  by_cases hmarked : (s.coreControlArray c).currrentCpuSchedStatus = nullProcessRun
  · exact schedDispatcher_onlyNull_marked h hmarked
  · exact schedDispatcher_onlyNull_unmarked h ⟨hstatus, hmarked⟩ (hsafe.unmarked ⟨hstatus, hmarked⟩)

/-- The dispatcher keeps the state well formed where it is safe. Reference: `sched_dispatcher`
(`src/scheduler.c:42`). -/
theorem schedDispatcher_keeps (h : s.WellFormed known) (hsafe : s.DispatchSafe c) :
    ∃ s', schedDispatcher s c = .ok s' ∧ s'.WellFormed known ∧ s.Undisturbed c s' := by
  by_cases hstatus : (s.coreControlArray c).currrentCpuSchedStatus = processRun
  · obtain ⟨o, ho⟩ := h.current_of_eq hstatus
    exact schedDispatcher_keeps_busy h ho fun hpolicy q hq => hsafe.peeks q ⟨hstatus, hpolicy, hq⟩
  · obtain ⟨s', hdispatch, hs'⟩ := schedDispatcher_onlyNull h hsafe hstatus
    have hidle : ∀ i, (s.coreControlArray c).currentProcess ≠ some (.pcb i) :=
      fun i hi => hstatus (h.busy c i hi)
    exact ⟨s', hdispatch, h.onlyNull hidle hs', hs'.undisturbed⟩

/-- On an idle record that is not marked so the dispatcher returns only when `null_process` stays.
Reference: `sched_dispatcher` (`src/scheduler.c:42`). -/
theorem schedDispatcher_nullStays (h : s.WellFormed known)
    (hmark : (s.coreControlArray c).Unmarked) (hdispatch : schedDispatcher s c = .ok s') :
    s.NullStays c := by
  obtain ⟨iSched, hget, hback, -⟩ := schedGetNextProcess_spec h.backEnd
  obtain ⟨x, hx⟩ := Option.ne_none_iff_exists'.1 fun hnone =>
    schedDispatcher_no_current hmark.2 hnone hdispatch
  obtain rfl := h.current_of_ne hmark.1 hx
  refine ⟨hx, ?_⟩
  cases hnext : s.next? with
  | none => exact .inl rfl
  | some y =>
    rw [hnext] at hget
    obtain rfl : y = .nullProcess := by
      by_contra hne
      exact schedDispatcher_nullProcess hmark.2 hx hget hne hdispatch
    refine .inr ⟨rfl, fun hpolicy p hp => ?_⟩
    by_contra hneg
    obtain ⟨f, hself, -⟩ := schedDispatcher_self hmark.2 hx hp hget
    rw [iSchedInsert_negative hback _ hpolicy (not_le.1 hneg)] at hself
    cases hdispatch.symm.trans hself

/-- When the queue answers a process and keeps it, that process runs and is queued afterwards.
Reference: `sched_dispatcher` (`src/scheduler.c:42`). -/
theorem schedDispatcher_doubles (h : s.WellFormed known) (hq : s.Peeks c q) :
    ∃ s', schedDispatcher s c = .ok s' ∧ s'.Doubled c q := by
  obtain ⟨hstatus, hpolicy, hfront⟩ := hq
  obtain ⟨o, ho⟩ := h.current_of_eq hstatus
  obtain ⟨-, holive, honot⟩ := h.running_placed ho
  obtain ⟨rq, hrq, hmemrq⟩ := h.backEnd.of_front? hfront
  have hmem : .pcb q ∈ s.queued := by
    unfold Sched.queued
    rw [hrq]
    exact hmemrq
  obtain ⟨iSched, hget, -, ⟨-, rfl, hnext⟩ | ⟨hnot, -⟩⟩ := schedGetNextProcess_spec h.backEnd
  · rw [hnext.trans hfront] at hget
    obtain ⟨s', hdispatch, hs'⟩ := schedDispatcher_answered (ne_nullProcessRun hstatus) ho hget rfl
      holive (h.queued_placed hmem).2.1 fun hqo => honot (hqo ▸ hmem)
    exact ⟨s', hdispatch, hs'.current, rq, hs'.queue.trans hrq, hmemrq⟩
  · exact absurd hpolicy hnot

end SeKernel
