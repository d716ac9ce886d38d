import SeKernel.RunQueue.PrioRuns

/-!
# The counter of the priority run queue

`nr_running` goes down with every process that leaves (`rq_prio_fifo_out`) and never up:
`rq_prio_fifo_in` names it and does not change it. So it is minus the number of processes that have
left (`prioRun_nrRunning`), while the counters of the two arrays are exact; it is the number of
processes in the queue only as long as there was none (`rqPrioFifo_count_iff`).
-/

namespace SeKernel

open Buckets

/-- `nr_running` is what the two arrays count, the number of processes in the queue, and not
negative. -/
structure RtRunqueue.CountExact {α : Type} (rq : RtRunqueue α) (a e : PrioArrayRef) : Prop where
  counters : rq.nrRunning = (rq.arrays a).nrActive + (rq.arrays e).nrActive
  processes : rq.nrRunning = Multiset.card (rq.entries a e)
  nonneg : 0 ≤ rq.nrRunning

variable {α : Type} {rq rq' : RtRunqueue α} {a e : PrioArrayRef}

/-! ## The counter under one call -/

/-- Reference: `_rq_prio_fifo_update_sched` (`src/scheduler_priority_fifo.c:88`). -/
theorem rqPrioFifoUpdateSched_nrRunning {r : Int}
    (h : rqPrioFifoUpdateSched rq = .ok (r, rq')) : rq'.nrRunning = rq.nrRunning := by
  unfold rqPrioFifoUpdateSched at h
  obtain ⟨e, -, h⟩ := Outcome.bind_eq_ok.1 h
  split at h
  · cases h
    rfl
  · obtain ⟨a, -, h⟩ := Outcome.bind_eq_ok.1 h
    split at h
    · cases h
      rfl
    · obtain ⟨nextPrio, -, h⟩ := Outcome.bind_eq_ok.1 h
      split at h
      · cases h
        rfl
      · cases h

/-- Reference: `rq_prio_fifo_in` (`src/scheduler_priority_fifo.c:17`). -/
theorem rqPrioFifoIn_nrRunning {p : α} {c : Int} (h : rqPrioFifoIn rq p c = .ok rq') :
    rq'.nrRunning = rq.nrRunning := by
  unfold rqPrioFifoIn at h
  obtain ⟨e, -, h⟩ := Outcome.bind_eq_ok.1 h
  obtain ⟨i, -, h⟩ := Outcome.bind_eq_ok.1 h
  cases h
  rfl

/-- Reference: `rq_prio_fifo_peek` (`src/scheduler_priority_fifo.c:33`). -/
theorem rqPrioFifoPeek_nrRunning {r : Option α} (h : rqPrioFifoPeek rq = .ok (r, rq')) :
    rq'.nrRunning = rq.nrRunning := by
  unfold rqPrioFifoPeek at h
  obtain ⟨⟨n, rq₁⟩, hupdate, h⟩ := Outcome.bind_eq_ok.1 h
  have hsame := rqPrioFifoUpdateSched_nrRunning hupdate
  obtain ⟨a, -, h⟩ := Outcome.bind_eq_ok.1 h
  split at h
  · obtain ⟨nextPrio, -, h⟩ := Outcome.bind_eq_ok.1 h
    cases h
    exact hsame
  · cases h
    exact hsame

/-- A process that leaves is counted down. Reference: `rq_prio_fifo_out`
(`src/scheduler_priority_fifo.c:50`). -/
theorem rqPrioFifoOut_nrRunning (hok : PrioOk rq a e) {r : Option α}
    (h : rqPrioFifoOut rq = .ok (r, rq')) :
    rq'.nrRunning + (if r.isSome then 1 else 0) = rq.nrRunning := by
  obtain ⟨n, rq₁, a₁, e₁, hupdate, hok₁, -⟩ := rqPrioFifoUpdateSched_spec hok
  rw [← rqPrioFifoUpdateSched_nrRunning hupdate]
  simp only [rqPrioFifoOut, hupdate, Outcome.ok_bind, hok₁.active, followArray,
    Outcome.pure_eq] at h
  by_cases ha : (rq₁.arrays a₁).nrActive = 0
  · rw [if_neg (by simpa using ha)] at h
    cases h
    simp
  · obtain ⟨i, hfirst, hidx⟩ := hok₁.activeCounted.first ha
    obtain ⟨rest, x, -, hpop⟩ := linkedlistPop_of_ne_nil (first_spec hfirst).1
    have hqueue : ((rq₁.modify a₁ fun arr => arr.addActive (-1)).arrays a₁).queue =
        (rq₁.arrays a₁).queue := by
      rw [RtRunqueue.modify_arrays_self]
      rfl
    rw [if_pos ha, hqueue, hidx, Outcome.ok_bind, hpop] at h
    cases h
    show rq₁.nrRunning - 1 + 1 = rq₁.nrRunning
    omega

/-- One call. -/
theorem PrioCmd.exec_nrRunning (hok : PrioOk rq a e) {cmd : PrioCmd α} {reply : PrioReply α}
    (h : cmd.exec rq = .ok (reply, rq')) :
    rq'.nrRunning + Multiset.card (returned [cmd] [reply]) = rq.nrRunning := by
  cases cmd with
  | insert p c =>
    obtain ⟨rq₁, hin, h⟩ := Outcome.bind_eq_ok.1 h
    cases h
    simpa [returned] using rqPrioFifoIn_nrRunning hin
  | peek =>
    obtain ⟨⟨r, rq₁⟩, hpeek, h⟩ := Outcome.bind_eq_ok.1 h
    cases h
    simpa [returned] using rqPrioFifoPeek_nrRunning hpeek
  | out =>
    obtain ⟨⟨r, rq₁⟩, hout, h⟩ := Outcome.bind_eq_ok.1 h
    cases h
    have hcount := rqPrioFifoOut_nrRunning hok hout
    cases r with
    | none => simpa [returned] using hcount
    | some x => simpa [returned] using hcount

/-! ## Runs -/

/-- Over a run the counter goes down by the number of processes taken out. -/
theorem prioRun_nrRunning {cmds : List (PrioCmd α)} (hvalid : ∀ cmd ∈ cmds, cmd.Valid)
    (hok : PrioOk rq a e) {replies : List (PrioReply α)}
    (hrun : Machine.run PrioCmd.exec cmds rq = .ok (replies, rq')) :
    rq'.nrRunning + Multiset.card (returned cmds replies) = rq.nrRunning := by
  induction cmds generalizing rq a e replies with
  | nil =>
    cases hrun
    simp [returned]
  | cons cmd cmds ih =>
    obtain ⟨reply, rq₁, replies, hstep, hrest, rfl⟩ := Machine.run_cons_eq_ok.1 hrun
    obtain ⟨reply', rq₁', a₁, e₁, -, hstep', hok₁, -⟩ :=
      cmd.exec_spec hok (hvalid cmd List.mem_cons_self)
    rw [hstep] at hstep'
    cases hstep'
    have hfirst := PrioCmd.exec_nrRunning hok hstep
    have hlater := ih (fun c hc => hvalid c (List.mem_cons_of_mem _ hc)) hok₁ hrest
    rw [returned_cons, Multiset.card_add]
    push_cast
    omega

theorem inserted_eq_zero {cmds : List (PrioCmd α)} :
    inserted cmds = 0 ↔ ∀ p c, PrioCmd.insert p c ∉ cmds := by
  induction cmds with
  | nil => simp [inserted]
  | cons cmd cmds ih =>
    cases cmd with
    | insert p c =>
      refine iff_of_false (fun hzero => ?_) fun hno => hno p c List.mem_cons_self
      simp [inserted] at hzero
    | peek | out => simp [inserted, ih]

/-- After any calls from `runqueue_init`, `nr_running` is what the arrays count and the number of
processes in the queue if and only if no process was ever put in. Reference:
`src/scheduler_priority_fifo.c:8-119`. -/
theorem rqPrioFifo_count_iff (runq : RtRunqueue α) (cmds : List (PrioCmd α))
    (hvalid : ∀ cmd ∈ cmds, cmd.Valid) :
    ∃ replies rq a e, Machine.run PrioCmd.exec cmds (runqueueInit runq) = .ok (replies, rq) ∧
      rq.active = some a ∧ rq.expired = some e ∧
      (rq.CountExact a e ↔ ∀ p c, PrioCmd.insert p c ∉ cmds) := by
  obtain ⟨hinit, hzero⟩ := runqueueInit_ok runq
  obtain ⟨replies, rq, a, e, taken, hrun, hok, hent, hret⟩ := prio_run cmds hvalid hinit
  refine ⟨replies, rq, a, e, hrun, hok.active, hok.expired, ?_⟩
  have hcount : rq.nrRunning + Multiset.card (returned cmds replies) = 0 :=
    prioRun_nrRunning hvalid hinit hrun
  have hbalance : Multiset.card (rq.entries a e) + Multiset.card (returned cmds replies) =
      Multiset.card (inserted cmds) := by
    have hcard := congrArg Multiset.card hent
    rw [hzero, zero_add, Multiset.card_add] at hcard
    rw [← hret, ← hcard, elements, Multiset.card_map]
  have htotal : (rq.arrays a).nrActive + (rq.arrays e).nrActive =
      Multiset.card (rq.entries a e) := by
    rw [RtPrioArray.counted_iff.1 hok.activeCounted, RtPrioArray.counted_iff.1 hok.expiredCounted,
      RtRunqueue.entries, Multiset.card_add]
    push_cast
    rfl
  rw [← inserted_eq_zero, ← Multiset.card_eq_zero]
  constructor
  · intro h
    have hprocesses := h.processes
    omega
  · intro h
    exact ⟨by omega, by omega, by omega⟩

/-- Without an insertion the counter stays 0. -/
theorem rqPrioFifo_count_iff_two : ∃ replies rq a e, Machine.run PrioCmd.exec [.out, .peek]
      (runqueueInit (⟨0, none, none, fun _ => prioArrayInit⟩ : RtRunqueue Nat)) =
        .ok (replies, rq) ∧
    rq.active = some a ∧ rq.expired = some e ∧ rq.CountExact a e := by
  obtain ⟨replies, rq, a, e, hrun, hactive, hexpired, hiff⟩ := rqPrioFifo_count_iff
    (⟨0, none, none, fun _ => prioArrayInit⟩ : RtRunqueue Nat) [.out, .peek]
    (by simp [PrioCmd.Valid])
  exact ⟨replies, rq, a, e, hrun, hactive, hexpired, hiff.2 (by simp)⟩

/-- After one insertion `nr_running` is 0 where the arrays count 1, and it is -1 after the process
has left. -/
theorem rqPrioFifo_count_fails :
    (∃ replies rq, Machine.run PrioCmd.exec [.insert (7 : Nat) 0]
        (runqueueInit ⟨0, none, none, fun _ => prioArrayInit⟩) = .ok (replies, rq) ∧
      rq.active = some (.array 0) ∧ rq.expired = some (.array 1) ∧ rq.nrRunning = 0 ∧
      (rq.arrays (.array 0)).nrActive + (rq.arrays (.array 1)).nrActive = 1 ∧
      ¬ rq.CountExact (.array 0) (.array 1)) ∧
    ∃ replies rq, Machine.run PrioCmd.exec [.insert (7 : Nat) 0, .out]
        (runqueueInit ⟨0, none, none, fun _ => prioArrayInit⟩) = .ok (replies, rq) ∧
      rq.nrRunning = -1 :=
  ⟨⟨_, _, rfl, rfl, rfl, rfl, rfl, fun h => absurd h.counters (by decide)⟩, _, _, rfl, rfl⟩

end SeKernel
