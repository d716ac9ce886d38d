import SeKernel.RunQueue.Prio

/-!
# The priority run queue loses nothing and serves the most urgent process

Runs of `rq_prio_fifo_in`, `rq_prio_fifo_peek` and `rq_prio_fifo_out` from `runqueue_init`, in any
order. `prio_run` is the run lemma: the entries still queued and those taken out are together the
entries inserted. The conservation of processes (`rqPrioFifo_conserves`) and the priority order
(`rqPrioFifo_returns_least`) are read off it.
-/

namespace SeKernel

open Buckets

/-- The calls of the priority run queue; an insertion comes with the `current_priority` it reads. -/
inductive PrioCmd (α : Type)
  | insert (p : α) (currentPriority : Int)
  | peek
  | out

/-- What a call answers: nothing, or a pointer. -/
inductive PrioReply (α : Type)
  | done
  | pcb (r : Option α)
  deriving DecidableEq

variable {α : Type}

/-- Priorities are not negative. -/
def PrioCmd.Valid : PrioCmd α → Prop
  | .insert _ currentPriority => 0 ≤ currentPriority
  | .peek => True
  | .out => True

/-- One call. -/
def PrioCmd.exec : PrioCmd α → RtRunqueue α → Outcome (PrioReply α × RtRunqueue α)
  | .insert p currentPriority, rq => do
    let rq ← rqPrioFifoIn rq p currentPriority
    pure (.done, rq)
  | .peek, rq => do
    let (r, rq) ← rqPrioFifoPeek rq
    pure (.pcb r, rq)
  | .out, rq => do
    let (r, rq) ← rqPrioFifoOut rq
    pure (.pcb r, rq)

/-- The processes inserted by a sequence of calls, each with its queue index. -/
def inserted : List (PrioCmd α) → Multiset (α × Fin maxPrio)
  | [] => 0
  | .insert p currentPriority :: cmds => {(p, prioIndex currentPriority)} + inserted cmds
  | .peek :: cmds => inserted cmds
  | .out :: cmds => inserted cmds

/-- The processes that the `rq_prio_fifo_out` calls of a sequence returned. -/
def returned : List (PrioCmd α) → List (PrioReply α) → Multiset α
  | .out :: cmds, .pcb (some x) :: replies => {x} + returned cmds replies
  | _ :: cmds, _ :: replies => returned cmds replies
  | [], _ => 0
  | _, [] => 0

section
variable {rq : RtRunqueue α} {a e : PrioArrayRef}

/-- One call keeps the invariant and balances the entries. -/
theorem PrioCmd.exec_spec (hok : PrioOk rq a e) (cmd : PrioCmd α) (hvalid : cmd.Valid) :
    ∃ reply rq' a' e' taken, cmd.exec rq = .ok (reply, rq') ∧ PrioOk rq' a' e' ∧
      rq'.entries a' e' + taken = rq.entries a e + inserted [cmd] ∧
      elements taken = returned [cmd] [reply] := by
  cases cmd with
  | insert p c =>
    obtain ⟨rq', hin, hok', hent⟩ := rqPrioFifoIn_spec hok p hvalid
    exact ⟨.done, rq', a, e, 0, by simp [PrioCmd.exec, hin], hok', by simp [hent, inserted], rfl⟩
  | peek =>
    obtain ⟨r, rq', a', e', hpeek, hok', hent, -⟩ := rqPrioFifoPeek_spec hok
    exact ⟨.pcb r, rq', a', e', 0, by simp [PrioCmd.exec, hpeek], hok',
      by simp [hent, inserted], rfl⟩
  | out =>
    obtain ⟨r, rq', a', e', hout, hok', -, ⟨rfl, h0, h0'⟩ | ⟨x, i, rfl, -, hent⟩⟩ :=
      rqPrioFifoOut_spec hok
    · exact ⟨.pcb none, rq', a', e', 0, by simp [PrioCmd.exec, hout], hok',
        by simp [h0, h0', inserted], rfl⟩
    · exact ⟨.pcb (some x), rq', a', e', {(x, i)}, by simp [PrioCmd.exec, hout], hok',
        by simp [hent, inserted], by simp [returned]⟩

theorem inserted_cons (cmd : PrioCmd α) (cmds : List (PrioCmd α)) :
    inserted (cmd :: cmds) = inserted [cmd] + inserted cmds := by
  cases cmd <;> simp [inserted]

theorem returned_cons (cmd : PrioCmd α) (cmds : List (PrioCmd α)) (reply : PrioReply α)
    (replies : List (PrioReply α)) :
    returned (cmd :: cmds) (reply :: replies) = returned [cmd] [reply] + returned cmds replies := by
  cases cmd with
  | insert | peek => simp [returned]
  | out =>
    cases reply with
    | done => simp [returned]
    | pcb r => cases r <;> simp [returned]

/-- A run keeps the invariant, never faults, and balances the entries: what is still queued and
what was taken out is what was there and what was inserted. -/
theorem prio_run (cmds : List (PrioCmd α)) (hvalid : ∀ cmd ∈ cmds, cmd.Valid)
    (hok : PrioOk rq a e) :
    ∃ replies rq' a' e' taken, Machine.run PrioCmd.exec cmds rq = .ok (replies, rq') ∧
      PrioOk rq' a' e' ∧ rq'.entries a' e' + taken = rq.entries a e + inserted cmds ∧
      elements taken = returned cmds replies := by
  induction cmds generalizing rq a e with
  | nil => exact ⟨[], rq, a, e, 0, rfl, hok, by simp [inserted], rfl⟩
  | cons cmd cmds ih =>
    obtain ⟨reply, rq₁, a₁, e₁, taken₁, h1, hok₁, hent₁, hret₁⟩ :=
      cmd.exec_spec hok (hvalid cmd (by simp))
    obtain ⟨replies, rq₂, a₂, e₂, taken₂, h2, hok₂, hent₂, hret₂⟩ :=
      ih (fun c hc => hvalid c (by simp [hc])) hok₁
    refine ⟨reply :: replies, rq₂, a₂, e₂, taken₂ + taken₁,
      Machine.run_cons_eq_ok.2 ⟨reply, rq₁, replies, h1, h2, rfl⟩, hok₂, ?_, ?_⟩
    · rw [← add_assoc, hent₂, add_right_comm, hent₁, inserted_cons cmd cmds, add_assoc]
    · rw [elements_add, hret₁, hret₂, returned_cons cmd cmds, add_comm]

end

/-- The priority run queue neither loses nor duplicates processes: after any calls from
`runqueue_init` the counters are exact, the arrays are two, no index scan answered -1 (the run
returns), the queued processes are the inserted ones minus the returned ones, and
`rq_prio_fifo_out` answers `NULL` exactly on the empty queue. Reference:
`src/scheduler_priority_fifo.c:8-119`. -/
theorem rqPrioFifo_conserves (runq : RtRunqueue α) (cmds : List (PrioCmd α))
    (hvalid : ∀ cmd ∈ cmds, cmd.Valid) :
    ∃ replies rq a e, Machine.run PrioCmd.exec cmds (runqueueInit runq) = .ok (replies, rq) ∧
      rq.active = some a ∧ rq.expired = some e ∧ a ≠ e ∧
      (rq.arrays a).nrActive = ∑ i, ((rq.arrays a).queue i).length ∧
      (rq.arrays e).nrActive = ∑ i, ((rq.arrays e).queue i).length ∧
      elements (rq.entries a e) + returned cmds replies = elements (inserted cmds) ∧
      ∃ r rq', rqPrioFifoOut rq = .ok (r, rq') ∧ (r = none ↔ elements (rq.entries a e) = 0) := by
  obtain ⟨hinit, hzero⟩ := runqueueInit_ok runq
  obtain ⟨replies, rq, a, e, taken, hrun, hok, hent, hret⟩ := prio_run cmds hvalid hinit
  rw [hzero, zero_add] at hent
  refine ⟨replies, rq, a, e, hrun, hok.active, hok.expired, hok.ne, hok.activeCounted,
    hok.expiredCounted, by rw [← hret, ← elements_add, hent], ?_⟩
  obtain ⟨r, rq', a', e', hout, -, -, ⟨rfl, h0, -⟩ | ⟨x, i, rfl, hleast, -⟩⟩ :=
    rqPrioFifoOut_spec hok
  · exact ⟨none, rq', hout, by simp [h0]⟩
  · refine ⟨some x, rq', hout, by simp, fun h0 => ?_⟩
    have hmem := hleast.1
    rw [elements_eq_zero.1 h0] at hmem
    cases hmem

/-- Insertions on both sides of an exchange of the arrays. -/
theorem rqPrioFifo_conserves_three :
    ∃ replies rq a e, Machine.run PrioCmd.exec
        [.insert 1 30, .peek, .insert 2 3, .insert 3 0, .out]
        (runqueueInit ⟨0, none, none, fun _ => prioArrayInit⟩) = .ok (replies, rq) ∧
      rq.active = some a ∧ rq.expired = some e ∧ a ≠ e ∧
      (rq.arrays a).nrActive = ∑ i, ((rq.arrays a).queue i).length ∧
      (rq.arrays e).nrActive = ∑ i, ((rq.arrays e).queue i).length ∧
      elements (rq.entries a e) +
        returned [.insert 1 30, .peek, .insert 2 3, .insert 3 0, .out] replies =
        elements (inserted [.insert 1 30, .peek, .insert 2 3, .insert (3 : Nat) 0, .out]) ∧
      ∃ r rq', rqPrioFifoOut rq = .ok (r, rq') ∧ (r = none ↔ elements (rq.entries a e) = 0) :=
  rqPrioFifo_conserves _ _ (by simp [PrioCmd.Valid])

/-- The priority run queue is a priority queue: after any calls from `runqueue_init`, what
`rq_prio_fifo_out` or `rq_prio_fifo_peek` returns has the least queue index of all processes in
both arrays, and these are inserted entries, so that the index is `min(current_priority,
MAX_PRIO - 1)` at insertion. Reference: `src/scheduler_priority_fifo.c:8-119`. -/
theorem rqPrioFifo_returns_least (runq : RtRunqueue α) (cmds : List (PrioCmd α))
    (hvalid : ∀ cmd ∈ cmds, cmd.Valid) :
    ∃ replies rq a e, Machine.run PrioCmd.exec cmds (runqueueInit runq) = .ok (replies, rq) ∧
      rq.active = some a ∧ rq.expired = some e ∧
      (∃ taken, rq.entries a e + taken = inserted cmds ∧
        elements taken = returned cmds replies) ∧
      (∀ x rq', rqPrioFifoOut rq = .ok (some x, rq') → ∃ i, Least (rq.entries a e) (x, i)) ∧
      (∀ x rq', rqPrioFifoPeek rq = .ok (some x, rq') → ∃ i, Least (rq.entries a e) (x, i)) := by
  obtain ⟨hinit, hzero⟩ := runqueueInit_ok runq
  obtain ⟨replies, rq, a, e, taken, hrun, hok, hent, hret⟩ := prio_run cmds hvalid hinit
  rw [hzero, zero_add] at hent
  refine ⟨replies, rq, a, e, hrun, hok.active, hok.expired, ⟨taken, hent, hret⟩, ?_, ?_⟩
  · intro x rq' hout
    obtain ⟨r, rq₁, a', e', hout', -, -, ⟨rfl, -, -⟩ | ⟨y, i, rfl, hleast, -⟩⟩ :=
      rqPrioFifoOut_spec hok
    · rw [hout] at hout'
      cases hout'
    · rw [hout] at hout'
      cases hout'
      exact ⟨i, hleast⟩
  · intro x rq' hpeek
    obtain ⟨r, rq₁, a', e', hpeek', -, -, ⟨rfl, -⟩ | ⟨y, i, rfl, hleast⟩⟩ := rqPrioFifoPeek_spec hok
    · rw [hpeek] at hpeek'
      cases hpeek'
    · rw [hpeek] at hpeek'
      cases hpeek'
      exact ⟨i, hleast⟩

/-- A late, more urgent process overtakes those in the active array. -/
theorem rqPrioFifo_returns_least_three :
    ∃ replies rq a e, Machine.run PrioCmd.exec
        [.insert 1 30, .insert 2 7, .peek, .insert (3 : Nat) 0]
        (runqueueInit ⟨0, none, none, fun _ => prioArrayInit⟩) = .ok (replies, rq) ∧
      rq.active = some a ∧ rq.expired = some e ∧
      (∃ taken, rq.entries a e + taken = inserted [.insert 1 30, .insert 2 7, .peek, .insert 3 0] ∧
        elements taken = returned [.insert 1 30, .insert 2 7, .peek, .insert 3 0] replies) ∧
      (∀ x rq', rqPrioFifoOut rq = .ok (some x, rq') → ∃ i, Least (rq.entries a e) (x, i)) ∧
      (∀ x rq', rqPrioFifoPeek rq = .ok (some x, rq') → ∃ i, Least (rq.entries a e) (x, i)) :=
  rqPrioFifo_returns_least _ _ (by simp [PrioCmd.Valid])

end SeKernel
