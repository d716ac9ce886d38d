import SeKernel.Lib.Machine
import SeKernel.RunQueue.Basic

/-!
# The simple run queue over whole runs

`rq_simple_fifo_in` appends, `rq_simple_fifo_peek` reads the first process and `rq_simple_fifo_out`
takes the last one, so the queue is last in, first out, and a peek announces a process that the next
removal does not return. With one process in the queue the two ends are one: a run that never looks
at a longer queue is first in, first out, and among runs that insert no process twice only such a
run is (`rqSimpleFifo_fifo_iff`).
-/

namespace SeKernel

variable {α : Type}

/-- The calls of the simple run queue. -/
inductive SimpleCmd (α : Type)
  | insert (newPcb : α)
  | peek
  | out

/-- One call, with the pointer that it answers. -/
def SimpleCmd.exec : SimpleCmd α → RtSimpleRunqueue α → Outcome (Option α × RtSimpleRunqueue α)
  | .insert newPcb, rq => pure (none, rqSimpleFifoIn rq newPcb)
  | .peek, rq => pure (rqSimpleFifoPeek rq, rq)
  | .out, rq => pure (rqSimpleFifoOut rq)

/-- The inserted processes, in order. -/
def insertions : List (SimpleCmd α) → List α
  | [] => []
  | .insert p :: cmds => p :: insertions cmds
  | .peek :: cmds => insertions cmds
  | .out :: cmds => insertions cmds

/-- The processes that the `rq_simple_fifo_out` calls returned, in order. -/
def removals : List (SimpleCmd α) → List (Option α) → List α
  | .out :: cmds, some x :: replies => x :: removals cmds replies
  | _ :: cmds, _ :: replies => removals cmds replies
  | [], _ => []
  | _, [] => []

/-- A peek returns what `rq_simple_fifo_out` would return in its place. -/
def SimpleCmd.Foretells : SimpleCmd α → RtSimpleRunqueue α → Prop
  | .peek, rq => rqSimpleFifoPeek rq = (rqSimpleFifoOut rq).1
  | .insert _, _ => True
  | .out, _ => True

/-- The run returns, the processes taken out are a stretch of those queued at first and those
inserted, from the beginning and without gaps, `nr_running` counts the rest, and every peek returns
the process that is next. -/
def ServesFifo (cmds : List (SimpleCmd α)) (rq : RtSimpleRunqueue α) : Prop :=
  ∃ replies rq', Machine.run SimpleCmd.exec cmds rq = .ok (replies, rq') ∧
    removals cmds replies <+: rq.active ++ insertions cmds ∧
    rq'.nrRunning = rq'.active.length ∧
    (removals cmds replies).length + rq'.active.length =
      (rq.active ++ insertions cmds).length ∧
    Machine.Meets SimpleCmd.exec SimpleCmd.Foretells cmds rq

/-- Removals and peeks find at most one process. -/
def SimpleCmd.AtMostOne : SimpleCmd α → RtSimpleRunqueue α → Prop
  | .insert _, _ => True
  | .peek, rq => rq.active.length ≤ 1
  | .out, rq => rq.active.length ≤ 1

variable {rq rq' : RtSimpleRunqueue α} {cmds : List (SimpleCmd α)} {p x : α} {xs : List α}

/-! ## The operations -/

/-- A peek reads the first process. Reference: `rq_simple_fifo_peek`
(`src/scheduler_simple_fifo.c:25`). -/
theorem rqSimpleFifoPeek_eq (hcount : rq.nrRunning = rq.active.length) :
    rqSimpleFifoPeek rq = rq.active.head? := by
  unfold rqSimpleFifoPeek Seq.linkedlistGetFirst
  rw [hcount]
  cases rq.active with
  | nil => rfl
  | cons p ps => exact if_pos (by simp; omega)

/-- A removal takes the last process. Reference: `rq_simple_fifo_out`
(`src/scheduler_simple_fifo.c:15`). -/
theorem rqSimpleFifoOut_eq (hcount : rq.nrRunning = rq.active.length) :
    rqSimpleFifoOut rq =
      (rq.active.getLast?, ⟨rq.active.dropLast.length, rq.active.dropLast⟩) := by
  obtain ⟨nrRunning, active⟩ := rq
  dsimp only at hcount
  subst hcount
  cases active using List.reverseRecOn with
  | nil => rfl
  | append_singleton xs x =>
    have hne : ((xs ++ [x]).length : Int) ≠ 0 := by simp; omega
    unfold rqSimpleFifoOut
    rw [if_pos hne]
    simp [Seq.linkedlistPop]

/-! ## Runs -/

/-- A run serves first in, first out when its first call does and the rest does. -/
theorem servesFifo_cons {cmd : SimpleCmd α} {r : Option α} (hexec : cmd.exec rq = .ok (r, rq')) :
    ServesFifo (cmd :: cmds) rq ↔ cmd.Foretells rq ∧
      ∃ replies rq'', Machine.run SimpleCmd.exec cmds rq' = .ok (replies, rq'') ∧
        removals (cmd :: cmds) (r :: replies) <+: rq.active ++ insertions (cmd :: cmds) ∧
        rq''.nrRunning = rq''.active.length ∧
        (removals (cmd :: cmds) (r :: replies)).length + rq''.active.length =
          (rq.active ++ insertions (cmd :: cmds)).length ∧
        Machine.Meets SimpleCmd.exec SimpleCmd.Foretells cmds rq' := by
  constructor
  · rintro ⟨replies, rq'', hrun, hprefix, hcount, hlength, hmeets⟩
    obtain ⟨r', rq₁, replies', h1, h2, rfl⟩ := Machine.run_cons_eq_ok.1 hrun
    rw [hexec] at h1
    cases h1
    exact ⟨hmeets.1, replies', rq'', h2, hprefix, hcount, hlength, hmeets.2 _ _ hexec⟩
  · rintro ⟨hforetells, replies, rq'', hrun, hprefix, hcount, hlength, hmeets⟩
    exact ⟨r :: replies, rq'', Machine.run_cons_eq_ok.2 ⟨r, rq', replies, hexec, hrun, rfl⟩,
      hprefix, hcount, hlength, hmeets.cons hforetells hexec⟩

theorem servesFifo_insert :
    ServesFifo (.insert p :: cmds) rq ↔ ServesFifo cmds (rqSimpleFifoIn rq p) := by
  have happend : rq.active ++ p :: insertions cmds = (rq.active ++ [p]) ++ insertions cmds := by
    simp
  rw [servesFifo_cons (r := none) rfl]
  simp only [SimpleCmd.Foretells, true_and, removals, insertions, happend]
  rfl

theorem servesFifo_peek :
    ServesFifo (.peek :: cmds) rq ↔
      rqSimpleFifoPeek rq = (rqSimpleFifoOut rq).1 ∧ ServesFifo cmds rq := by
  have hexec : SimpleCmd.exec .peek rq = .ok (rqSimpleFifoPeek rq, rq) := rfl
  rw [servesFifo_cons hexec]
  simp only [SimpleCmd.Foretells, removals, insertions]
  rfl

/-- A removal from the empty queue changes nothing. -/
theorem servesFifo_out_nil :
    ServesFifo (.out :: cmds) ⟨0, []⟩ ↔ ServesFifo cmds ⟨0, ([] : List α)⟩ := by
  have hexec : SimpleCmd.exec .out ⟨0, ([] : List α)⟩ = .ok (none, ⟨0, []⟩) := rfl
  rw [servesFifo_cons hexec]
  simp only [SimpleCmd.Foretells, true_and, removals, insertions]
  rfl

/-- A removal from a queue of one process returns it. -/
theorem servesFifo_out_singleton :
    ServesFifo (.out :: cmds) ⟨1, [x]⟩ ↔ ServesFifo cmds ⟨0, []⟩ := by
  have hexec : SimpleCmd.exec .out ⟨1, [x]⟩ = .ok (some x, ⟨0, []⟩) := rfl
  rw [servesFifo_cons hexec]
  simp only [SimpleCmd.Foretells, true_and, removals, insertions, List.singleton_append,
    List.cons_prefix_cons, List.length_cons]
  constructor
  · rintro ⟨replies, rq', hrun, hprefix, hcount, hlength, hmeets⟩
    exact ⟨replies, rq', hrun, hprefix, hcount, by simp; omega, hmeets⟩
  · rintro ⟨replies, rq', hrun, hprefix, hcount, hlength, hmeets⟩
    exact ⟨replies, rq', hrun, hprefix, hcount, by simp at hlength; omega, hmeets⟩

/-- The process that is taken out, the last one, is the first one as well. -/
theorem ServesFifo.head_eq_getLast (h : ServesFifo (.out :: cmds) rq)
    (hcount : rq.nrRunning = rq.active.length) : rq.active.head? = rq.active.getLast? := by
  have hexec : SimpleCmd.out.exec rq = .ok (rqSimpleFifoOut rq) := rfl
  rw [rqSimpleFifoOut_eq hcount] at hexec
  obtain ⟨-, replies, rq', -, hprefix, -⟩ := (servesFifo_cons hexec).1 h
  cases hactive : rq.active with
  | nil => rfl
  | cons y ys =>
    rw [hactive, List.getLast?_eq_some_getLast (List.cons_ne_nil y ys)] at hprefix
    simp only [removals, List.cons_append, List.cons_prefix_cons] at hprefix
    rw [List.getLast?_eq_some_getLast (List.cons_ne_nil y ys), hprefix.1]
    rfl

/-- The two ends of a longer sequence without repetition are different. -/
theorem length_le_one_of_head_eq_getLast (hnodup : xs.Nodup) (h : xs.head? = xs.getLast?) :
    xs.length ≤ 1 := by
  cases xs with
  | nil => simp
  | cons y ys =>
    cases ys using List.reverseRecOn with
    | nil => simp
    | append_singleton zs z =>
      rw [← List.cons_append, List.getLast?_concat] at h
      cases h
      simp at hnodup

/-- The two ends of a sequence of at most one element are the same. -/
theorem head_eq_getLast_of_length_le_one (h : xs.length ≤ 1) : xs.head? = xs.getLast? := by
  cases xs with
  | nil => rfl
  | cons y ys =>
    obtain rfl : ys = [] := by simpa using h
    rfl

theorem rqSimpleFifoIn_eq (xs : List α) (p : α) :
    rqSimpleFifoIn ⟨xs.length, xs⟩ p = ⟨(xs ++ [p]).length, xs ++ [p]⟩ := by
  simp [rqSimpleFifoIn, Seq.linkedlistPush]

theorem SimpleCmd.exec_insert (xs : List α) (p : α) :
    (SimpleCmd.insert p).exec ⟨xs.length, xs⟩ = .ok (none, ⟨(xs ++ [p]).length, xs ++ [p]⟩) := by
  rw [← rqSimpleFifoIn_eq]
  rfl

/-- A peek foretells a removal when the two ends of the queue are the same. -/
theorem foretells_iff (hcount : rq.nrRunning = rq.active.length) :
    rqSimpleFifoPeek rq = (rqSimpleFifoOut rq).1 ↔ rq.active.head? = rq.active.getLast? := by
  rw [rqSimpleFifoPeek_eq hcount, rqSimpleFifoOut_eq hcount]

/-- A run that never looks at a longer queue serves first in, first out. -/
theorem ServesFifo.of_meets (cmds : List (SimpleCmd α)) (xs : List α)
    (h : Machine.Meets SimpleCmd.exec SimpleCmd.AtMostOne cmds ⟨xs.length, xs⟩) :
    ServesFifo cmds ⟨xs.length, xs⟩ := by
  induction cmds generalizing xs with
  | nil => exact ⟨[], _, rfl, List.nil_prefix, rfl, by simp [removals, insertions], trivial⟩
  | cons cmd cmds ih =>
    obtain ⟨hcond, hrest⟩ := h
    cases cmd with
    | insert p =>
      rw [servesFifo_insert, rqSimpleFifoIn_eq]
      exact ih (xs ++ [p]) (hrest _ _ (SimpleCmd.exec_insert xs p))
    | peek =>
      rw [servesFifo_peek, foretells_iff rfl]
      exact ⟨head_eq_getLast_of_length_le_one hcond, ih xs (hrest _ _ rfl)⟩
    | out =>
      cases xs with
      | nil => exact servesFifo_out_nil.2 (ih [] (hrest _ _ rfl))
      | cons y ys =>
        obtain rfl : ys = [] := by simpa using (show (y :: ys).length ≤ 1 from hcond)
        exact servesFifo_out_singleton.2 (ih [] (hrest _ _ rfl))

/-- A run that inserts no process twice and serves first in, first out never looks at a longer
queue. -/
theorem ServesFifo.meets (cmds : List (SimpleCmd α)) (xs : List α)
    (hnodup : (xs ++ insertions cmds).Nodup) (h : ServesFifo cmds ⟨xs.length, xs⟩) :
    Machine.Meets SimpleCmd.exec SimpleCmd.AtMostOne cmds ⟨xs.length, xs⟩ := by
  induction cmds generalizing xs with
  | nil => trivial
  | cons cmd cmds ih =>
    have hxs : xs.Nodup := hnodup.of_append_left
    cases cmd with
    | insert p =>
      rw [servesFifo_insert, rqSimpleFifoIn_eq] at h
      refine Machine.Meets.cons trivial (SimpleCmd.exec_insert xs p) (ih (xs ++ [p]) ?_ h)
      simpa [insertions] using hnodup
    | peek =>
      rw [servesFifo_peek, foretells_iff rfl] at h
      exact Machine.Meets.cons (length_le_one_of_head_eq_getLast hxs h.1) rfl (ih xs hnodup h.2)
    | out =>
      have hcond := length_le_one_of_head_eq_getLast hxs (h.head_eq_getLast rfl)
      cases xs with
      | nil => exact Machine.Meets.cons hcond rfl (ih [] hnodup (servesFifo_out_nil.1 h))
      | cons y ys =>
        obtain rfl : ys = [] := by simpa using hcond
        exact Machine.Meets.cons hcond rfl
          (ih [] (List.nodup_cons.1 hnodup).2 (servesFifo_out_singleton.1 h))

/-- From `rq_simple_fifo_init`, a run in which every removal and every peek finds at most one
process is first in, first out; among the runs that insert no process twice, only these are.
Reference: `src/scheduler_simple_fifo.c:5-32`, `linkedlist_push` (`src/linkedlist.c:106`),
`linkedlist_pop` (`src/linkedlist.c:72`). -/
theorem rqSimpleFifo_fifo_iff (rq₀ : RtSimpleRunqueue α) (cmds : List (SimpleCmd α)) :
    (Machine.Meets SimpleCmd.exec SimpleCmd.AtMostOne cmds (rqSimpleFifoInit rq₀) →
      ServesFifo cmds (rqSimpleFifoInit rq₀)) ∧
    ((insertions cmds).Nodup → ServesFifo cmds (rqSimpleFifoInit rq₀) →
      Machine.Meets SimpleCmd.exec SimpleCmd.AtMostOne cmds (rqSimpleFifoInit rq₀)) :=
  ⟨ServesFifo.of_meets cmds [], ServesFifo.meets cmds []⟩

/-- Two processes, one after the other. -/
theorem rqSimpleFifo_fifo_iff_two :
    ServesFifo [.insert 1, .peek, .out, .insert (2 : Nat), .out] (rqSimpleFifoInit ⟨0, []⟩) := by
  refine (rqSimpleFifo_fifo_iff ⟨0, []⟩ _).1 ?_
  refine Machine.Meets.cons trivial rfl (Machine.Meets.cons ?_ rfl (Machine.Meets.cons ?_ rfl ?_))
  · exact le_rfl
  · exact le_rfl
  · exact Machine.Meets.cons trivial rfl (Machine.Meets.cons le_rfl rfl trivial)

/-- With two processes in the queue the peek reads the first one and the removal returns the second
one. -/
theorem rqSimpleFifo_not_fifo :
    Machine.run SimpleCmd.exec [.insert 1, .insert 2, .peek, .out] (rqSimpleFifoInit ⟨0, []⟩) =
        .ok ([none, none, some 1, some 2], ⟨1, [1]⟩) ∧
      ¬ ServesFifo [.insert 1, .insert (2 : Nat), .peek, .out] (rqSimpleFifoInit ⟨0, []⟩) := by
  refine ⟨rfl, fun h => ?_⟩
  have hmeets := ServesFifo.meets _ [] (by decide) h
  have htwo : [1, 2].length ≤ 1 := ((hmeets.2 none _ rfl).2 none _ rfl).1
  exact absurd htwo (by decide)

end SeKernel
