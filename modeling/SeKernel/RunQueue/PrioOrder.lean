import SeKernel.RunQueue.PrioRuns

/-!
# The order within a priority

Each list of a priority array is pushed, popped and migrated at its end and peeked at its front, so
processes of one priority index leave in an order that depends on the migrations. What the queue is
for is stated with one list for each index, oldest process first, whose entries are those of the two
arrays. While no removal meets two processes of the least index, that list has one process to give,
and the order and the agreement of a peek with the removal after it hold (`rqPrioFifo_fifo`).
-/

namespace SeKernel

open Buckets

variable {α : Type}

/-- The processes inserted with the queue index `i`, in order. -/
def insertedAt (i : Fin maxPrio) : List (PrioCmd α) → List α
  | [] => []
  | .insert p currentPriority :: cmds =>
    if prioIndex currentPriority = i then p :: insertedAt i cmds else insertedAt i cmds
  | .peek :: cmds => insertedAt i cmds
  | .out :: cmds => insertedAt i cmds

/-- The processes that the `rq_prio_fifo_out` calls returned, in order. -/
def outs : List (PrioCmd α) → List (PrioReply α) → List α
  | .out :: cmds, .pcb (some x) :: replies => x :: outs cmds replies
  | _ :: cmds, _ :: replies => outs cmds replies
  | [], _ => []
  | _, [] => []

/-- The processes of a sequence of entries that have the queue index `i`. -/
def servedAt (i : Fin maxPrio) (served : List (α × Fin maxPrio)) : List α :=
  (served.filter (·.2 = i)).map Prod.fst

/-- A removal right after a peek answers what the peek answered. -/
def PeekOutAgree : List (PrioCmd α) → List (PrioReply α) → Prop
  | .peek :: .out :: cmds, r :: r' :: replies =>
      r = r' ∧ PeekOutAgree (.out :: cmds) (r' :: replies)
  | _ :: cmds, _ :: replies => PeekOutAgree cmds replies
  | [], _ => True
  | _, [] => True

/-- The run returns, the removed processes of each index are inserted ones of that index, from the
first one and without gaps, and every removal agrees with a peek right before it. -/
def ServesInOrder (cmds : List (PrioCmd α)) (rq : RtRunqueue α) : Prop :=
  ∃ replies rq' served, Machine.run PrioCmd.exec cmds rq = .ok (replies, rq') ∧
    served.map Prod.fst = outs cmds replies ∧
    (∀ i, servedAt i served <+: insertedAt i cmds) ∧ PeekOutAgree cmds replies

/-- A removal meets one process of the least index only. -/
def PrioCmd.OneLeast : PrioCmd α → RtRunqueue α → Prop
  | .out, rq => ∀ x y, Least rq.allEntries x → Least rq.allEntries y → x = y
  | .insert _ _, _ => True
  | .peek, _ => True

variable {rq rq' : RtRunqueue α} {a e : PrioArrayRef} {cmds : List (PrioCmd α)}
  {q : Fin maxPrio → List α} {x : α} {i : Fin maxPrio}

/-! ## The oldest process of an index -/

theorem oneLeast_of_card_le_one (h : Multiset.card rq.allEntries ≤ 1) :
    PrioCmd.out.OneLeast rq := by
  intro x y hx hy
  obtain ⟨m, hm⟩ := Multiset.exists_cons_of_mem hx.1
  have hzero : m = 0 := by
    rw [hm, Multiset.card_cons] at h
    exact Multiset.card_eq_zero.1 (by omega)
  have hmem := hy.1
  rw [hm, hzero] at hmem
  exact (Multiset.mem_singleton.1 hmem).symm

theorem servedAt_cons (x : α) (i j : Fin maxPrio) (served : List (α × Fin maxPrio)) :
    servedAt j ((x, i) :: served) =
      if i = j then x :: servedAt j served else servedAt j served := by
  unfold servedAt
  rw [List.filter_cons]
  split <;> simp_all

/-- When no other process has the least index, the process that is removed is the oldest one. -/
theorem oldest_of_oneLeast (hq : entries q = rq.entries a e) (hok : PrioOk rq a e)
    (hone : PrioCmd.out.OneLeast rq) (hleast : Least (rq.entries a e) (x, i)) :
    ∃ xs, q i = x :: xs := by
  have hmem : x ∈ q i := by
    have := hleast.1
    rwa [← hq, mem_entries] at this
  cases hqi : q i with
  | nil =>
    rw [hqi] at hmem
    cases hmem
  | cons y xs =>
    have hy : Least rq.allEntries (y, i) := by
      rw [hok.allEntries]
      refine ⟨?_, hleast.2⟩
      rw [← hq, mem_entries, hqi]
      exact List.mem_cons_self
    have hx : Least rq.allEntries (x, i) := by
      rw [hok.allEntries]
      exact hleast
    cases hone _ _ hx hy
    exact ⟨xs, rfl⟩

/-! ## Runs -/

theorem insertedAt_cons (i : Fin maxPrio) (cmd : PrioCmd α) (cmds : List (PrioCmd α)) :
    insertedAt i (cmd :: cmds) = insertedAt i [cmd] ++ insertedAt i cmds := by
  cases cmd with
  | insert p c =>
    simp only [insertedAt]
    split <;> rfl
  | peek => rfl
  | out => rfl

theorem outs_cons (cmd : PrioCmd α) (cmds : List (PrioCmd α)) (reply : PrioReply α)
    (replies : List (PrioReply α)) :
    outs (cmd :: cmds) (reply :: replies) = outs [cmd] [reply] ++ outs cmds replies := by
  cases cmd with
  | insert p c => rfl
  | peek => rfl
  | out =>
    cases reply with
    | done => rfl
    | pcb r => cases r <;> rfl

theorem servedAt_append (i : Fin maxPrio) (now later : List (α × Fin maxPrio)) :
    servedAt i (now ++ later) = servedAt i now ++ servedAt i later := by
  simp [servedAt]

/-- One command, whose removal meets one process of the least index: what it serves and what stays
queued is, for each index, what was queued and what it inserts. -/
theorem PrioCmd.exec_serves {cmd : PrioCmd α} (hvalid : cmd.Valid) (hone : cmd.OneLeast rq)
    (hok : PrioOk rq a e) (hq : entries q = rq.entries a e) :
    ∃ reply rq₁ a₁ e₁ q₁ now, cmd.exec rq = .ok (reply, rq₁) ∧ PrioOk rq₁ a₁ e₁ ∧
      entries q₁ = rq₁.entries a₁ e₁ ∧ now.map Prod.fst = outs [cmd] [reply] ∧
      ∀ i, servedAt i now ++ q₁ i = q i ++ insertedAt i [cmd] := by
  cases cmd with
  | insert p c =>
    obtain ⟨rq₁, hin, hok₁, hent⟩ := rqPrioFifoIn_spec hok p hvalid
    refine ⟨.done, rq₁, _, _, Function.update q (prioIndex c) (q (prioIndex c) ++ [p]), [],
      by simp [PrioCmd.exec, hin], hok₁, by rw [entries_push, hq, hent], rfl, fun i => ?_⟩
    by_cases hi : prioIndex c = i
    · subst hi
      simp [insertedAt, servedAt]
    · simp [insertedAt, servedAt, hi, Function.update_of_ne (Ne.symm hi)]
  | peek =>
    obtain ⟨r, rq₁, a₁, e₁, hpeek, hok₁, hent, -⟩ := rqPrioFifoPeek_spec hok
    exact ⟨.pcb r, rq₁, a₁, e₁, q, [], by simp [PrioCmd.exec, hpeek], hok₁, hq.trans hent.symm,
      rfl, fun i => by simp [insertedAt, servedAt]⟩
  | out =>
    obtain ⟨r, rq₁, a₁, e₁, hout, hok₁, -, hcases⟩ := rqPrioFifoOut_spec hok
    have hexec : PrioCmd.out.exec rq = .ok (.pcb r, rq₁) := by simp [PrioCmd.exec, hout]
    obtain ⟨rfl, h0, h0'⟩ | ⟨x, i, rfl, hleast, hent⟩ := hcases
    · exact ⟨.pcb none, rq₁, a₁, e₁, q, [], hexec, hok₁, hq.trans (h0.trans h0'.symm), rfl,
        fun i => by simp [insertedAt, servedAt]⟩
    · obtain ⟨xs, hqi⟩ := oldest_of_oneLeast hq hok hone hleast
      have hq₁ : entries (Function.update q i xs) = rq₁.entries a₁ e₁ := by
        have htail := entries_tail hqi
        rw [hq, ← hent] at htail
        exact (add_right_cancel htail).symm
      refine ⟨.pcb (some x), rq₁, a₁, e₁, Function.update q i xs, [(x, i)], hexec, hok₁, hq₁, rfl,
        fun j => ?_⟩
      rw [servedAt_cons]
      by_cases hij : i = j
      · subst hij
        simp [insertedAt, servedAt, hqi]
      · simp [insertedAt, servedAt, hij, Function.update_of_ne (Ne.symm hij)]

/-- A run whose removals meet one process of the least index serves the oldest processes of each
index first. The induction is over the commands; `q` holds the processes that are still queued. -/
theorem prio_order (cmds : List (PrioCmd α)) (hvalid : ∀ cmd ∈ cmds, cmd.Valid)
    (hok : PrioOk rq a e) (hq : entries q = rq.entries a e)
    (hmeets : Machine.Meets PrioCmd.exec PrioCmd.OneLeast cmds rq) :
    ∃ replies rq' served, Machine.run PrioCmd.exec cmds rq = .ok (replies, rq') ∧
      served.map Prod.fst = outs cmds replies ∧
      ∀ i, servedAt i served <+: q i ++ insertedAt i cmds := by
  induction cmds generalizing rq a e q with
  | nil => exact ⟨[], rq, [], rfl, rfl, fun i => List.nil_prefix⟩
  | cons cmd cmds ih =>
    obtain ⟨hone, hrest⟩ := hmeets
    rw [List.forall_mem_cons] at hvalid
    obtain ⟨reply, rq₁, a₁, e₁, q₁, now, hexec, hok₁, hq₁, hnow, hqueued⟩ :=
      PrioCmd.exec_serves hvalid.1 hone hok hq
    obtain ⟨replies, rq', served, hrun, hserved, horder⟩ :=
      ih hvalid.2 hok₁ hq₁ (hrest _ _ hexec)
    refine ⟨reply :: replies, rq', now ++ served,
      Machine.run_cons_eq_ok.2 ⟨_, _, _, hexec, hrun, rfl⟩, ?_, fun i => ?_⟩
    · rw [List.map_append, hnow, hserved]
      exact (outs_cons cmd cmds reply replies).symm
    · rw [servedAt_append, insertedAt_cons i cmd, ← List.append_assoc, ← hqueued,
        List.append_assoc]
      exact (List.prefix_append_right_inj _).2 (horder i)

/-- Where one process has the least index, a removal right after a peek returns what the peek
returned. -/
theorem peek_out_agree {rq₁ rq₂ : RtRunqueue α} {r r' : Option α} (hok : PrioOk rq a e)
    (hpeek : rqPrioFifoPeek rq = .ok (r, rq₁)) (hout : rqPrioFifoOut rq₁ = .ok (r', rq₂))
    (hone : PrioCmd.out.OneLeast rq₁) : r = r' := by
  obtain ⟨s, rq₁', a₁, e₁, hpeek', hok₁, hent, hs⟩ := rqPrioFifoPeek_spec hok
  rw [hpeek] at hpeek'
  cases hpeek'
  obtain ⟨s', rq₂', a₂, e₂, hout', -, -, hs'⟩ := rqPrioFifoOut_spec hok₁
  rw [hout] at hout'
  cases hout'
  rw [← hent] at hs
  rcases hs with ⟨rfl, h0⟩ | ⟨x, i, rfl, hx⟩
  · rcases hs' with ⟨rfl, -⟩ | ⟨y, j, -, hy, -⟩
    · rfl
    · rw [h0] at hy
      cases hy.1
  · rcases hs' with ⟨-, h0, -⟩ | ⟨y, j, rfl, hy, -⟩
    · rw [h0] at hx
      cases hx.1
    · have hxy := hone (x, i) (y, j) (hok₁.allEntries ▸ hx) (hok₁.allEntries ▸ hy)
      exact congrArg (fun z => some z.1) hxy

/-- A run whose removals meet one process of the least index agrees with its peeks. -/
theorem peekOutAgree_of_meets {replies : List (PrioReply α)} (hvalid : ∀ cmd ∈ cmds, cmd.Valid)
    (hok : PrioOk rq a e) (hmeets : Machine.Meets PrioCmd.exec PrioCmd.OneLeast cmds rq)
    (hrun : Machine.run PrioCmd.exec cmds rq = .ok (replies, rq')) : PeekOutAgree cmds replies := by
  induction cmds generalizing rq a e replies with
  | nil => simp [PeekOutAgree]
  | cons cmd cmds ih =>
    rw [List.forall_mem_cons] at hvalid
    obtain ⟨r, rq₁, replies₁, hexec, hrun₁, rfl⟩ := Machine.run_cons_eq_ok.1 hrun
    obtain ⟨r', rq₁', a₁, e₁, taken, hexec', hok₁, -⟩ := cmd.exec_spec hok hvalid.1
    rw [hexec] at hexec'
    cases hexec'
    have hagree := ih hvalid.2 hok₁ (hmeets.2 _ _ hexec) hrun₁
    cases cmd with
    | insert p c => simpa [PeekOutAgree] using hagree
    | out => simpa [PeekOutAgree] using hagree
    | peek =>
      cases cmds with
      | nil => simp [PeekOutAgree]
      | cons cmd' cmds =>
        cases cmd' with
        | insert p c => simpa [PeekOutAgree] using hagree
        | peek => simpa [PeekOutAgree] using hagree
        | out =>
          obtain ⟨r', rq₂, replies₂, hexec', -, rfl⟩ := Machine.run_cons_eq_ok.1 hrun₁
          refine ⟨?_, hagree⟩
          obtain ⟨⟨s, t⟩, hpeek, hret⟩ := Outcome.bind_eq_ok.1 hexec
          cases hret
          obtain ⟨⟨s', t'⟩, hout, hret⟩ := Outcome.bind_eq_ok.1 hexec'
          cases hret
          rw [peek_out_agree hok hpeek hout (hmeets.2 _ _ hexec).1]

/-- From `runqueue_init`, when no removal meets two processes of the least priority index, processes
of one index leave in the order they were inserted, and a removal right after a peek returns the
same process. Reference: `src/scheduler_priority_fifo.c:8-110`. -/
theorem rqPrioFifo_fifo (runq : RtRunqueue α) (cmds : List (PrioCmd α))
    (hvalid : ∀ cmd ∈ cmds, cmd.Valid)
    (hmeets : Machine.Meets PrioCmd.exec PrioCmd.OneLeast cmds (runqueueInit runq)) :
    ServesInOrder cmds (runqueueInit runq) := by
  obtain ⟨hok, hzero⟩ := runqueueInit_ok runq
  have hq : entries (fun _ => ([] : List α)) = (runqueueInit runq).entries (.array 0) (.array 1) :=
    entries_empty.trans hzero.symm
  obtain ⟨replies, rq, served, hrun, hserved, hprefix⟩ := prio_order cmds hvalid hok hq hmeets
  exact ⟨replies, rq, served, hrun, hserved, hprefix, peekOutAgree_of_meets hvalid hok hmeets hrun⟩

/-- Two processes of one index, one after the other. -/
theorem rqPrioFifo_fifo_two :
    ServesInOrder [.insert 1 30, .peek, .out, .insert (2 : Nat) 19, .out]
      (runqueueInit ⟨0, none, none, fun _ => prioArrayInit⟩) := by
  refine rqPrioFifo_fifo _ _ (by simp [PrioCmd.Valid]) ?_
  refine Machine.Meets.cons trivial rfl (Machine.Meets.cons trivial rfl
    (Machine.Meets.cons ?_ rfl
      (Machine.Meets.cons trivial rfl (Machine.Meets.cons ?_ rfl trivial))))
  · refine oneLeast_of_card_le_one ?_
    decide
  · refine oneLeast_of_card_le_one ?_
    decide

/-- Of two processes of one index the later one leaves first, and not the one that the peek
returned. -/
theorem rqPrioFifo_not_fifo :
    ∃ rq, Machine.run PrioCmd.exec [.insert 1 0, .insert 2 0, .peek, .out]
        (runqueueInit ⟨0, none, none, fun _ => prioArrayInit⟩) =
        .ok ([.done, .done, .pcb (some 1), .pcb (some 2)], rq) ∧
      ¬ ServesInOrder [.insert 1 0, .insert (2 : Nat) 0, .peek, .out]
        (runqueueInit ⟨0, none, none, fun _ => prioArrayInit⟩) := by
  refine ⟨_, rfl, ?_⟩
  rintro ⟨replies, rq, served, hrun, -, -, hagree⟩
  cases hrun
  exact absurd hagree.1 (by decide)

end SeKernel
