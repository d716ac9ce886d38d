import SeKernel.Lib.Machine
import SeKernel.RunQueue.Basic

/-!
# The priority run queue over whole runs

`PrioOk` is the invariant: `active` and `expired` are two different arrays and each `nr_active` is
the number of processes in its array. Every operation keeps it and is an equation between
multisets of entries (process and queue index). After `_rq_prio_fifo_update_sched` the active array
undercuts the expired one (`Undercuts`), so the first nonempty list of the active array holds the
least index of both.
-/

namespace SeKernel

open Buckets

variable {α : Type}

/-- The processes of an array with their queue index. -/
def RtPrioArray.entries (arr : RtPrioArray α) : Multiset (α × Fin maxPrio) :=
  Buckets.entries arr.queue

/-- The counter of an array is the sum of the lengths of its queues. -/
def RtPrioArray.Counted (arr : RtPrioArray α) : Prop := arr.nrActive = ∑ i, (arr.queue i).length

/-- The processes of both arrays with their queue index. -/
def RtRunqueue.entries (rq : RtRunqueue α) (a e : PrioArrayRef) : Multiset (α × Fin maxPrio) :=
  (rq.arrays a).entries + (rq.arrays e).entries

/-- The process that is next to leave: of those with the least index, the last one in the list of
the active array and then that of the expired one. -/
def RtRunqueue.next? (rq : RtRunqueue α) (a e : PrioArrayRef) : Option α :=
  lastOfFirst fun i => (rq.arrays a).queue i ++ (rq.arrays e).queue i

/-- The run queue's invariant: `a` and `e` are its active and its expired array, two different
arrays with exact counters. -/
structure PrioOk (rq : RtRunqueue α) (a e : PrioArrayRef) : Prop where
  active : rq.active = some a
  expired : rq.expired = some e
  ne : a ≠ e
  activeCounted : (rq.arrays a).Counted
  expiredCounted : (rq.arrays e).Counted

/-- The entries of the array that a pointer leads to, none when the pointer was never set. -/
def RtRunqueue.behind (rq : RtRunqueue α) : Option PrioArrayRef → Multiset (α × Fin maxPrio)
  | some r => (rq.arrays r).entries
  | none => 0

/-- The entries of the arrays that `active` and `expired` lead to. -/
def RtRunqueue.allEntries (rq : RtRunqueue α) : Multiset (α × Fin maxPrio) :=
  rq.behind rq.active + rq.behind rq.expired

/-- Every process of the second array has one of at most its index in the first. -/
def Undercuts (m m' : Multiset (α × Fin maxPrio)) : Prop := ∀ y ∈ m', ∃ x ∈ m, x.2 ≤ y.2

/-- The queue index of a priority, `min(current_priority, MAX_PRIO - 1)`. -/
def prioIndex (currentPriority : Int) : Fin maxPrio :=
  ⟨min currentPriority.toNat (maxPrio - 1), (Nat.min_le_right _ _).trans_lt (by decide)⟩

section
variable {rq : RtRunqueue α} {a e : PrioArrayRef} {arr : RtPrioArray α}

/-! ## Arrays -/

@[simp] theorem RtPrioArray.setQueue_nrActive (i : Fin maxPrio) (xs : List α) :
    (arr.setQueue i xs).nrActive = arr.nrActive := rfl

@[simp] theorem RtPrioArray.addActive_nrActive (k : Int) :
    (arr.addActive k).nrActive = arr.nrActive + k := rfl

@[simp] theorem RtRunqueue.modify_arrays_self (f : RtPrioArray α → RtPrioArray α) :
    (rq.modify a f).arrays a = f (rq.arrays a) := Function.update_self _ _ _

theorem RtRunqueue.modify_arrays_of_ne (f : RtPrioArray α → RtPrioArray α) (h : e ≠ a) :
    (rq.modify a f).arrays e = rq.arrays e := Function.update_of_ne h _ _

/-- Exactness of the counter in terms of the entries. -/
theorem RtPrioArray.counted_iff : arr.Counted ↔ arr.nrActive = Multiset.card arr.entries := by
  rw [RtPrioArray.entries, card_entries]
  exact Iff.rfl

/-- A counter that is exact is zero on the empty array only. -/
theorem RtPrioArray.Counted.eq_zero (h : arr.Counted) : arr.nrActive = 0 ↔ arr.entries = 0 := by
  rw [counted_iff.1 h, Int.natCast_eq_zero, Multiset.card_eq_zero]

/-- The index scan of an array with a nonzero exact counter finds a nonempty list. Reference:
`get_first_not_empty_list_index` (`src/scheduler_priority_fifo.c:112`). -/
theorem RtPrioArray.Counted.first (h : arr.Counted) (hne : arr.nrActive ≠ 0) :
    ∃ i, first arr.queue = some i ∧ queueIndex (getFirstNotEmptyListIndex arr.queue) = .ok i := by
  cases hf : Buckets.first arr.queue with
  | none => exact absurd (h.eq_zero.2 (first_eq_none.1 hf)) hne
  | some i =>
    refine ⟨i, rfl, ?_⟩
    have hi : (0 : Int) ≤ i.val ∧ (i.val : Int) < maxPrio := ⟨by omega, by exact_mod_cast i.isLt⟩
    simp only [getFirstNotEmptyListIndex, hf, queueIndex, hi, and_self, dif_pos]
    rfl

/-- A nonempty list has a last element. -/
theorem linkedlistPop_of_ne_nil {xs : List α} (h : xs ≠ []) :
    ∃ ys x, xs = ys ++ [x] ∧ Seq.linkedlistPop xs = (some x, ys) := by
  refine ⟨xs.dropLast, xs.getLast h, (List.dropLast_append_getLast h).symm, ?_⟩
  rw [Seq.linkedlistPop, List.getLast?_eq_some_getLast h]

/-- A nonempty list has a first element. -/
theorem linkedlistGetFirst_of_ne_nil {xs : List α} (h : xs ≠ []) :
    ∃ x ∈ xs, Seq.linkedlistGetFirst xs = some x := by
  obtain ⟨x, ys, rfl⟩ := List.exists_cons_of_ne_nil h
  exact ⟨x, by simp, rfl⟩

theorem PrioOk.allEntries (hok : PrioOk rq a e) : rq.allEntries = rq.entries a e := by
  rw [RtRunqueue.allEntries, hok.active, hok.expired]
  rfl

/-! ## The operations -/

/-- `runqueue_init` sets the invariant up, with no process. Reference: `runqueue_init`
(`src/runqueues.c:10`). -/
theorem runqueueInit_ok (runq : RtRunqueue α) :
    PrioOk (runqueueInit runq) (.array 0) (.array 1) ∧
      (runqueueInit runq).entries (.array 0) (.array 1) = 0 := by
  have h0 : (runqueueInit runq).arrays (.array 0) = prioArrayInit := by simp [runqueueInit]
  have h1 : (runqueueInit runq).arrays (.array 1) = prioArrayInit := by simp [runqueueInit]
  have hent : (prioArrayInit : RtPrioArray α).entries = 0 := entries_empty
  have hcount : (prioArrayInit : RtPrioArray α).Counted := by
    rw [RtPrioArray.counted_iff, hent]
    rfl
  refine ⟨⟨rfl, rfl, by decide, h0 ▸ hcount, h1 ▸ hcount⟩, ?_⟩
  rw [RtRunqueue.entries, h0, h1, hent, add_zero]

/-- The index that an insertion computes. -/
theorem queueIndex_prioIndex {c : Int} (hc : 0 ≤ c) :
    queueIndex (if (maxPrio : Int) ≤ c then maxPrio - 1 else c) = .ok (prioIndex c) := by
  have hmax : (maxPrio : Int) = 20 := rfl
  unfold queueIndex prioIndex
  split
  · rw [dif_pos (by omega)]
    simp only [Outcome.pure_eq, Except.ok.injEq, Fin.mk.injEq]
    omega
  · rw [dif_pos (by omega)]
    simp only [Outcome.pure_eq, Except.ok.injEq, Fin.mk.injEq]
    omega

/-- An insertion adds one entry. Reference: `rq_prio_fifo_in`
(`src/scheduler_priority_fifo.c:8`). -/
theorem rqPrioFifoIn_spec (hok : PrioOk rq a e) (p : α) {c : Int} (hc : 0 ≤ c) :
    ∃ rq', rqPrioFifoIn rq p c = .ok rq' ∧ PrioOk rq' a e ∧
      rq'.entries a e = rq.entries a e + {(p, prioIndex c)} := by
  let expired' : RtPrioArray α :=
    ((rq.arrays e).setQueue (prioIndex c) ((rq.arrays e).queue (prioIndex c) ++ [p])).addActive 1
  let rq' := rq.modify e fun _ => expired'
  have harr_e : rq'.arrays e = expired' := RtRunqueue.modify_arrays_self _
  have harr_a : rq'.arrays a = rq.arrays a := RtRunqueue.modify_arrays_of_ne _ hok.ne
  have hent_e : expired'.entries = (rq.arrays e).entries + {(p, prioIndex c)} := entries_push _ _ _
  refine ⟨rq', ?_, ⟨hok.active, hok.expired, hok.ne, ?_, ?_⟩, ?_⟩
  · simp only [rqPrioFifoIn, hok.expired, followArray, Outcome.pure_eq, Outcome.ok_bind,
      queueIndex_prioIndex hc]
    rfl
  · rw [harr_a]
    exact hok.activeCounted
  · have hcount := RtPrioArray.counted_iff.1 hok.expiredCounted
    rw [harr_e, RtPrioArray.counted_iff, hent_e]
    simp [expired', hcount]
  · rw [RtRunqueue.entries, harr_a, harr_e, hent_e, RtRunqueue.entries, add_assoc]

/-- With an empty active array the update exchanges the arrays. Reference:
`_rq_prio_fifo_update_sched` (`src/scheduler_priority_fifo.c:88`). -/
theorem rqPrioFifoUpdateSched_exchange (hok : PrioOk rq a e) (he : (rq.arrays e).nrActive ≠ 0)
    (ha : (rq.arrays a).nrActive = 0) :
    ∃ rq', rqPrioFifoUpdateSched rq = .ok (1, rq') ∧ PrioOk rq' e a ∧
      rq'.entries e a = rq.entries a e ∧
      Undercuts (rq'.arrays e).entries (rq'.arrays a).entries ∧
      lastOfFirst (rq'.arrays e).queue = rq.next? a e := by
  have hent := hok.activeCounted.eq_zero.1 ha
  have hnext : lastOfFirst (rq.arrays e).queue = rq.next? a e :=
    congrArg lastOfFirst (append_of_entries_eq_zero hent).2.symm
  refine ⟨{ rq with active := some e, expired := some a }, ?_, ?_, add_comm _ _, ?_, hnext⟩
  · simp [rqPrioFifoUpdateSched, hok.expired, hok.active, followArray, he, ha]
  · exact ⟨rfl, rfl, hok.ne.symm, hok.expiredCounted, hok.activeCounted⟩
  · intro y hy
    dsimp only at hy
    rw [hent] at hy
    cases hy

/-- With two nonempty arrays the update moves a process of least index of the expired one.
Reference: `_rq_prio_fifo_update_sched` (`src/scheduler_priority_fifo.c:88`). -/
theorem rqPrioFifoUpdateSched_move (hok : PrioOk rq a e) (he : (rq.arrays e).nrActive ≠ 0)
    (ha : (rq.arrays a).nrActive ≠ 0) :
    ∃ rq', rqPrioFifoUpdateSched rq = .ok (1, rq') ∧ PrioOk rq' a e ∧
      rq'.entries a e = rq.entries a e ∧
      Undercuts (rq'.arrays a).entries (rq'.arrays e).entries ∧
      lastOfFirst (rq'.arrays a).queue = rq.next? a e := by
  obtain ⟨i, hfirst, hidx⟩ := hok.expiredCounted.first he
  obtain ⟨rest, p, hq, hpop⟩ := linkedlistPop_of_ne_nil (first_spec hfirst).1
  -- what the four updates make of the two arrays
  let expired' : RtPrioArray α := ((rq.arrays e).setQueue i rest).addActive (-1)
  let active' : RtPrioArray α :=
    ((rq.arrays a).setQueue i ((rq.arrays a).queue i ++ [p])).addActive 1
  have hent_e : (rq.arrays e).entries = expired'.entries + {(p, i)} := entries_pop hq
  have hent_a : active'.entries = (rq.arrays a).entries + {(p, i)} := entries_push _ _ _
  let rq₁ := rq.modify e fun arr => arr.setQueue i rest
  let rq₂ := rq₁.modify a fun arr => arr.setQueue i (Seq.linkedlistPush (arr.queue i) p)
  let rq₃ := rq₂.modify e fun arr => arr.addActive (-1)
  let rq₄ := rq₃.modify a fun arr => arr.addActive 1
  have harr_e : rq₄.arrays e = expired' := by
    rw [RtRunqueue.modify_arrays_of_ne _ hok.ne.symm, RtRunqueue.modify_arrays_self,
      RtRunqueue.modify_arrays_of_ne _ hok.ne.symm, RtRunqueue.modify_arrays_self]
  have harr_a : rq₄.arrays a = active' := by
    rw [RtRunqueue.modify_arrays_self, RtRunqueue.modify_arrays_of_ne _ hok.ne,
      RtRunqueue.modify_arrays_self, RtRunqueue.modify_arrays_of_ne _ hok.ne]
    rfl
  have hcount_e := RtPrioArray.counted_iff.1 hok.expiredCounted
  have hcount_a := RtPrioArray.counted_iff.1 hok.activeCounted
  refine ⟨rq₄, ?_, ⟨hok.active, hok.expired, hok.ne, ?_, ?_⟩, ?_, ?_, ?_⟩
  · simp only [rqPrioFifoUpdateSched, hok.expired, hok.active, followArray, Outcome.pure_eq,
      Outcome.ok_bind, he, ha, if_false, hidx, hpop]
    rfl
  · rw [harr_a, RtPrioArray.counted_iff, hent_a]
    simp [active', hcount_a]
  · rw [harr_e, RtPrioArray.counted_iff]
    rw [hent_e, Multiset.card_add, Multiset.card_singleton] at hcount_e
    simp only [expired', RtPrioArray.addActive_nrActive,
      RtPrioArray.setQueue_nrActive] at hcount_e ⊢
    omega
  · rw [RtRunqueue.entries, harr_a, harr_e, hent_a, RtRunqueue.entries, hent_e]
    abel
  · rw [harr_a, harr_e]
    intro y hy
    have hleast := (least_of_first hfirst (x := p) (by rw [hq]; simp)).2 y
    refine ⟨(p, i), by rw [hent_a]; simp, hleast ?_⟩
    have : y ∈ expired'.entries + {(p, i)} := Multiset.mem_add.2 (.inl hy)
    rwa [← hent_e] at this
  · rw [harr_a]
    exact lastOfFirst_move hfirst hq

/-- The update keeps the invariant and the processes, and leaves an active array that undercuts the
expired one and has the next process last in its first list. Its three cases are an empty expired
array, an exchange of the arrays, and the move of a process of least index. Reference:
`_rq_prio_fifo_update_sched` (`src/scheduler_priority_fifo.c:88`). -/
theorem rqPrioFifoUpdateSched_spec (hok : PrioOk rq a e) :
    ∃ r rq' a' e', rqPrioFifoUpdateSched rq = .ok (r, rq') ∧ PrioOk rq' a' e' ∧
      rq'.entries a' e' = rq.entries a e ∧
      Undercuts (rq'.arrays a').entries (rq'.arrays e').entries ∧
      lastOfFirst (rq'.arrays a').queue = rq.next? a e := by
  by_cases he : (rq.arrays e).nrActive = 0
  · have hent := hok.expiredCounted.eq_zero.1 he
    have hnext : lastOfFirst (rq.arrays a).queue = rq.next? a e :=
      congrArg lastOfFirst (append_of_entries_eq_zero hent).1.symm
    refine ⟨0, rq, a, e, ?_, hok, rfl, ?_, hnext⟩
    · simp [rqPrioFifoUpdateSched, hok.expired, followArray, he]
    · intro y hy
      rw [hent] at hy
      cases hy
  · by_cases ha : (rq.arrays a).nrActive = 0
    · obtain ⟨rq', hupdate⟩ := rqPrioFifoUpdateSched_exchange hok he ha
      exact ⟨1, rq', e, a, hupdate⟩
    · obtain ⟨rq', hupdate⟩ := rqPrioFifoUpdateSched_move hok he ha
      exact ⟨1, rq', a, e, hupdate⟩

/-- An array that undercuts the other one holds the least entries of both. -/
theorem Undercuts.least (h : Undercuts (rq.arrays a).entries (rq.arrays e).entries)
    {i : Fin maxPrio}
    (hfirst : first (rq.arrays a).queue = some i) {x : α} (hx : x ∈ (rq.arrays a).queue i) :
    Least (rq.entries a e) (x, i) := by
  have hleast := least_of_first hfirst hx
  refine hleast.add_right fun y hy => ?_
  obtain ⟨z, hz, hzy⟩ := h y hy
  exact (hleast.2 z hz).trans hzy

/-- An undercutting array is empty only when both are. -/
theorem Undercuts.eq_zero (h : Undercuts (rq.arrays a).entries (rq.arrays e).entries)
    (ha : (rq.arrays a).entries = 0) : rq.entries a e = 0 := by
  rw [RtRunqueue.entries, ha, zero_add]
  refine Multiset.eq_zero_of_forall_notMem fun y hy => ?_
  obtain ⟨x, hx, -⟩ := h y hy
  rw [ha] at hx
  cases hx

/-- A peek keeps the processes; it answers `NULL` on the empty queue and a process of least index
otherwise. Reference: `rq_prio_fifo_peek` (`src/scheduler_priority_fifo.c:33`). -/
theorem rqPrioFifoPeek_spec (hok : PrioOk rq a e) :
    ∃ r rq' a' e', rqPrioFifoPeek rq = .ok (r, rq') ∧ PrioOk rq' a' e' ∧
      rq'.entries a' e' = rq.entries a e ∧
      (r = none ∧ rq.entries a e = 0 ∨ ∃ x i, r = some x ∧ Least (rq.entries a e) (x, i)) := by
  obtain ⟨n, rq', a', e', hupd, hok', hent, hcut, -⟩ := rqPrioFifoUpdateSched_spec hok
  by_cases ha : (rq'.arrays a').nrActive = 0
  · refine ⟨none, rq', a', e', ?_, hok', hent, .inl ⟨rfl, ?_⟩⟩
    · simp [rqPrioFifoPeek, hupd, hok'.active, followArray, ha]
    · rw [← hent]
      exact hcut.eq_zero (hok'.activeCounted.eq_zero.1 ha)
  · obtain ⟨i, hfirst, hidx⟩ := hok'.activeCounted.first ha
    obtain ⟨x, hx, hget⟩ := linkedlistGetFirst_of_ne_nil (first_spec hfirst).1
    refine ⟨some x, rq', a', e', ?_, hok', hent, .inr ⟨x, i, rfl, ?_⟩⟩
    · simp [rqPrioFifoPeek, hupd, hok'.active, followArray, ha, hidx, hget]
    · rw [← hent]
      exact hcut.least hfirst hx

/-- Taking the last process of a list out of the active array keeps the invariant and removes one
entry. -/
theorem PrioOk.take {rq' : RtRunqueue α} {i : Fin maxPrio} {rest : List α} {x : α}
    (hok : PrioOk rq a e) (hq : (rq.arrays a).queue i = rest ++ [x])
    (hactive : rq'.active = rq.active) (hexpired : rq'.expired = rq.expired)
    (harr_a : rq'.arrays a = ((rq.arrays a).addActive (-1)).setQueue i rest)
    (harr_e : rq'.arrays e = rq.arrays e) :
    PrioOk rq' a e ∧ rq'.entries a e + {(x, i)} = rq.entries a e := by
  have hent : (rq.arrays a).entries = (rq'.arrays a).entries + {(x, i)} := by
    rw [harr_a]
    exact entries_pop hq
  have hcount := RtPrioArray.counted_iff.1 hok.activeCounted
  rw [hent, Multiset.card_add, Multiset.card_singleton] at hcount
  refine ⟨⟨hactive.trans hok.active, hexpired.trans hok.expired, hok.ne, ?_, ?_⟩, ?_⟩
  · rw [RtPrioArray.counted_iff]
    have hless : (rq'.arrays a).nrActive = (rq.arrays a).nrActive - 1 := by
      rw [harr_a, RtPrioArray.setQueue_nrActive, RtPrioArray.addActive_nrActive]
      rfl
    omega
  · rw [harr_e]
    exact hok.expiredCounted
  · rw [RtRunqueue.entries, RtRunqueue.entries, harr_e, hent]
    abel

/-- Taking a process out answers `NULL` on the empty queue; otherwise it removes an entry of least
index, the next one. Reference: `rq_prio_fifo_out` (`src/scheduler_priority_fifo.c:45`). -/
theorem rqPrioFifoOut_spec (hok : PrioOk rq a e) :
    ∃ r rq' a' e', rqPrioFifoOut rq = .ok (r, rq') ∧ PrioOk rq' a' e' ∧ r = rq.next? a e ∧
      (r = none ∧ rq.entries a e = 0 ∧ rq'.entries a' e' = 0 ∨
        ∃ x i, r = some x ∧ Least (rq.entries a e) (x, i) ∧
          rq'.entries a' e' + {(x, i)} = rq.entries a e) := by
  obtain ⟨n, rq', a', e', hupd, hok', hent, hcut, hnext⟩ := rqPrioFifoUpdateSched_spec hok
  rw [← hnext]
  by_cases ha : (rq'.arrays a').nrActive = 0
  · have hempty := hok'.activeCounted.eq_zero.1 ha
    have hzero := hcut.eq_zero hempty
    refine ⟨none, rq', a', e', ?_, hok', ?_, .inl ⟨rfl, hent ▸ hzero, hzero⟩⟩
    · simp [rqPrioFifoOut, hupd, hok'.active, followArray, ha]
    · rw [lastOfFirst, first_eq_none.2 hempty]
      rfl
  · obtain ⟨i, hfirst, hidx⟩ := hok'.activeCounted.first ha
    obtain ⟨rest, x, hq, hpop⟩ := linkedlistPop_of_ne_nil (first_spec hfirst).1
    -- the counters are decremented first, then the list is popped
    let rq₁ : RtRunqueue α := rq'.modify a' fun arr => arr.addActive (-1)
    let rq₂ : RtRunqueue α := { rq₁ with nrRunning := rq₁.nrRunning - 1 }
    let rq₃ : RtRunqueue α := rq₂.modify a' fun arr => arr.setQueue i rest
    have harr₂ : rq₂.arrays a' = (rq'.arrays a').addActive (-1) :=
      RtRunqueue.modify_arrays_self fun arr => arr.addActive (-1)
    have harr_a : rq₃.arrays a' = ((rq'.arrays a').addActive (-1)).setQueue i rest := by
      rw [RtRunqueue.modify_arrays_self, harr₂]
    have harr₂_e : rq₂.arrays e' = rq'.arrays e' :=
      RtRunqueue.modify_arrays_of_ne (fun arr => arr.addActive (-1)) hok'.ne.symm
    have harr_e : rq₃.arrays e' = rq'.arrays e' := by
      rw [RtRunqueue.modify_arrays_of_ne _ hok'.ne.symm, harr₂_e]
    have hactive : rq₃.active = rq'.active := rfl
    obtain ⟨hok₃, hent₃⟩ := hok'.take hq hactive rfl harr_a harr_e
    refine ⟨some x, rq₃, a', e', ?_, hok₃, (lastOfFirst_eq hq (first_spec hfirst).2).symm,
      .inr ⟨x, i, rfl, ?_, hent₃.trans hent⟩⟩
    · have hidx₂ : queueIndex (getFirstNotEmptyListIndex (rq₂.arrays a').queue) = .ok i := by
        rw [harr₂]
        exact hidx
      have hpop₂ : Seq.linkedlistPop ((rq₂.arrays a').queue i) = (some x, rest) := by
        rw [harr₂]
        exact hpop
      simp only [rqPrioFifoOut, hupd, Outcome.ok_bind, hok'.active, followArray, Outcome.pure_eq,
        ne_eq, ha, not_false_eq_true, if_true]
      rw [hidx₂, Outcome.ok_bind, hpop₂]
    · rw [← hent]
      exact hcut.least hfirst (by rw [hq]; simp)

end

end SeKernel
