import SeKernel.LinkedList.Family
import SeKernel.RunQueue.Nodes
import SeKernel.Scheduler.BackEnds

/-!
# The run queues over list nodes are the run queues

Each call of the scheduler's queue interface does to the nodes what it does to the sequences that
the rest of the development works with: it answers the same process, or stops at the same fault, and
leaves nodes that hold the new sequences, with nothing else of the heap allocated, freed or changed
(`iSched_over_nodes`). The only excuse is a `malloc` that answers with an address in use.
-/

namespace SeKernel.Nodes

open Doubly LinkedList

/-- The lists of the arrays in `live` hold the sequences of `t` in one heap, which is `base` but for
their nodes; the counters and pointers are those of `t`, and the pointers lead to such arrays. -/
structure PrioHolds (base : Heap) (live : Set PrioArrayRef) (s : RtRunqueue) (h : Heap)
    (t : SeKernel.RtRunqueue VoidPtr) : Prop where
  nrRunning : s.nrRunning = t.nrRunning
  active : s.active = t.active
  expired : s.expired = t.expired
  activeLive : ∀ r, t.active = some r → r ∈ live
  expiredLive : ∀ r, t.expired = some r → r ∈ live
  nrActive : ∀ r ∈ live, (s.arrays r).nrActive = (t.arrays r).nrActive
  nodes : ∃ xs, Family {i : PrioArrayRef × Fin maxPrio | i.1 ∈ live} base h
      (fun i => (s.arrays i.1).queue i.2) xs ∧
    ∀ i, i.1 ∈ live → datas (xs i) = (t.arrays i.1).queue i.2

/-- The list of a simple queue holds the sequence of `t`. -/
structure SimpleHolds (base : Heap) (s : RtSimpleRunqueue) (h : Heap)
    (t : SeKernel.RtSimpleRunqueue VoidPtr) : Prop where
  nrRunning : s.nrRunning = t.nrRunning
  nodes : ∃ xs, Family Set.univ base h (fun _ : Unit => s.active) xs ∧ datas (xs ()) = t.active

variable {base h : Heap} {live : Set PrioArrayRef} {s : RtRunqueue}
  {t : SeKernel.RtRunqueue VoidPtr} {r : PrioArrayRef} {i : Fin maxPrio} {d : VoidPtr}

/-! ## One list -/

/-- A list that is represented is empty when it has no data. -/
theorem length_eq_zero {l : LinkedlistStructure} {xs : List (Addr × VoidPtr)}
    (hr : Represents h l xs) : l.length = 0 ↔ datas xs = [] := by
  rw [hr.length_eq_zero]
  cases xs <;> simp

/-- The first node holds the first datum. -/
theorem linkedlistGetFirst_eq {l : LinkedlistStructure} {xs : List (Addr × VoidPtr)}
    (hr : Represents h l xs) :
    linkedlistGetFirst l h = .ok ((Seq.linkedlistGetFirst (datas xs)).getD NULL) := by
  cases xs with
  | nil =>
    rw [linkedlistGetFirst, if_pos ((length_eq_zero hr).2 rfl)]
    rfl
  | cons x xs =>
    have hne : l.length ≠ 0 := mt (length_eq_zero hr).1 (List.cons_ne_nil _ _)
    rw [linkedlistGetFirst, if_neg hne, hr.first, front, readNode_eq hr.seg.1]
    rfl

/-- The index that the scan finds is that of a nonempty list. Reference:
`get_first_not_empty_list_index` (`src/scheduler_priority_fifo.c:112`). -/
theorem ne_nil_of_queueIndex {q : Fin maxPrio → List VoidPtr}
    (hi : queueIndex (SeKernel.getFirstNotEmptyListIndex q) = .ok i) : q i ≠ [] := by
  unfold SeKernel.getFirstNotEmptyListIndex at hi
  cases hfirst : Buckets.first q with
  | none =>
    rw [hfirst] at hi
    cases hi
  | some j =>
    have hj : (0 : Int) ≤ j.val ∧ (j.val : Int) < maxPrio := ⟨by omega, by exact_mod_cast j.isLt⟩
    rw [hfirst] at hi
    simp only [queueIndex, dif_pos hj] at hi
    cases hi
    exact (Buckets.first_spec hfirst).1

/-! ## Changing one array -/

theorem modify_queue (s : RtRunqueue) (r : PrioArrayRef) (i : Fin maxPrio)
    (l : LinkedlistStructure) :
    (fun j : PrioArrayRef × Fin maxPrio =>
        ((s.modify r fun arr => arr.setQueue i l).arrays j.1).queue j.2) =
      Function.update (fun j => (s.arrays j.1).queue j.2) (r, i) l := by
  funext ⟨r', i'⟩
  simp only [RtRunqueue.modify]
  by_cases hr : r' = r
  · subst hr
    rw [Function.update_self]
    by_cases hi : i' = i
    · subst hi
      simp [RtPrioArray.setQueue]
    · simp [RtPrioArray.setQueue, hi]
  · rw [Function.update_of_ne hr, Function.update_of_ne (fun heq => hr (congrArg Prod.fst heq))]

namespace PrioHolds

/-- A change of one list, on both sides. -/
theorem setQueue (hH : PrioHolds base live s h t) {h' : Heap} {l : LinkedlistStructure}
    {xs : PrioArrayRef × Fin maxPrio → List (Addr × VoidPtr)} {ys : List (Addr × VoidPtr)}
    (hxs : ∀ j, j.1 ∈ live → datas (xs j) = (t.arrays j.1).queue j.2)
    (hF : Family {j : PrioArrayRef × Fin maxPrio | j.1 ∈ live} base h'
      (Function.update (fun j => (s.arrays j.1).queue j.2) (r, i) l)
      (Function.update xs (r, i) ys)) :
    PrioHolds base live (s.modify r fun arr => arr.setQueue i l) h'
      (t.modify r fun arr => arr.setQueue i (datas ys)) where
  nrRunning := hH.nrRunning
  active := hH.active
  expired := hH.expired
  activeLive := hH.activeLive
  expiredLive := hH.expiredLive
  nrActive r' hr' := by
    simp only [RtRunqueue.modify, SeKernel.RtRunqueue.modify]
    by_cases hrr : r' = r
    · subst hrr
      rw [Function.update_self, Function.update_self]
      exact hH.nrActive r' hr'
    · rw [Function.update_of_ne hrr, Function.update_of_ne hrr]
      exact hH.nrActive r' hr'
  nodes := by
    refine ⟨_, (modify_queue s r i l).symm ▸ hF, fun j hj => ?_⟩
    obtain ⟨r', i'⟩ := j
    simp only [SeKernel.RtRunqueue.modify]
    by_cases hrr : r' = r
    · subst hrr
      rw [Function.update_self]
      by_cases hii : i' = i
      · subst hii
        simp [SeKernel.RtPrioArray.setQueue]
      · rw [Function.update_of_ne fun heq => hii (congrArg Prod.snd heq), hxs _ hj]
        exact (Function.update_of_ne hii _ _).symm
    · rw [Function.update_of_ne fun heq => hrr (congrArg Prod.fst heq), Function.update_of_ne hrr]
      exact hxs _ hj

/-- A change of one counter, on both sides. -/
theorem addActive (hH : PrioHolds base live s h t) (r : PrioArrayRef) (k : Int) :
    PrioHolds base live (s.modify r fun arr => arr.addActive k) h
      (t.modify r fun arr => arr.addActive k) where
  nrRunning := hH.nrRunning
  active := hH.active
  expired := hH.expired
  activeLive := hH.activeLive
  expiredLive := hH.expiredLive
  nrActive r' hr' := by
    simp only [RtRunqueue.modify, SeKernel.RtRunqueue.modify]
    by_cases hrr : r' = r
    · subst hrr
      rw [Function.update_self, Function.update_self]
      exact congrArg (· + k) (hH.nrActive r' hr')
    · rw [Function.update_of_ne hrr, Function.update_of_ne hrr]
      exact hH.nrActive r' hr'
  nodes := by
    obtain ⟨xs, hF, hxs⟩ := hH.nodes
    have hqueue : ∀ r', ((s.modify r fun arr => arr.addActive k).arrays r').queue =
        (s.arrays r').queue := by
      intro r'
      by_cases hrr : r' = r
      · subst hrr
        simp [RtRunqueue.modify, RtPrioArray.addActive]
      · simp [RtRunqueue.modify, hrr]
    have hqueue' : ∀ r', ((t.modify r fun arr => arr.addActive k).arrays r').queue =
        (t.arrays r').queue := by
      intro r'
      by_cases hrr : r' = r
      · subst hrr
        simp [SeKernel.RtRunqueue.modify, SeKernel.RtPrioArray.addActive]
      · simp [SeKernel.RtRunqueue.modify, hrr]
    refine ⟨xs, ?_, fun j hj => ?_⟩
    · simp only [hqueue]
      exact hF
    · rw [hqueue']
      exact hxs j hj

/-- The scans of the lists and of the sequences find the same index. Reference:
`get_first_not_empty_list_index` (`src/scheduler_priority_fifo.c:112`). -/
theorem getFirst (hH : PrioHolds base live s h t) (hr : r ∈ live) :
    getFirstNotEmptyListIndex (s.arrays r).queue =
      SeKernel.getFirstNotEmptyListIndex (t.arrays r).queue := by
  obtain ⟨xs, hF, hxs⟩ := hH.nodes
  have hempty : (fun j => decide (((s.arrays r).queue j).length ≠ 0)) =
      fun j => !((t.arrays r).queue j).isEmpty := by
    funext j
    have hlist : Represents h ((s.arrays r).queue j) (xs (r, j)) := hF.list (r, j) hr
    have hdata : datas (xs (r, j)) = (t.arrays r).queue j := hxs (r, j) hr
    rw [← hdata]
    cases hj : datas (xs (r, j)) with
    | nil => simp [(length_eq_zero hlist).2 hj]
    | cons x ds =>
      have hne : ((s.arrays r).queue j).length ≠ 0 := by
        rw [ne_eq, length_eq_zero hlist, hj]
        exact List.cons_ne_nil _ _
      simp [hne]
  unfold getFirstNotEmptyListIndex SeKernel.getFirstNotEmptyListIndex Buckets.first
  rewrite [hempty]
  cases (List.finRange maxPrio).find? fun j => !((t.arrays r).queue j).isEmpty <;> rfl

/-- A push on one of the lists. Reference: `linkedlist_push` (`src/linkedlist.c:106`). -/
theorem push (hH : PrioHolds base live s h t) (hr : r ∈ live) (i : Fin maxPrio) (a : Addr)
    (d : VoidPtr) :
    linkedlistPush a ((s.arrays r).queue i) d h = .error .mallocInUse ∨
      ∃ l h', linkedlistPush a ((s.arrays r).queue i) d h = .ok (l, h') ∧
        PrioHolds base live (s.modify r fun arr => arr.setQueue i l) h'
          (t.modify r fun arr => arr.setQueue i (Seq.linkedlistPush (arr.queue i) d)) := by
  obtain ⟨xs, hF, hxs⟩ := hH.nodes
  cases ha : h a with
  | some c =>
    refine .inl ?_
    simp [linkedlistPush, mallocNode, ha]
  | none =>
    obtain ⟨l, h', hpush, hF'⟩ := hF.push (i := (r, i)) hr ha d
    refine .inr ⟨l, h', hpush, ?_⟩
    have hset := hH.setQueue hxs hF'
    rw [datas_append, hxs (r, i) hr] at hset
    exact hset

/-- A pop of one of the lists that is not empty. Reference: `linkedlist_pop`
(`src/linkedlist.c:72`). -/
theorem pop (hH : PrioHolds base live s h t) (hr : r ∈ live) (hne : (t.arrays r).queue i ≠ []) :
    ∃ d l h' rest, linkedlistPop ((s.arrays r).queue i) h = .ok (d, l, h') ∧
      Seq.linkedlistPop ((t.arrays r).queue i) = (some d, rest) ∧
      PrioHolds base live (s.modify r fun arr => arr.setQueue i l) h'
        (t.modify r fun arr => arr.setQueue i rest) := by
  obtain ⟨xs, hF, hxs⟩ := hH.nodes
  have hdatas := hxs (r, i) hr
  dsimp only at hdatas
  cases hlist : xs (r, i) using List.reverseRecOn with
  | nil =>
    rw [hlist] at hdatas
    exact absurd hdatas.symm hne
  | append_singleton ys x =>
    obtain ⟨a, d⟩ := x
    obtain ⟨l, h', hpop, hF'⟩ := hF.pop (i := (r, i)) hr hlist
    refine ⟨d, l, h', datas ys, hpop, ?_, hH.setQueue hxs hF'⟩
    rw [← hdatas, hlist]
    simp [Seq.linkedlistPop]

end PrioHolds

/-! ## The calls -/

/-- Two changes of one array. -/
theorem modify_modify (t : SeKernel.RtRunqueue VoidPtr) (r : PrioArrayRef)
    (f g : SeKernel.RtPrioArray VoidPtr → SeKernel.RtPrioArray VoidPtr) :
    (t.modify r f).modify r g = t.modify r fun arr => g (f arr) := by
  simp [SeKernel.RtRunqueue.modify]

/-- Reference: `rq_prio_fifo_in` (`src/scheduler_priority_fifo.c:8`). -/
theorem rqPrioFifoIn_refines (hH : PrioHolds base live s h t) (a : Addr) (newPcb : VoidPtr)
    (currentPriority : Int) :
    Outcome.RelUnless .mallocInUse (fun x y => PrioHolds base live x.1 x.2 y)
      (rqPrioFifoIn a s newPcb currentPriority h)
      (SeKernel.rqPrioFifoIn t newPcb currentPriority) := by
  unfold rqPrioFifoIn SeKernel.rqPrioFifoIn
  rw [hH.expired]
  cases hr : t.expired with
  | none => exact .inr rfl
  | some r =>
    have hlive := hH.expiredLive r hr
    simp only [followArray, Outcome.pure_eq, Outcome.ok_bind]
    cases queueIndex (if (maxPrio : Int) ≤ currentPriority then maxPrio - 1
      else currentPriority) with
    | error e => exact .inr rfl
    | ok i =>
      rcases hH.push hlive i a newPcb with hpush | ⟨l, h', hpush, hH'⟩
      · refine .inl ?_
        simp only [Outcome.ok_bind, hpush, Outcome.error_bind]
      · refine .inr ?_
        simp only [Outcome.ok_bind, hpush]
        have hboth := hH'.addActive r 1
        rw [modify_modify] at hboth
        exact hboth

/-- Reference: `_rq_prio_fifo_update_sched` (`src/scheduler_priority_fifo.c:88`). -/
theorem rqPrioFifoUpdateSched_refines (hH : PrioHolds base live s h t) (a : Addr) :
    Outcome.RelUnless .mallocInUse (fun x y => PrioHolds base live x.2.1 x.2.2 y.2)
      (rqPrioFifoUpdateSched a s h) (SeKernel.rqPrioFifoUpdateSched t) := by
  unfold rqPrioFifoUpdateSched SeKernel.rqPrioFifoUpdateSched
  rw [hH.expired, hH.active]
  cases he : t.expired with
  | none => exact .inr rfl
  | some e =>
    have helive := hH.expiredLive e he
    simp only [followArray, Outcome.pure_eq, Outcome.ok_bind, hH.nrActive e helive]
    split
    · exact .inr hH
    · cases ha : t.active with
      | none => exact .inr rfl
      | some act =>
        have halive := hH.activeLive act ha
        simp only [Outcome.ok_bind, hH.nrActive act halive]
        split
        · -- the two pointers are exchanged
          refine .inr ⟨hH.nrRunning, rfl, rfl, ?_, ?_, hH.nrActive, hH.nodes⟩
          · rintro r ⟨⟩
            exact helive
          · rintro r ⟨⟩
            exact halive
        · rw [hH.getFirst helive]
          cases hi : queueIndex (SeKernel.getFirstNotEmptyListIndex (t.arrays e).queue) with
          | error e => exact .inr rfl
          | ok i =>
            obtain ⟨d, l, h₁, rest, hpop, hseq, hH₁⟩ := hH.pop helive (ne_nil_of_queueIndex hi)
            simp only [Outcome.ok_bind, hpop, hseq]
            rcases hH₁.push halive i a d with hpush | ⟨l', h₂, hpush, hH₂⟩
            · refine .inl ?_
              simp only [hpush, Outcome.error_bind]
            · refine .inr ?_
              simp only [hpush, Outcome.ok_bind]
              exact (hH₂.addActive e (-1)).addActive act 1

/-- Reference: `rq_prio_fifo_peek` (`src/scheduler_priority_fifo.c:33`). -/
theorem rqPrioFifoPeek_refines (hH : PrioHolds base live s h t) (a : Addr) :
    Outcome.RelUnless .mallocInUse
      (fun x y => x.1 = y.1.getD NULL ∧ PrioHolds base live x.2.1 x.2.2 y.2)
      (rqPrioFifoPeek a s h) (SeKernel.rqPrioFifoPeek t) := by
  refine (rqPrioFifoUpdateSched_refines hH a).bind ?_
  rintro ⟨_, s', h'⟩ ⟨_, t'⟩ hH'
  dsimp only at hH' ⊢
  rw [hH'.active]
  cases ha : t'.active with
  | none => exact .inr rfl
  | some act =>
    have halive := hH'.activeLive act ha
    simp only [followArray, Outcome.pure_eq, Outcome.ok_bind, hH'.nrActive act halive,
      hH'.getFirst halive]
    by_cases hzero : (t'.arrays act).nrActive = 0
    · rw [if_neg (not_not_intro hzero), if_neg (not_not_intro hzero)]
      exact .inr ⟨rfl, hH'⟩
    · rw [if_pos hzero, if_pos hzero]
      cases queueIndex (SeKernel.getFirstNotEmptyListIndex (t'.arrays act).queue) with
      | error e => exact .inr rfl
      | ok i =>
        obtain ⟨xs, hF, hxs⟩ := hH'.nodes
        have hget := linkedlistGetFirst_eq (hF.list (act, i) halive)
        rw [hxs (act, i) halive] at hget
        dsimp only at hget
        refine .inr ?_
        simp only [Outcome.ok_bind, hget]
        exact ⟨rfl, hH'⟩

/-- Reference: `rq_prio_fifo_out` (`src/scheduler_priority_fifo.c:45`). -/
theorem rqPrioFifoOut_refines (hH : PrioHolds base live s h t) (a : Addr) :
    Outcome.RelUnless .mallocInUse
      (fun x y => x.1 = y.1.getD NULL ∧ PrioHolds base live x.2.1 x.2.2 y.2)
      (rqPrioFifoOut a s h) (SeKernel.rqPrioFifoOut t) := by
  refine (rqPrioFifoUpdateSched_refines hH a).bind ?_
  rintro ⟨_, s', h'⟩ ⟨_, t'⟩ hH'
  dsimp only at hH' ⊢
  rw [hH'.active]
  cases ha : t'.active with
  | none => exact .inr rfl
  | some act =>
    have halive := hH'.activeLive act ha
    simp only [followArray, Outcome.pure_eq, Outcome.ok_bind, hH'.nrActive act halive]
    by_cases hzero : (t'.arrays act).nrActive = 0
    · rw [if_neg (not_not_intro hzero), if_neg (not_not_intro hzero)]
      exact .inr ⟨rfl, hH'⟩
    · rw [if_pos hzero, if_pos hzero]
      have hless := hH'.addActive act (-1)
      have hH₁ : PrioHolds base live
          { s'.modify act fun arr => arr.addActive (-1) with nrRunning := s'.nrRunning - 1 } h'
          { t'.modify act fun arr => arr.addActive (-1) with nrRunning := t'.nrRunning - 1 } :=
        ⟨congrArg (· - 1) hH'.nrRunning, hless.active, hless.expired, hless.activeLive,
          hless.expiredLive, hless.nrActive, hless.nodes⟩
      have hfirst := hH₁.getFirst halive
      dsimp only at hfirst
      simp only [hfirst]
      cases hi : queueIndex (SeKernel.getFirstNotEmptyListIndex
          ((t'.modify act fun arr => arr.addActive (-1)).arrays act).queue) with
      | error e => exact .inr rfl
      | ok i =>
        obtain ⟨d, l, h₁, rest, hpop, hseq, hH₂⟩ := hH₁.pop halive (ne_nil_of_queueIndex hi)
        refine .inr ?_
        simp only [Outcome.ok_bind, hpop, hseq]
        exact ⟨rfl, hH₂⟩

namespace SimpleHolds

variable {s : RtSimpleRunqueue} {t : SeKernel.RtSimpleRunqueue VoidPtr}

/-- Reference: `rq_simple_fifo_in` (`src/scheduler_simple_fifo.c:5`). -/
theorem rqSimpleFifoIn (hH : SimpleHolds base s h t) (a : Addr) (newPcb : VoidPtr) :
    Nodes.rqSimpleFifoIn a s newPcb h = .error .mallocInUse ∨
      ∃ s' h', Nodes.rqSimpleFifoIn a s newPcb h = .ok (s', h') ∧
        SimpleHolds base s' h' (SeKernel.rqSimpleFifoIn t newPcb) := by
  obtain ⟨xs, hF, hxs⟩ := hH.nodes
  cases ha : h a with
  | some c =>
    refine .inl ?_
    simp [Nodes.rqSimpleFifoIn, linkedlistPush, mallocNode, ha]
  | none =>
    obtain ⟨l, h', hpush, hF'⟩ := hF.push (i := ()) (Set.mem_univ _) ha newPcb
    rw [update_unit] at hF'
    refine .inr ⟨⟨s.nrRunning + 1, l⟩, h', ?_, congrArg (· + 1) hH.nrRunning,
      Function.update xs () (xs () ++ [(a, newPcb)]), hF', ?_⟩
    · simp only [Nodes.rqSimpleFifoIn, hpush, Outcome.ok_bind, Outcome.pure_eq]
    · rw [Function.update_self, datas_append, hxs]
      rfl

/-- Reference: `rq_simple_fifo_out` (`src/scheduler_simple_fifo.c:15`). -/
theorem rqSimpleFifoOut (hH : SimpleHolds base s h t) :
    ∃ s' h', Nodes.rqSimpleFifoOut s h =
        .ok ((SeKernel.rqSimpleFifoOut t).1.getD NULL, s', h') ∧
      SimpleHolds base s' h' (SeKernel.rqSimpleFifoOut t).2 := by
  obtain ⟨xs, hF, hxs⟩ := hH.nodes
  unfold Nodes.rqSimpleFifoOut SeKernel.rqSimpleFifoOut
  rw [hH.nrRunning]
  by_cases hzero : t.nrRunning = 0
  · rw [if_neg (not_not_intro hzero), if_neg (not_not_intro hzero)]
    exact ⟨s, h, rfl, hH⟩
  · rw [if_pos hzero, if_pos hzero, ← hxs]
    cases hlist : xs () using List.reverseRecOn with
    | nil =>
      have hr := hF.list () (Set.mem_univ _)
      rw [hlist] at hr
      rw [linkedlistPop_nil hr]
      exact ⟨⟨t.nrRunning - 1, s.active⟩, h, rfl, rfl, xs, hF, congrArg datas hlist⟩
    | append_singleton ys x =>
      obtain ⟨a, d⟩ := x
      obtain ⟨l, h', hpop, hF'⟩ := hF.pop (i := ()) (Set.mem_univ _) hlist
      rw [update_unit] at hF'
      refine ⟨⟨t.nrRunning - 1, l⟩, h', ?_, rfl, Function.update xs () ys, hF', ?_⟩
      · rw [hpop]
        simp [Seq.linkedlistPop]
      · rw [Function.update_self]
        simp [Seq.linkedlistPop]

/-- Reference: `rq_simple_fifo_peek` (`src/scheduler_simple_fifo.c:25`). -/
theorem rqSimpleFifoPeek (hH : SimpleHolds base s h t) :
    Nodes.rqSimpleFifoPeek s h = .ok ((SeKernel.rqSimpleFifoPeek t).getD NULL) := by
  obtain ⟨xs, hF, hxs⟩ := hH.nodes
  unfold Nodes.rqSimpleFifoPeek SeKernel.rqSimpleFifoPeek
  rw [hH.nrRunning]
  split
  · rw [linkedlistGetFirst_eq (hF.list () (Set.mem_univ _)), hxs]
  · rfl

end SimpleHolds

/-! ## The interface -/

/-- The queue object holds the sequences of the abstract one. -/
inductive DataHolds (base : Heap) (live : Set PrioArrayRef) :
    SchedData → Heap → SeKernel.SchedData VoidPtr → Prop
  | simple {s : RtSimpleRunqueue} {h : Heap} {t : SeKernel.RtSimpleRunqueue VoidPtr}
    (hH : SimpleHolds base s h t) : DataHolds base live (.simple s) h (.simple t)
  | prio {s : RtRunqueue} {h : Heap} {t : SeKernel.RtRunqueue VoidPtr}
    (hH : PrioHolds base live s h t) : DataHolds base live (.prio s) h (.prio t)

/-- The interface object points to the same functions, and its queue holds the sequences. -/
structure ISchedHolds (base : Heap) (live : Set PrioArrayRef) (s : SISched × Heap)
    (t : SeKernel.SISched VoidPtr) : Prop where
  insert : s.1.insert = t.insert
  peek : s.1.peek = t.peek
  pop : s.1.pop = t.pop
  data : DataHolds base live s.1.schedData s.2 t.schedData

/-- The calls of the interface, each with the address that `malloc` returns if the call pushes. -/
inductive SchedOp
  | insert (a : Addr) (newPcb : VoidPtr) (currentPriority : Int)
  | peek (a : Addr)
  | pop (a : Addr)

/-- The call without the address. -/
def SchedOp.call : SchedOp → SeKernel.SchedOp VoidPtr
  | .insert _ newPcb currentPriority => .insert newPcb currentPriority
  | .peek _ => .peek
  | .pop _ => .pop

/-- One call. -/
def SchedOp.exec : SchedOp → SISched × Heap → Outcome (VoidPtr × SISched × Heap)
  | .insert a newPcb currentPriority, (iSched, h) => do
    let (iSched, h) ← iSchedInsert a iSched newPcb currentPriority h
    return (NULL, iSched, h)
  | .peek a, (iSched, h) => iSchedPeek a iSched h
  | .pop a, (iSched, h) => iSchedPop a iSched h

theorem callInsert_refines {s : SchedData} {t : SeKernel.SchedData VoidPtr}
    (hH : DataHolds base live s h t) (a : Addr) (f : InsertFn) (newPcb : VoidPtr)
    (currentPriority : Int) :
    Outcome.RelUnless .mallocInUse (fun x y => DataHolds base live x.1 x.2 y)
      (SISched.callInsert a f s newPcb currentPriority h)
      (SeKernel.SISched.callInsert f t newPcb currentPriority) := by
  cases hH with
  | simple hH =>
    cases f with
    | rqPrioFifoIn => exact .inr rfl
    | rqSimpleFifoISchedAdptIn =>
      simp only [SISched.callInsert, SeKernel.SISched.callInsert]
      rcases hH.rqSimpleFifoIn a newPcb with hin | ⟨s', h', hin, hH'⟩
      · exact .inl (by rw [hin]; rfl)
      · rw [hin]
        exact .inr (.simple hH')
  | prio hH =>
    cases f with
    | rqPrioFifoIn =>
      exact (rqPrioFifoIn_refines hH a newPcb currentPriority).bind fun _ _ hH' => .inr (.prio hH')
    | rqSimpleFifoISchedAdptIn => exact .inr rfl

theorem callTake_refines {s : SchedData} {t : SeKernel.SchedData VoidPtr}
    (hH : DataHolds base live s h t) (a : Addr) (f : TakeFn) :
    Outcome.RelUnless .mallocInUse
      (fun x y => x.1 = y.1.getD NULL ∧ DataHolds base live x.2.1 x.2.2 y.2)
      (SISched.callTake a f s h) (SeKernel.SISched.callTake f t) := by
  cases hH with
  | simple hH =>
    cases f with
    | rqPrioFifoOut | rqPrioFifoPeek => exact .inr rfl
    | rqSimpleFifoISchedAdptPeek =>
      simp only [SISched.callTake, SeKernel.SISched.callTake, hH.rqSimpleFifoPeek, Outcome.ok_bind]
      exact .inr ⟨rfl, .simple hH⟩
    | rqSimpleFifoISchedAdptOut =>
      obtain ⟨s', h', hout, hH'⟩ := hH.rqSimpleFifoOut
      simp only [SISched.callTake, SeKernel.SISched.callTake, hout, Outcome.ok_bind]
      exact .inr ⟨rfl, .simple hH'⟩
  | prio hH =>
    cases f with
    | rqPrioFifoOut =>
      exact (rqPrioFifoOut_refines hH a).bind fun _ _ hH' => .inr ⟨hH'.1, .prio hH'.2⟩
    | rqPrioFifoPeek =>
      exact (rqPrioFifoPeek_refines hH a).bind fun _ _ hH' => .inr ⟨hH'.1, .prio hH'.2⟩
    | rqSimpleFifoISchedAdptPeek | rqSimpleFifoISchedAdptOut => exact .inr rfl

/-- One call answers alike and leaves nodes that hold the new sequences. -/
theorem SchedOp.exec_refines (op : SchedOp) (s : SISched × Heap) (t : SeKernel.SISched VoidPtr)
    (hH : ISchedHolds base live s t) :
    Outcome.RelUnless .mallocInUse (fun x y => x.1 = y.1.getD NULL ∧ ISchedHolds base live x.2 y.2)
      (op.exec s) (op.call.exec t) := by
  obtain ⟨⟨data, insert, peek, pop⟩, h⟩ := s
  obtain ⟨rfl, rfl, rfl, hdata⟩ := hH
  cases op with
  | insert a newPcb currentPriority =>
    simp only [SchedOp.exec, SchedOp.call, SeKernel.SchedOp.exec, iSchedInsert,
      SeKernel.iSchedInsert, bind_assoc]
    refine (callInsert_refines hdata a t.insert newPcb currentPriority).bind fun _ _ hdata' => ?_
    exact .inr ⟨rfl, rfl, rfl, rfl, hdata'⟩
  | peek a =>
    refine (callTake_refines hdata a t.peek).bind fun _ _ hdata' => ?_
    exact .inr ⟨hdata'.1, rfl, rfl, rfl, hdata'.2⟩
  | pop a =>
    refine (callTake_refines hdata a t.pop).bind fun _ _ hdata' => ?_
    exact .inr ⟨hdata'.1, rfl, rfl, rfl, hdata'.2⟩

/-! ## Runs -/

/-- The queue objects that the initialisations leave: a priority queue after `runqueue_init`, one
whose memory only `rq_prio_fifo_init` has seen, one that both have seen, and a simple queue. -/
inductive Started : SISched → SeKernel.SISched VoidPtr → Prop
  | runqueue (s : RtRunqueue) (t : SeKernel.RtRunqueue VoidPtr) :
    Started (rqPrioFifoISchedInplement (runqueueInit s))
      (SeKernel.rqPrioFifoISchedInplement (SeKernel.runqueueInit t))
  | configured (arrays : PrioArrayRef → RtPrioArray)
    (arrays' : PrioArrayRef → SeKernel.RtPrioArray VoidPtr) (nrRunning : Int) :
    Started (rqPrioFifoISchedInplement (rqPrioFifoInit ⟨nrRunning, none, none, arrays⟩))
      (SeKernel.rqPrioFifoISchedInplement
        (SeKernel.rqPrioFifoInit (mallocRunqueue nrRunning arrays')))
  | both (s : RtRunqueue) (t : SeKernel.RtRunqueue VoidPtr) :
    Started (rqPrioFifoISchedInplement (rqPrioFifoInit (runqueueInit s)))
      (SeKernel.rqPrioFifoISchedInplement (SeKernel.rqPrioFifoInit (SeKernel.runqueueInit t)))
  | simple (s : RtSimpleRunqueue) (t : SeKernel.RtSimpleRunqueue VoidPtr) :
    Started (rqSimpleFifoISchedImplement (rqSimpleFifoInit s))
      (SeKernel.rqSimpleFifoISchedImplement (SeKernel.rqSimpleFifoInit t))

/-- Arrays that were just initialised hold no process. -/
theorem PrioHolds.init (base : Heap) (hnrRunning : s.nrRunning = t.nrRunning)
    (hactive : s.active = t.active) (hexpired : s.expired = t.expired)
    (hlive : ∀ r, t.active = some r ∨ t.expired = some r →
      s.arrays r = prioArrayInit ∧ t.arrays r = SeKernel.prioArrayInit) :
    PrioHolds base {r | t.active = some r ∨ t.expired = some r} s base t where
  nrRunning := hnrRunning
  active := hactive
  expired := hexpired
  activeLive _ hr := .inl hr
  expiredLive _ hr := .inr hr
  nrActive r hr := by
    rw [(hlive r hr).1, (hlive r hr).2]
    rfl
  nodes := by
    refine ⟨fun _ => [], Family.init (fun i hi => ?_) base, fun i hi => ?_⟩
    · rw [(hlive i.1 hi).1]
      rfl
    · rw [(hlive i.1 hi).2]
      rfl

theorem Started.holds {s : SISched} {t : SeKernel.SISched VoidPtr} (h : Started s t)
    (base : Heap) : ∃ live, ISchedHolds base live (s, base) t := by
  cases h with
  | runqueue s t =>
    refine ⟨_, rfl, rfl, rfl, .prio (.init base rfl rfl rfl ?_)⟩
    rintro r (⟨⟨⟩⟩ | ⟨⟨⟩⟩) <;> simp [runqueueInit, SeKernel.runqueueInit]
  | configured arrays arrays' nrRunning =>
    refine ⟨_, rfl, rfl, rfl, .prio (.init base rfl rfl rfl ?_)⟩
    rintro r (⟨⟨⟩⟩ | ⟨⟨⟩⟩)
    simp [rqPrioFifoInit, SeKernel.rqPrioFifoInit, mallocRunqueue]
  | both s t =>
    refine ⟨_, rfl, rfl, rfl, .prio (.init base rfl rfl rfl ?_)⟩
    rintro r (⟨⟨⟩⟩ | ⟨⟨⟩⟩) <;>
      simp [rqPrioFifoInit, SeKernel.rqPrioFifoInit, runqueueInit, SeKernel.runqueueInit]
  | simple s t =>
    refine ⟨∅, rfl, rfl, rfl, .simple ⟨rfl, fun _ => [], ?_, rfl⟩⟩
    exact Family.init (fun _ _ => rfl) base

/-- From every initialisation, every sequence of calls of the queue interface does over list nodes
what it does over sequences: the same answers or the same fault, nodes that hold the sequences and
are apart, and otherwise the heap of the start. Reference: `src/scheduler_data_interface.c:22-36`,
`src/scheduler_priority_fifo.c:8-119`, `src/scheduler_simple_fifo.c:5-32`. -/
theorem iSched_over_nodes {s : SISched} {t : SeKernel.SISched VoidPtr} (hstart : Started s t)
    (base : Heap) (ops : List SchedOp)
    (hmalloc : Machine.run SchedOp.exec ops (s, base) ≠ .error .mallocInUse) :
    Outcome.Rel
      (fun x y => x.1 = y.1.map (·.getD NULL) ∧ ∃ live, ISchedHolds base live x.2 y.2)
      (Machine.run SchedOp.exec ops (s, base))
      (Machine.run SeKernel.SchedOp.exec (ops.map SchedOp.call) t) := by
  obtain ⟨live, hH⟩ := hstart.holds base
  have hrun := Outcome.RelUnless.run (f := SchedOp.call)
    (g := fun r : Option VoidPtr => r.getD NULL) (fun op s t _ => op.exec_refines s t)
    (fun op (_ : op ∈ ops) => trivial) hH
  exact (hrun.resolve_left hmalloc).mono fun x y hxy => ⟨hxy.1, live, hxy.2⟩

/-- A process is inserted, another one of a better priority after it, and one is taken out. -/
theorem iSched_over_nodes_two : ∃ s h, Machine.run SchedOp.exec
      [.insert 1 8 7, .insert 2 16 3, .peek 3]
      (rqPrioFifoISchedInplement (runqueueInit ⟨0, none, none, fun _ => prioArrayInit⟩),
        fun _ => none) = .ok ([NULL, NULL, 16], s, h) ∧
    ∃ live t, ISchedHolds (fun _ => none) live (s, h) t := by
  have hrun : ∃ s h, Machine.run SchedOp.exec [.insert 1 8 7, .insert 2 16 3, .peek 3]
      (rqPrioFifoISchedInplement (runqueueInit ⟨0, none, none, fun _ => prioArrayInit⟩),
        fun _ => none) = .ok ([NULL, NULL, 16], s, h) := ⟨_, _, rfl⟩
  obtain ⟨s, h, hrun⟩ := hrun
  have hrel := iSched_over_nodes (.runqueue ⟨0, none, none, fun _ => prioArrayInit⟩
    ⟨0, none, none, fun _ => SeKernel.prioArrayInit⟩) (fun _ => none)
    [.insert 1 8 7, .insert 2 16 3, .peek 3] (by rw [hrun]; exact nofun)
  rw [hrun] at hrel
  obtain ⟨⟨replies, t⟩, -, -, live, hH⟩ := hrel.of_ok_left
  exact ⟨s, h, hrun, live, t, hH⟩

end SeKernel.Nodes
