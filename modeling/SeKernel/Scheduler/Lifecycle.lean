import Mathlib.Logic.Relation
import SeKernel.Scheduler.Ownership

/-!
# The life of a process

What a process goes through, whatever the scheduler does meanwhile: it is added, it waits in the
ready queue, it gets one core, and it is destroyed there. No process comes back from a core to the
queue or to another core, and none that is destroyed comes back at all (`process_lifecycle`).
-/

namespace SeKernel

open Relation

/-- Where a process is in its life. -/
inductive Stage (k : Nat)
  | new
  | queued
  | running (c : Fin k)
  | destroyed

/-- The stages follow each other in one order. -/
inductive Stage.Next {k : Nat} : Stage k → Stage k → Prop
  | add : Next .new .queued
  | run (c : Fin k) : Next .queued (.running c)
  | finish (c : Fin k) : Next (.running c) .destroyed

/-- A process on a core stays on it or is destroyed. -/
theorem Stage.of_running {k : Nat} {c : Fin k} {st : Stage k}
    (h : ReflTransGen Stage.Next (.running c) st) : st = .running c ∨ st = .destroyed := by
  induction h with
  | refl => exact .inl rfl
  | tail _ hlast ih =>
    rcases ih with rfl | rfl
    · cases hlast
      exact .inr rfl
    · cases hlast

variable {ι τ : Type} {k n : Nat}

/-- The process `i` is in this stage. -/
def Sched.At (known : Set ι) (s : Sched ι τ k n) (i : ι) : Stage k → Prop
  | .new => i ∉ known
  | .queued => .pcb i ∈ s.queued
  | .running c => (s.coreControlArray c).currentProcess = some (.pcb i)
  | .destroyed => i ∈ known ∧ s.pcbs (.pcb i) = none

/-- Every process goes on in its life, or stays where it is. -/
def Sched.Moves (known : Set ι) (s : Sched ι τ k n) (known' : Set ι) (s' : Sched ι τ k n) : Prop :=
  ∀ i st, s.At known i st → ∃ st', ReflTransGen Stage.Next st st' ∧ s'.At known' i st'

variable {c : Fin k} {s s' t : Sched ι τ k n} {known known' known'' : Set ι} {i : ι}

theorem Sched.Moves.refl (known : Set ι) (s : Sched ι τ k n) : s.Moves known known s :=
  fun _ st hst => ⟨st, .refl, hst⟩

theorem Sched.Moves.trans (h : s.Moves known known' t) (h' : t.Moves known' known'' s') :
    s.Moves known known'' s' := by
  intro i st hst
  obtain ⟨st₁, hfirst, hst₁⟩ := h i st hst
  obtain ⟨st₂, hsecond, hst₂⟩ := h' i st₁ hst₁
  exact ⟨st₂, hfirst.trans hsecond, hst₂⟩

/-- Nothing changes for the processes. -/
theorem Sched.Moves.of_same
    (hqueued : ∀ i, .pcb i ∈ s.queued → .pcb i ∈ s'.queued)
    (hcores : ∀ c i, (s.coreControlArray c).currentProcess = some (.pcb i) →
      (s'.coreControlArray c).currentProcess = some (.pcb i))
    (hpcbs : ∀ i, s.pcbs (.pcb i) = none → s'.pcbs (.pcb i) = none) : s.Moves known known s' := by
  intro i st hst
  refine ⟨st, .refl, ?_⟩
  cases st with
  | new => exact hst
  | queued => exact hqueued i hst
  | running c => exact hcores c i hst
  | destroyed => exact ⟨hst.1, hpcbs i hst.2⟩

/-- Only `null_process` leaves a core. Reference: `__sched_update_running_pcb`
(`src/scheduler.c:78`). -/
theorem schedUpdateRunningPcb_moves (hsafe : s.TurnSafe c)
    (hstep : schedUpdateRunningPcb s c = .ok s') : s.Moves known known s' := by
  rcases schedUpdateRunningPcb_cases hstep with ⟨-, rfl⟩ | ⟨⟨x, p, hx, hp, hfini⟩, rfl⟩
  · exact .refl known _
  · refine .of_same (fun _ hi => hi) (fun d i hd => ?_) fun _ hi => hi
    have hdc : d ≠ c := by
      rintro rfl
      obtain rfl : x = .pcb i := Option.some.inj (hx.symm.trans hd)
      exact hsafe.unfinished i p hd hp hfini
    rw [s.modifyCore_of_ne c _ hdc]
    exact hd

variable [DecidableEq ι]

/-- A process that waits or runs is known and alive. -/
theorem Sched.WellFormed.live_of_at (h : s.WellFormed known) {st : Stage k}
    (hst : s.At known i st) (hnew : st ≠ .new) (hend : st ≠ .destroyed) :
    i ∈ known ∧ (s.pcbs (.pcb i)).isSome := by
  cases st with
  | new => exact absurd rfl hnew
  | queued => exact ⟨(h.queued_placed hst).1, (h.queued_placed hst).2.1⟩
  | running c => exact ⟨(h.running_placed hst).1, (h.running_placed hst).2.1⟩
  | destroyed => exact absurd rfl hend

/-- A process is in one stage. -/
theorem Sched.WellFormed.stage_unique (h : s.WellFormed known) {st st' : Stage k}
    (hst : s.At known i st) (hst' : s.At known i st') : st = st' := by
  have hdead {st : Stage k} (hnone : s.pcbs (.pcb i) = none) (hst : s.At known i st)
      (hnew : st ≠ .new) : st = .destroyed := by
    by_contra hend
    have hlive := (h.live_of_at hst hnew hend).2
    rw [hnone] at hlive
    cases hlive
  cases st with
  | new =>
    cases st' with
    | new => rfl
    | queued | running => exact absurd (h.live_of_at hst' nofun nofun).1 hst
    | destroyed => exact absurd hst'.1 hst
  | queued =>
    cases st' with
    | new => exact absurd (h.queued_placed hst).1 hst'
    | queued => rfl
    | running c => exact absurd hst (h.running_placed hst').2.2
    | destroyed => exact hdead hst'.2 hst nofun
  | running c =>
    cases st' with
    | new => exact absurd (h.running_placed hst).1 hst'
    | queued => exact absurd hst' (h.running_placed hst).2.2
    | running d =>
      by_contra hne
      exact h.current_ne (fun hdc => hne (congrArg Stage.running hdc.symm)) hst hst'
    | destroyed => exact hdead hst'.2 hst nofun
  | destroyed =>
    cases st' with
    | new => exact absurd hst.1 hst'
    | queued | running => exact (hdead hst.2 hst' nofun).symm
    | destroyed => rfl

/-- Every process is in some stage. -/
theorem Sched.WellFormed.exists_stage (h : s.WellFormed known) (i : ι) :
    ∃ st : Stage k, s.At known i st := by
  by_cases hi : i ∈ known
  · cases hlive : s.pcbs (.pcb i) with
    | none => exact ⟨.destroyed, hi, hlive⟩
    | some p =>
      by_cases hmem : .pcb i ∈ s.queued
      · exact ⟨.queued, hmem⟩
      · -- the one place of the process is not in the queue
        have hone := h.once i hi (by simp [hlive])
        rw [Sched.places, Multiset.count_eq_zero.2 hmem, Sched.running,
          Counting.count_eq_card] at hone
        have hpos : 0 < (Finset.univ.filter fun c => (s.coreControlArray c).runs i).card := by omega
        obtain ⟨c, hc⟩ := Finset.card_pos.1 hpos
        exact ⟨.running c, CoreControl.runs_iff.1 (Finset.mem_filter.1 hc).2⟩
  · exact ⟨.new, hi⟩

/-! ## The queue -/

/-- A process that joins the queue was new. Reference: `sched_add_to_process_queue`
(`src/scheduler.c:17`). -/
theorem schedAddToProcessQueue_moves {p : Pcb} (h : s.WellFormed known) (hnew : i ∉ known)
    (hp : s.pcbs (.pcb i) = some p) (hprio : PrioPolicy s.currentPolicy → 0 ≤ p.currentPriority)
    (hstep : schedAddToProcessQueue s (.pcb i) = .ok s') :
    s.Moves known (insert i known) s' := by
  obtain ⟨iSched, hinsert, -, hqueued⟩ := iSchedInsert_spec h.backEnd (.pcb i) hprio
  rw [schedAddToProcessQueue, PcbHeap.read_eq_ok.2 hp, Outcome.ok_bind, hinsert,
    Outcome.ok_bind] at hstep
  cases hstep
  have hmem : ∀ x, x ∈ iSched.schedData.queued ↔ x ∈ s.queued ∨ x = .pcb i := by
    intro x
    rw [hqueued, Multiset.mem_add, Multiset.mem_singleton]
    rfl
  intro j st hst
  by_cases hj : j = i
  · subst hj
    obtain rfl : st = .new := h.stage_unique hst hnew
    exact ⟨.queued, .single .add, (hmem _).2 (.inr rfl)⟩
  · refine ⟨st, .refl, ?_⟩
    cases st with
    | new => exact fun hin => (Set.mem_insert_iff.1 hin).elim hj hst
    | queued => exact (hmem _).2 (.inl hst)
    | running c => exact hst
    | destroyed =>
      refine ⟨Set.mem_insert_of_mem i hst.1, ?_⟩
      have hne : PcbPtr.pcb j ≠ .pcb i := fun heq => hj (PcbPtr.pcb.inj heq)
      exact (Function.update_of_ne hne _ _).trans hst.2

/-! ## The dispatcher -/

section

variable {ended : Option ι} {next : PcbPtr ι} {iSched : SISched (PcbPtr ι)}
  (h : s.WellFormed known)
  (hended : ∀ i, (s.coreControlArray c).currentProcess = some (.pcb i) ↔ ended = some i)
  (hqueued : ∀ i, s.queued.count (.pcb i) =
    iSched.schedData.queued.count (.pcb i) + if next = .pcb i then 1 else 0)
  (hs' : Sched.Switched c ended next { s with schedulerQueueIObject := iSched } s')

include h hended hqueued hs' in
/-- A switch moves the next process from the queue to the core, and the old one to its end. -/
theorem Sched.WellFormed.moves_of_switched : s.Moves known known s' := by
  intro i st hst
  cases st with
  | new => exact ⟨.new, .refl, hst⟩
  | queued =>
    by_cases hi : next = .pcb i
    · refine ⟨.running c, .single (.run c), ?_⟩
      show (s'.coreControlArray c).currentProcess = _
      rw [hs'.current, hi]
    · refine ⟨.queued, .refl, ?_⟩
      have hcount := hqueued i
      rw [if_neg hi, Nat.add_zero] at hcount
      have hqueue : s'.queued = iSched.schedData.queued := congrArg (·.schedData.queued) hs'.queue
      show .pcb i ∈ s'.queued
      rw [hqueue, ← Multiset.count_pos, ← hcount, Multiset.count_pos]
      exact hst
  | running d =>
    by_cases hd : d = c
    · subst hd
      exact ⟨.destroyed, .single (.finish d), (h.running_placed hst).1,
        hs'.gone i ((hended i).1 hst)⟩
    · refine ⟨.running d, .refl, ?_⟩
      show (s'.coreControlArray d).currentProcess = _
      rw [hs'.cores d hd]
      exact hst
  | destroyed =>
    refine ⟨.destroyed, .refl, hst.1, ?_⟩
    have hdead := h.live_iff_of_switched hended hqueued hs' i
    rw [hst.2] at hdead
    by_contra hlive
    exact absurd (hdead.2 (.inl (Option.isSome_iff_ne_none.2 hlive))) nofun

end

variable [DecidableEq τ]

/-- Reference: `sched_dispatcher` (`src/scheduler.c:42`). -/
theorem schedDispatcher_moves (h : s.WellFormed known) (hsafe : s.DispatchSafe c)
    (hstep : schedDispatcher s c = .ok s') : s.Moves known known s' := by
  by_cases hstatus : (s.coreControlArray c).currrentCpuSchedStatus = processRun
  · obtain ⟨o, ho⟩ := h.current_of_eq hstatus
    obtain ⟨iSched, hnext, -, hqueued, -⟩ := schedGetNextProcess_leaves h.backEnd
      fun hpolicy q hq => hsafe.peeks q ⟨hstatus, hpolicy, hq⟩
    have hlive : ∀ x, s.next? = some x → x ≠ .pcb o ∧ (s.pcbs x).isSome := by
      intro x hx
      cases x with
      | nullProcess => exact ⟨nofun, h.nullProcess⟩
      | pcb i =>
        have hcount := hqueued i
        rw [if_pos hx] at hcount
        have hmem : .pcb i ∈ s.queued := Multiset.one_le_count_iff_mem.1 (by omega)
        exact ⟨fun hio => (h.running_placed ho).2.2 (hio ▸ hmem), (h.queued_placed hmem).2.1⟩
    obtain ⟨t, hdispatch, ⟨hnone, rfl⟩ | ⟨next, hor, ht⟩⟩ :=
      schedDispatcher_busy (ne_nullProcessRun hstatus) ho hnext (h.running_placed ho).2.1
        h.nullProcess hlive
    · rw [hdispatch] at hstep
      cases hstep
      refine .of_same (fun i hi => ?_) (fun _ _ hi => hi) fun _ hi => hi
      have hcount := hqueued i
      rw [hnone, if_neg nofun, Nat.add_zero] at hcount
      rw [← Multiset.count_pos] at hi ⊢
      exact hcount ▸ hi
    · rw [hdispatch] at hstep
      cases hstep
      have hended : ∀ i, (s.coreControlArray c).currentProcess = some (.pcb i) ↔
          some o = some i := by
        intro i
        rw [ho]
        simp
      refine h.moves_of_switched hended (fun i => ?_) ht
      rcases hor with hor | ⟨hor, rfl⟩
      · simpa [hor] using hqueued i
      · simpa [hor] using hqueued i
  · obtain ⟨t, hdispatch, ht⟩ := schedDispatcher_onlyNull h hsafe hstatus
    cases hdispatch.symm.trans hstep
    refine .of_same (fun i hi => ?_) (fun d i hd => ?_) fun i hi => (ht.pcbs i).trans hi
    · rw [← Multiset.count_pos] at hi ⊢
      rw [ht.queued i]
      exact hi
    · have hdc : d ≠ c := by
        rintro rfl
        exact hstatus (h.busy d i hd)
      rw [ht.cores d hdc]
      exact hd

/-! ## The passes -/

/-- Reference: `sched_execute` (`src/scheduler.c:28`). -/
theorem schedExecuteUpdated_moves (h : s.WellFormed known) (hsafe : s.TurnSafe c)
    (hstep : schedExecuteUpdated s c = .ok s') : s.Moves known known s' := by
  rcases schedExecuteUpdated_cases hstep with ⟨hdispatch, hwhen⟩ | ⟨-, -, rfl⟩ | ⟨-, -, -, rfl⟩
  · exact schedDispatcher_moves h (hsafe.dispatchSafe h hwhen) hdispatch
  · refine .of_same (fun _ hi => hi) (fun d i hd => ?_) fun _ hi => hi
    by_cases hdc : d = c
    · subst hdc
      rw [Sched.modifyCore_self]
      exact hd
    · rw [s.modifyCore_of_ne c _ hdc]
      exact hd
  · exact .refl known _

/-- Reference: `sched_execute` (`src/scheduler.c:26`). -/
theorem schedExecuteCore_moves (h : s.WellFormed known) (hsafe : s.TurnSafe c)
    (hstep : schedExecuteCore s c = .ok s') : s.Moves known known s' := by
  obtain ⟨t, hupdate, ht, -, hsafe'⟩ := schedUpdateRunningPcb_keeps h hsafe
  rw [schedExecuteCore, hupdate, Outcome.ok_bind] at hstep
  have hrest := schedExecuteUpdated_moves ht hsafe' hstep
  exact (schedUpdateRunningPcb_moves hsafe hupdate).trans hrest

/-- Reference: `sched_execute` (`src/scheduler.c:24`). -/
theorem schedExecute_moves (h : s.WellFormed known) (hsafe : s.PassSafe)
    (hstep : schedExecute s = .ok s') : s.Moves known known s' := by
  let J (l : List (Fin k)) (t : Sched ι τ k n) : Prop :=
    t.WellFormed known ∧ Pass.Meets schedExecuteCore Sched.TurnSafe l t ∧ s.Moves known known t
  have hturn : ∀ c l t t', J (c :: l) t → schedExecuteCore t c = .ok t' → J l t' := by
    rintro c l t t' ⟨ht, ⟨hsafec, hrest⟩, hmoves⟩ hcore
    obtain ⟨u, hu, hwf, -⟩ := schedExecuteCore_keeps ht hsafec
    cases hu.symm.trans hcore
    exact ⟨hwf, hrest _ hcore, hmoves.trans (schedExecuteCore_moves ht hsafec hcore)⟩
  have hstart : J (List.finRange k ++ []) s := by
    rw [List.append_nil]
    exact ⟨h, hsafe, .refl known s⟩
  exact (Pass.foldlM_keeps_rest hturn hstart hstep).2.2

/-- A safe step moves every process on in its life, or leaves it where it is. -/
theorem SchedStep.Safe.moves {step : SchedStep ι k} (hsafe : step.Safe s) (h : s.WellFormed known)
    (hallowed : step.Allowed known s) (hstep : step.exec s = .ok s') :
    s.Moves known (step.knows known) s' := by
  cases step with
  | add newPcb =>
    obtain ⟨p, hp⟩ := Option.isSome_iff_exists.1 hallowed.2
    exact schedAddToProcessQueue_moves h hallowed.1 hp (fun hpolicy => hsafe hpolicy p hp) hstep
  | dispatcher c => exact schedDispatcher_moves h hsafe hstep
  | execute => exact schedExecute_moves h hsafe hstep

/-- Every process is at one stage before a run of safe steps and at one stage after it, and the
second stage follows the first or is the same. One that was on a core is still there, or is
destroyed. Reference: `sched_add_to_process_queue`
(`src/scheduler.c:17`), `sched_execute` (`src/scheduler.c:24`), `sched_dispatcher`
(`src/scheduler.c:42`). -/
theorem process_lifecycle {steps : List (SchedStep ι k)} (h : s.WellFormed known)
    (hrun : Lts.Steps (fun (x : Set ι × Sched ι τ k n) step y => step.Allowed x.1 x.2 ∧
      step.Safe x.2 ∧ step.exec x.2 = .ok y.2 ∧ y.1 = step.knows x.1)
      (known, s) steps (known', s')) (i : ι) :
    ∃ st st', (∀ x, s.At known i x ↔ x = st) ∧ (∀ x, s'.At known' i x ↔ x = st') ∧
      ReflTransGen Stage.Next st st' ∧
      ∀ c, (s.coreControlArray c).currentProcess = some (.pcb i) →
        st' = .running c ∨ st' = .destroyed := by
  have hlast : s'.WellFormed known' ∧ s.Moves known known' s' := by
    refine hrun.invariant (I := fun x => x.2.WellFormed x.1 ∧ s.Moves known x.1 x.2) ?_
      ⟨h, .refl known s⟩
    rintro ⟨known₁, s₁⟩ step ⟨known₂, s₂⟩ ⟨hwf, hmoves⟩ ⟨hallowed, hsafe, hexec, rfl⟩
    obtain ⟨t, ht, hwf'⟩ := hsafe.keeps hwf hallowed
    cases ht.symm.trans hexec
    exact ⟨hwf', hmoves.trans (hsafe.moves hwf hallowed hexec)⟩
  obtain ⟨st, hst⟩ := h.exists_stage i
  obtain ⟨st', hlater, hst'⟩ := hlast.2 i st hst
  refine ⟨st, st', fun x => ?_, fun x => ?_, hlater, fun c hc => ?_⟩
  · exact ⟨fun hx => h.stage_unique hx hst, fun hx => hx ▸ hst⟩
  · exact ⟨fun hx => hlast.1.stage_unique hx hst', fun hx => hx ▸ hst'⟩
  · obtain rfl : st = .running c := h.stage_unique hst hc
    exact Stage.of_running hlater

/-- Process 2 joins the queue, and the others stay where they are. -/
theorem process_lifecycle_add : ∃ s', (SchedStep.add 2).exec sliceOver = .ok s' ∧
    ∀ i, ∃ st st', (∀ x, sliceOver.At {0, 1} i x ↔ x = st) ∧
      (∀ x, s'.At {2, 0, 1} i x ↔ x = st') ∧ ReflTransGen Stage.Next st st' ∧
      ∀ c, (sliceOver.coreControlArray c).currentProcess = some (.pcb i) →
        st' = .running c ∨ st' = .destroyed := by
  have hsafe : (SchedStep.add 2).Safe sliceOver := fun hpolicy => absurd hpolicy (by decide)
  have hallowed : (SchedStep.add 2).Allowed {0, 1} sliceOver := ⟨by decide, rfl⟩
  obtain ⟨s', hexec, -⟩ := hsafe.keeps sliceOver_wellFormed hallowed
  exact ⟨s', hexec, process_lifecycle sliceOver_wellFormed
    (Lts.Steps.refl.tail ⟨hallowed, hsafe, hexec, rfl⟩)⟩

end SeKernel
