import SeKernel.Lib.Ledger
import SeKernel.Lib.Pass
import SeKernel.Scheduler.Frame

/-!
# The identity of a process

The pid, the priority and the memory map of a process are set when it is created. No step of the
scheduler creates a process or changes one of them, whatever state it is in
(`SchedStep.keepsIdentity`). Processes that are created come with the next pids of a sequence
(`Numbered`).
-/

namespace SeKernel

open Ledger

/-- What a process keeps from its creation to its end. -/
structure Identity where
  pid : Int
  currentPriority : Int
  memoryMap : MemoryMap

def Pcb.identity (p : Pcb) : Identity := ⟨p.pid, p.currentPriority, p.memoryMap⟩

variable {ι τ : Type} {k n : Nat}

/-- The PCBs of the processes, without that of `null_process`. -/
def Sched.processes (s : Sched ι τ k n) (i : ι) : Option Pcb := s.pcbs (.pcb i)

/-- Every process of `s'` is one of `s`, with its pid, its priority and its memory map. -/
def Sched.KeepsIdentity (s s' : Sched ι τ k n) : Prop := Entered Pcb.identity s.pcbs [] s'.pcbs

variable {c : Fin k} {s s' t : Sched ι τ k n} {old next next' : Option (PcbPtr ι)}

theorem Sched.KeepsIdentity.of_same (h : s'.pcbs = s.pcbs) : s.KeepsIdentity s' := by
  unfold Sched.KeepsIdentity
  rw [h]
  exact .refl _ _

theorem Sched.KeepsIdentity.trans (h : s.KeepsIdentity t) (h' : t.KeepsIdentity s') :
    s.KeepsIdentity s' := Entered.trans h h'

theorem Sched.KeepsIdentity.processes (h : s.KeepsIdentity s') :
    Entered Pcb.identity s.processes [] s'.processes := Entered.comp h PcbPtr.pcb

/-! ## Pids -/

/-- The entries have the pids with the numbers `a`, `a + 1`, and so on. -/
def Numbered (pid : Nat → Int) (a : Nat) (entries : List (ι × Identity)) : Prop :=
  entries.map (·.2.pid) = (List.range' a entries.length).map pid

variable {pid : Nat → Int} {a bound : Nat} {entries entries' : List (ι × Identity)}

theorem Numbered.append (h : Numbered pid a entries)
    (h' : Numbered pid (a + entries.length) entries') : Numbered pid a (entries ++ entries') := by
  unfold Numbered at h h' ⊢
  rw [List.map_append, h, h', List.length_append, ← List.map_append, List.range'_append_1]

/-- Fewer entries than there are different pids have different pids. -/
theorem Numbered.nodup (h : Numbered pid 0 entries)
    (hpid : ∀ q q', q < bound → q' < bound → pid q = pid q' → q = q')
    (hfew : entries.length ≤ bound) : (entries.map fun e => e.2.pid).Nodup := by
  have hsame : entries.map (fun e => e.2.pid) = _ := h
  rw [hsame]
  refine List.Nodup.map_on (fun q hq q' hq' heq => ?_) List.nodup_range'
  have hlt := (List.mem_range'_1.1 hq).2
  have hlt' := (List.mem_range'_1.1 hq').2
  exact hpid q q' (by omega) (by omega) heq

theorem Numbered.exists_number (h : Numbered pid a entries) {e : ι × Identity} (he : e ∈ entries) :
    ∃ q, a ≤ q ∧ q < a + entries.length ∧ e.2.pid = pid q := by
  have hmem : e.2.pid ∈ (List.range' a entries.length).map pid :=
    h ▸ List.mem_map_of_mem (f := fun e => e.2.pid) he
  obtain ⟨q, hq, hpid⟩ := List.mem_map.1 hmem
  have hrange := List.mem_range'_1.1 hq
  exact ⟨q, hrange.1, hrange.2, hpid.symm⟩

/-! ## The dispatcher -/

/-- Reference: `__sched_get_next_process_clean_queue` (`src/scheduler.c:89`). -/
theorem schedGetNextProcessCleanQueue_pcbs
    (h : schedGetNextProcessCleanQueue s c = .ok (next, s')) : s'.pcbs = s.pcbs := by
  unfold schedGetNextProcessCleanQueue schedGetNextProcess at h
  split at h
  · cases h
    rfl
  · split at h
    · obtain ⟨r, -, h⟩ := Outcome.bind_eq_ok.1 h
      cases h
      rfl
    · cases h
      rfl

/-- Reference: `__sched_update_running_pcb` (`src/scheduler.c:78`). -/
theorem schedUpdateRunningPcb_pcbs (h : schedUpdateRunningPcb s c = .ok s') : s'.pcbs = s.pcbs := by
  rcases schedUpdateRunningPcb_cases h with ⟨-, rfl⟩ | ⟨-, rfl⟩ <;> rfl

variable [DecidableEq ι]

/-- Reference: `sched_add_to_process_queue` (`src/scheduler.c:17`). -/
theorem schedAddToProcessQueue_keepsIdentity {x : PcbPtr ι}
    (h : schedAddToProcessQueue s x = .ok s') : s.KeepsIdentity s' := by
  obtain ⟨p, hp, h⟩ := Outcome.bind_eq_ok.1 h
  obtain ⟨obj, -, h⟩ := Outcome.bind_eq_ok.1 h
  cases h
  exact Entered.of_write (PcbHeap.read_eq_ok.1 hp) rfl

/-- Reference: `disp_dispatch` (`src/scheduler.c:129`). -/
theorem dispDispatch_entered {heap heap' : PcbHeap (PcbPtr ι)} {x : PcbPtr ι}
    {thread thread' : Thread n} (h : dispDispatch heap old x thread = .ok (heap', thread')) :
    Entered Pcb.identity heap [] heap' := by
  obtain ⟨heap₁, hold, h⟩ := Outcome.bind_eq_ok.1 h
  obtain ⟨p, hp, h⟩ := Outcome.bind_eq_ok.1 h
  cases h
  have hunload : Entered Pcb.identity heap [] heap₁ := by
    cases old with
    | none =>
      cases hold
      exact .refl _ _
    | some y =>
      obtain ⟨q, hq, hret⟩ := Outcome.bind_eq_ok.1 hold
      cases hret
      exact .of_write (PcbHeap.read_eq_ok.1 hq) rfl
  exact hunload.trans (.of_write (PcbHeap.read_eq_ok.1 hp) rfl)

/-- Reference: `disp_terminate` (`src/scheduler.c:136`). -/
theorem dispTerminate_entered {heap heap' : PcbHeap (PcbPtr ι)} {x : PcbPtr ι} {thread : Thread n}
    (h : dispTerminate heap thread x = .ok heap') : Entered Pcb.identity heap [] heap' := by
  obtain ⟨p, hp, h⟩ := Outcome.bind_eq_ok.1 h
  cases x with
  | nullProcess => cases h
  | pcb i =>
    obtain ⟨-, -, h⟩ := Outcome.bind_eq_ok.1 h
    cases h
    have hunload : Entered Pcb.identity heap [] (heap.write (.pcb i) (dispUnload thread p)) :=
      .of_write (PcbHeap.read_eq_ok.1 hp) rfl
    exact hunload.trans (.of_free _ _ _)

/-- Reference: `sched_dispatcher` (`src/scheduler.c:58`). -/
theorem schedDispatcherPutAway_keepsIdentity (h : schedDispatcherPutAway s c old = .ok s') :
    s.KeepsIdentity s' := by
  rcases schedDispatcherPutAway_cases h with
    ⟨-, rfl⟩ | ⟨-, x, status, -, -, ⟨-, pcbs, hterminate, rfl⟩ | ⟨-, hadd⟩⟩
  · exact .of_same rfl
  · exact dispTerminate_entered hterminate
  · exact schedAddToProcessQueue_keepsIdentity hadd

variable [DecidableEq τ]

/-- Reference: `sched_dispatcher` (`src/scheduler.c:42`). -/
theorem schedDispatcher_keepsIdentity (h : schedDispatcher s c = .ok s') : s.KeepsIdentity s' := by
  obtain ⟨⟨next, t⟩, hnext, h⟩ := Outcome.bind_eq_ok.1 h
  obtain ⟨⟨next', u⟩, hchoose, h⟩ := Outcome.bind_eq_ok.1 h
  have ht : s.KeepsIdentity t := .of_same (schedGetNextProcessCleanQueue_pcbs hnext)
  have hu : t.KeepsIdentity u := by
    rcases schedDispatcherChoose_cases hchoose with ⟨x, -, -, rfl⟩ | ⟨-, -, rfl, -⟩ | ⟨-, -, rfl, -⟩
      <;> exact .of_same rfl
  cases next' with
  | none =>
    cases h
    exact ht.trans hu
  | some x =>
    obtain ⟨v, hload, h⟩ := Outcome.bind_eq_ok.1 h
    obtain ⟨w, haway, h⟩ := Outcome.bind_eq_ok.1 h
    cases h
    obtain ⟨⟨pcbs, thread⟩, hdispatch, hload⟩ := Outcome.bind_eq_ok.1 hload
    cases hload
    have hv : u.KeepsIdentity w :=
      Entered.trans (dispDispatch_entered hdispatch) (schedDispatcherPutAway_keepsIdentity haway)
    exact (ht.trans hu).trans hv

/-! ## The passes -/

/-- Reference: `sched_execute` (`src/scheduler.c:26`). -/
theorem schedExecuteCore_keepsIdentity (h : schedExecuteCore s c = .ok s') :
    s.KeepsIdentity s' := by
  obtain ⟨t, hupdate, h⟩ := Outcome.bind_eq_ok.1 h
  have ht : s.KeepsIdentity t := .of_same (schedUpdateRunningPcb_pcbs hupdate)
  refine ht.trans ?_
  rcases schedExecuteUpdated_cases h with ⟨hdispatch, -⟩ | ⟨-, -, rfl⟩ | ⟨-, -, -, rfl⟩
  · exact schedDispatcher_keepsIdentity hdispatch
  · exact .of_same rfl
  · exact .of_same rfl

/-- Reference: `sched_execute` (`src/scheduler.c:24`). -/
theorem schedExecute_keepsIdentity (h : schedExecute s = .ok s') : s.KeepsIdentity s' :=
  Pass.foldlM_keeps (fun _ _ _ _ ht hturn => ht.trans (schedExecuteCore_keepsIdentity hturn))
    (.of_same rfl) h

/-- No step of the scheduler creates a process, or changes its pid, its priority or its memory
map. -/
theorem SchedStep.keepsIdentity {step : SchedStep ι k} (h : step.exec s = .ok s') :
    s.KeepsIdentity s' := by
  cases step with
  | add newPcb => exact schedAddToProcessQueue_keepsIdentity h
  | dispatcher c => exact schedDispatcher_keepsIdentity h
  | execute => exact schedExecute_keepsIdentity h

end SeKernel
