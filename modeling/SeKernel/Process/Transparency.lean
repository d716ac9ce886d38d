import SeKernel.Lib.Lts
import SeKernel.Process.Pcb

/-!
# Context switches are transparent

Any number of hardware threads take processes from one set of PCBs. A switch saves the context (PC,
IR, cc, R) of the process it takes away and loads the one saved last of the process it brings
(`dispDispatch_transparent`). Threads hold different processes, so the program behaves as a machine
in which every process has a CPU of its own that only its own instructions change
(`dispRun_virtualCpu`). Registers and snapshots are the same 32-bit words, signed or not.
-/

namespace SeKernel

variable {κ ι : Type} {n : Nat}

/-- The hardware threads, the PCBs and the process that each thread holds. -/
structure DispState (κ ι : Type) (n : Nat) where
  threads : κ → Thread n
  pcbs : PcbHeap ι
  current : κ → Option ι
  -- the contexts that unloads have saved, newest first
  unloads : List (ι × CpuSnapshot)

/-- A call of `disp_dispatch` with the process that a thread holds and a new one, or instructions
that leave a thread with some context. -/
inductive DispCmd (κ ι : Type)
  | dispatch (c : κ) (newPcb : ι)
  | compute (c : κ) (context : CpuSnapshot)

/-- The registers of a thread that a process sees. -/
def Thread.context (thread : Thread n) : CpuSnapshot :=
  { PC := thread.PC, IR := thread.IR, R := thread.R, cc := thread.cc }

/-- The thread with other values in these registers. -/
def Thread.withContext (thread : Thread n) (context : CpuSnapshot) : Thread n :=
  { thread with PC := context.PC, IR := context.IR, R := context.R, cc := context.cc }

/-- No process was ever loaded. -/
def dispInit (threads : κ → Thread n) (pcbs : ι → Pcb) : DispState κ ι n :=
  ⟨threads, fun i => some (pcbs i), fun _ => none, []⟩

/-- The unload that the next switch of a thread makes. -/
def DispState.unload (s : DispState κ ι n) (c : κ) : List (ι × CpuSnapshot) :=
  match s.current c with
  | none => []
  | some oldPcb => [(oldPcb, (s.threads c).context)]

/-- The process brought to a thread is the one it holds or one that no thread holds. -/
def DispCmd.Valid (s : DispState κ ι n) : DispCmd κ ι → Prop
  | .dispatch c newPcb => s.current c = some newPcb ∨ ∀ c', s.current c' ≠ some newPcb
  | .compute _ _ => True

section
variable [DecidableEq κ] [DecidableEq ι]

/-- Reference: `disp_dispatch` (`src/scheduler.c:129`). -/
def DispCmd.exec (s : DispState κ ι n) : DispCmd κ ι → Outcome (DispState κ ι n)
  | .dispatch c newPcb => do
    let (pcbs, thread) ← dispDispatch s.pcbs (s.current c) newPcb (s.threads c)
    return {
      threads := Function.update s.threads c thread
      pcbs
      current := Function.update s.current c (some newPcb)
      unloads := s.unload c ++ s.unloads }
  | .compute c context => return { s with
      threads := Function.update s.threads c ((s.threads c).withContext context) }

/-- One switch, or one stretch of instructions. -/
def DispStep (s : DispState κ ι n) (cmd : DispCmd κ ι) (t : DispState κ ι n) : Prop :=
  cmd.Valid s ∧ cmd.exec s = .ok t

/-- The context a process had when it was last unloaded, or its first one. -/
def DispState.lastUnload (s : DispState κ ι n) (pcbs : ι → Pcb) (i : ι) : CpuSnapshot :=
  (s.unloads.lookup i).getD (pcbs i).cpuSnapshot

end

/-! ## One switch -/

@[simp] theorem dispLoad_context (thread : Thread n) (pcb : Pcb) :
    (dispLoad thread pcb).1.context = pcb.cpuSnapshot := rfl

@[simp] theorem dispUnload_cpuSnapshot (thread : Thread n) (pcb : Pcb) :
    (dispUnload thread pcb).cpuSnapshot = thread.context := rfl

@[simp] theorem Thread.withContext_context (thread : Thread n) (context : CpuSnapshot) :
    (thread.withContext context).context = context := rfl

variable [DecidableEq ι]

/-- Unloading a process saves the thread's context in its PCB, and nothing else is saved.
Reference: `__disp_unload` (`src/scheduler.c:163`). -/
theorem dispUnloadOld_snapshot {heap heap₁ : PcbHeap ι} {thread : Thread n} {oldPcb : Option ι}
    (h : dispUnloadOld heap thread oldPcb = .ok heap₁) (i : ι) :
    (heap₁ i).map (·.cpuSnapshot) =
      if oldPcb = some i then some thread.context else (heap i).map (·.cpuSnapshot) := by
  cases oldPcb with
  | none => cases h; rfl
  | some old =>
    obtain ⟨q, -, hret⟩ := Outcome.bind_eq_ok.1 h
    cases hret
    unfold PcbHeap.write
    by_cases hi : i = old
    · simp [hi]
    · have hne : ¬ old = i := fun h => hi h.symm
      simp [hi, hne]

/-- A switch unloads the old process, then loads the new one. Reference: `disp_dispatch`
(`src/scheduler.c:129`). -/
theorem dispDispatch_eq_ok {heap heap' : PcbHeap ι} {oldPcb : Option ι} {newPcb : ι}
    {thread thread' : Thread n} :
    dispDispatch heap oldPcb newPcb thread = .ok (heap', thread') ↔
      ∃ heap₁ p, dispUnloadOld heap thread oldPcb = .ok heap₁ ∧ heap₁ newPcb = some p ∧
        heap' = heap₁.write newPcb (dispLoad thread p).2 ∧ thread' = (dispLoad thread p).1 := by
  constructor
  · intro h
    obtain ⟨heap₁, hold, h⟩ := Outcome.bind_eq_ok.1 h
    obtain ⟨p, hp, h⟩ := Outcome.bind_eq_ok.1 h
    cases h
    exact ⟨heap₁, p, hold, PcbHeap.read_eq_ok.1 hp, rfl, rfl⟩
  · rintro ⟨heap₁, p, hold, hp, rfl, rfl⟩
    rw [← PcbHeap.read_eq_ok] at hp
    simp [dispDispatch, hold, hp]

/-- Among PCBs that are all there a switch goes through. -/
theorem dispDispatch_total {heap : PcbHeap ι} (thread : Thread n) (oldPcb : Option ι) (newPcb : ι)
    (hheap : ∀ i, (heap i).isSome) : ∃ r, dispDispatch heap oldPcb newPcb thread = .ok r := by
  obtain ⟨heap₁, hold⟩ : ∃ heap₁, dispUnloadOld heap thread oldPcb = .ok heap₁ := by
    cases oldPcb with
    | none => exact ⟨heap, rfl⟩
    | some old =>
      obtain ⟨q, hq⟩ := Option.isSome_iff_exists.1 (hheap old)
      rw [← PcbHeap.read_eq_ok] at hq
      exact ⟨_, by simp [dispUnloadOld, hq]; rfl⟩
  have hsnapshot := dispUnloadOld_snapshot hold newPcb
  cases hp : heap₁ newPcb with
  | none =>
    rw [hp] at hsnapshot
    split at hsnapshot
    · cases hsnapshot
    · have hnone := hheap newPcb
      rw [Option.map_none, eq_comm, Option.map_eq_none_iff] at hsnapshot
      simp [hsnapshot] at hnone
  | some p => exact ⟨_, dispDispatch_eq_ok.2 ⟨heap₁, p, hold, hp, rfl, rfl⟩⟩

/-- After a switch the old process's snapshot is the context the thread had, and no other snapshot
has changed. -/
theorem dispDispatch_snapshot {heap heap' : PcbHeap ι} {oldPcb : Option ι} {newPcb : ι}
    {thread thread' : Thread n}
    (h : dispDispatch heap oldPcb newPcb thread = .ok (heap', thread')) (i : ι) :
    (heap' i).map (·.cpuSnapshot) =
      if oldPcb = some i then some thread.context else (heap i).map (·.cpuSnapshot) := by
  obtain ⟨heap₁, p, hold, hp, rfl, -⟩ := dispDispatch_eq_ok.1 h
  rw [← dispUnloadOld_snapshot hold i]
  unfold PcbHeap.write
  by_cases hi : i = newPcb
  · simp [hi, hp, dispLoad]
  · rw [Function.update_of_ne hi]

/-- After a switch the thread runs from the new process's PCB. Reference: `__disp_load`
(`src/scheduler.c:152`). -/
theorem dispDispatch_loads {heap heap' : PcbHeap ι} {oldPcb : Option ι} {newPcb : ι}
    {thread thread' : Thread n}
    (h : dispDispatch heap oldPcb newPcb thread = .ok (heap', thread')) :
    ∃ p, heap' newPcb = some p ∧ thread'.context = p.cpuSnapshot ∧
      thread'.PTBR = p.memoryMap.pgb ∧ p.status = prExec := by
  obtain ⟨heap₁, p, -, -, rfl, rfl⟩ := dispDispatch_eq_ok.1 h
  exact ⟨(dispLoad thread p).2, Function.update_self .., rfl, rfl, rfl⟩

/-! ## Runs -/

variable {pcbs : ι → Pcb} {s t : DispState κ ι n}

/-- Every PCB is there and holds the context its process had when it was last unloaded. -/
def DispState.Saved (pcbs : ι → Pcb) (s : DispState κ ι n) : Prop :=
  ∀ i, (s.pcbs i).map (·.cpuSnapshot) = some (s.lastUnload pcbs i)

theorem dispInit_saved (threads : κ → Thread n) (pcbs : ι → Pcb) :
    (dispInit threads pcbs).Saved pcbs := fun _ => rfl

/-- A switch is the last unload of the process it takes away. -/
theorem DispState.lastUnload_unload (pcbs : ι → Pcb) (c : κ) (i : ι)
    (h : t.unloads = s.unload c ++ s.unloads) :
    t.lastUnload pcbs i =
      if s.current c = some i then (s.threads c).context else s.lastUnload pcbs i := by
  unfold DispState.lastUnload
  rw [h]
  unfold DispState.unload
  cases s.current c with
  | none => rfl
  | some oldPcb =>
    by_cases hi : i = oldPcb
    · simp [hi]
    · have hne : ¬ oldPcb = i := fun h => hi h.symm
      simp [List.lookup_cons, beq_false_of_ne hi, hne]

variable [DecidableEq κ]

/-- A switch and a stretch of instructions, by what they change. -/
theorem DispStep.cases {cmd : DispCmd κ ι} (h : DispStep s cmd t) :
    (∃ c newPcb heap thread, cmd = .dispatch c newPcb ∧
      dispDispatch s.pcbs (s.current c) newPcb (s.threads c) = .ok (heap, thread) ∧
      t = ⟨Function.update s.threads c thread, heap, Function.update s.current c (some newPcb),
        s.unload c ++ s.unloads⟩) ∨
    ∃ c context, cmd = .compute c context ∧
      t = { s with threads :=
        Function.update s.threads c ((s.threads c).withContext context) } := by
  obtain ⟨-, hexec⟩ := h
  cases cmd with
  | dispatch c newPcb =>
    obtain ⟨⟨heap, thread⟩, hdisp, hret⟩ := Outcome.bind_eq_ok.1 hexec
    cases hret
    exact .inl ⟨c, newPcb, heap, thread, rfl, hdisp, rfl⟩
  | compute c context =>
    cases hexec
    exact .inr ⟨c, context, rfl, rfl⟩

/-- Every step keeps what is saved up to date. -/
theorem DispStep.saved {cmd : DispCmd κ ι} (hs : s.Saved pcbs) (h : DispStep s cmd t) :
    t.Saved pcbs := by
  obtain ⟨c, newPcb, heap, thread, -, hdisp, rfl⟩ | ⟨c, context, -, rfl⟩ := h.cases
  · intro i
    rw [DispState.lastUnload_unload pcbs c i rfl, dispDispatch_snapshot hdisp i, hs i]
    split <;> rfl
  · exact hs

/-- In every run in which each thread takes its own process or one that no thread holds, a switch
goes through and leaves the thread with the context that the new process had when it was last
unloaded (or its first one), with its page table, and the process as executing; the snapshots of all
PCBs but the old one stay. Reference: `disp_dispatch` (`src/scheduler.c:129`). -/
theorem dispDispatch_transparent {threads : κ → Thread n} {cmds : List (DispCmd κ ι)}
    (h : Lts.Steps DispStep (dispInit threads pcbs) cmds s) {c : κ} {newPcb : ι}
    (hnew : s.current c = some newPcb ∨ ∀ c', s.current c' ≠ some newPcb) :
    ∃ t p, DispStep s (.dispatch c newPcb) t ∧ t.current c = some newPcb ∧
      t.pcbs newPcb = some p ∧ (t.threads c).context = t.lastUnload pcbs newPcb ∧
      (t.threads c).PTBR = p.memoryMap.pgb ∧ p.status = prExec ∧
      ∀ i, s.current c ≠ some i →
        (t.pcbs i).map (·.cpuSnapshot) = (s.pcbs i).map (·.cpuSnapshot) := by
  have hsaved : s.Saved pcbs :=
    h.invariant (fun _ _ _ hs hstep => hstep.saved hs) (dispInit_saved threads pcbs)
  obtain ⟨⟨heap, thread⟩, hdisp⟩ := dispDispatch_total (s.threads c) (s.current c) newPcb
    fun i => by simpa using congrArg Option.isSome (hsaved i)
  have hstep : DispStep s (.dispatch c newPcb) ⟨Function.update s.threads c thread, heap,
      Function.update s.current c (some newPcb), s.unload c ++ s.unloads⟩ :=
    ⟨hnew, by simp [DispCmd.exec, hdisp]⟩
  obtain ⟨p, hp, hcontext, hptbr, hstatus⟩ := dispDispatch_loads hdisp
  refine ⟨_, p, hstep, Function.update_self .., hp, ?_, ?_, hstatus, fun i hi => ?_⟩
  · have hlast := hstep.saved hsaved newPcb
    simp only [hp, Option.map_some, Option.some.injEq] at hlast
    simpa [hcontext] using hlast
  · simpa using hptbr
  · simpa [hi] using dispDispatch_snapshot hdisp i

/-- Two processes, and two hardware threads that have run none yet. -/
def twoProcesses : DispState (Fin 2) (Fin 2) 1 :=
  dispInit (fun _ => ⟨0, 0, 0, fun _ => 0, 0, tlbFlush 1⟩)
    fun _ => ⟨0, 0, prReady, ⟨0, 0, 0x100⟩, ⟨0, 0, fun _ => 0, 0⟩⟩

/-- A process computes on thread 0, makes room for the other one, and goes on where it stopped on
thread 1. -/
theorem dispDispatch_transparent_two : ∃ s t : DispState (Fin 2) (Fin 2) 1,
    Lts.Steps DispStep twoProcesses
      [.dispatch 0 0, .compute 0 ⟨4, 0xF0000000, fun _ => 7, 1⟩, .dispatch 0 1] s ∧
    DispStep s (.dispatch 1 0) t ∧
    (t.threads 1).context = ⟨4, 0xF0000000, fun _ => 7, 1⟩ := by
  have hfirst : Lts.Steps DispStep twoProcesses [.dispatch 0 0] _ :=
    Lts.Steps.refl.tail ⟨.inr fun _ => nofun, rfl⟩
  have hcompute : Lts.Steps DispStep twoProcesses
      [.dispatch 0 0, .compute 0 ⟨4, 0xF0000000, fun _ => 7, 1⟩] _ :=
    hfirst.tail ⟨trivial, rfl⟩
  have hrun : Lts.Steps DispStep twoProcesses
      [.dispatch 0 0, .compute 0 ⟨4, 0xF0000000, fun _ => 7, 1⟩, .dispatch 0 1] _ :=
    hcompute.tail ⟨.inr (by decide), rfl⟩
  obtain ⟨t, p, hstep, -, -, hcontext, -⟩ := dispDispatch_transparent hrun (c := 1)
    (.inr fun c => show _ ≠ some (0 : Fin 2) by revert c; decide)
  refine ⟨_, t, hrun, hstep, hcontext.trans ?_⟩
  cases hstep.2
  rfl

/-! ## A CPU of its own for every process -/

/-- A CPU for every process, and which thread lends its hardware to which of them. -/
structure VirtualCpus (κ ι : Type) where
  current : κ → Option ι
  contexts : ι → CpuSnapshot

/-- A switch changes no context, and instructions change the context of the process that the thread
holds. -/
def VirtualCpus.next (v : VirtualCpus κ ι) : DispCmd κ ι → VirtualCpus κ ι
  | .dispatch c newPcb => { v with current := Function.update v.current c (some newPcb) }
  | .compute c context => { v with
      contexts := match v.current c with
        | none => v.contexts
        | some i => Function.update v.contexts i context }

/-- No two threads hold one process; a process that a thread holds has its context there, another
one in its PCB. -/
structure VirtualCpus.Shows (v : VirtualCpus κ ι) (s : DispState κ ι n) : Prop where
  current : v.current = s.current
  exclusive : ∀ c c' i, s.current c = some i → s.current c' = some i → c = c'
  held : ∀ c i, s.current c = some i → (s.threads c).context = v.contexts i
  idle : ∀ i, (∀ c, s.current c ≠ some i) → (s.pcbs i).map (·.cpuSnapshot) = some (v.contexts i)

variable {v : VirtualCpus κ ι}

/-- A switch leaves every process's context as it is. -/
theorem VirtualCpus.Shows.dispatch (hv : v.Shows s) {c : κ} {newPcb : ι}
    (h : DispStep s (.dispatch c newPcb) t) : (v.next (.dispatch c newPcb)).Shows t := by
  have hvalid : s.current c = some newPcb ∨ ∀ c', s.current c' ≠ some newPcb := h.1
  obtain ⟨⟨heap, thread⟩, hdisp, hret⟩ := Outcome.bind_eq_ok.1 h.2
  cases hret
  have hsnapshot := dispDispatch_snapshot hdisp
  obtain ⟨p, hp, hcontext, -, -⟩ := dispDispatch_loads hdisp
  refine ⟨by simp [VirtualCpus.next, hv.current], ?_, ?_, ?_⟩
  · intro c₁ c₂ i h₁ h₂
    simp only [Function.update_apply] at h₁ h₂
    split_ifs at h₁ h₂ with hc₁ hc₂ hc₂
    · rw [hc₁, hc₂]
    · cases h₁
      rcases hvalid with hown | hfree
      · exact hc₁.trans (hv.exclusive c c₂ newPcb hown h₂)
      · exact absurd h₂ (hfree c₂)
    · cases h₂
      rcases hvalid with hown | hfree
      · exact (hv.exclusive c₁ c newPcb h₁ hown).trans hc₂.symm
      · exact absurd h₁ (hfree c₁)
    · exact hv.exclusive c₁ c₂ i h₁ h₂
  · intro c' i hc'
    simp only [Function.update_apply] at hc' ⊢
    split_ifs at hc' ⊢ with heq
    · cases hc'
      have hnew := hsnapshot newPcb
      rw [hp] at hnew
      rw [hcontext]
      rcases hvalid with hown | hfree
      · rw [if_pos hown, hv.held c newPcb hown] at hnew
        exact Option.some.inj hnew
      · rw [if_neg (hfree c), hv.idle newPcb hfree] at hnew
        exact Option.some.inj hnew
    · exact hv.held c' i hc'
  · intro i hi
    rw [hsnapshot i]
    split_ifs with hold
    · rw [hv.held c i hold]
      rfl
    · refine hv.idle i fun c' hc' => ?_
      have hne : c' ≠ c := fun heq => hold (heq ▸ hc')
      exact hi c' (by simpa [hne] using hc')

/-- Instructions change the context of the process that the thread holds, and of no other. -/
theorem VirtualCpus.Shows.compute (hv : v.Shows s) (c : κ) (context : CpuSnapshot) :
    (v.next (.compute c context)).Shows { s with
      threads := Function.update s.threads c ((s.threads c).withContext context) } := by
  have hnext : v.next (.compute c context) = ⟨s.current, match s.current c with
      | none => v.contexts
      | some i => Function.update v.contexts i context⟩ := by
    rw [← hv.current]
    rfl
  rw [hnext]
  refine ⟨rfl, hv.exclusive, ?_, ?_⟩
  · intro c' i hc'
    by_cases heq : c' = c
    · subst heq
      have hi : s.current c' = some i := hc'
      simp [hi]
    · have hcontext := hv.held c' i hc'
      cases hc : s.current c with
      | none => simpa [heq] using hcontext
      | some j =>
        have hij : i ≠ j := fun hij => heq (hv.exclusive c' c i hc' (hij ▸ hc))
        simpa [heq, hij] using hcontext
  · intro i hi
    cases hc : s.current c with
    | none => exact hv.idle i hi
    | some j =>
      have hij : i ≠ j := fun hij => hi c (hij ▸ hc)
      simpa [hij] using hv.idle i hi

/-- Every run of the threads is a run of a machine on which every process has a CPU of its own.
Reference: `disp_dispatch` (`src/scheduler.c:129`). -/
theorem dispRun_virtualCpu {threads : κ → Thread n} {cmds : List (DispCmd κ ι)}
    (h : Lts.Steps DispStep (dispInit threads pcbs) cmds s) :
    ∃ v : VirtualCpus κ ι, Lts.Steps (fun v cmd v' => v' = v.next cmd)
      ⟨fun _ => none, fun i => (pcbs i).cpuSnapshot⟩ cmds v ∧ v.Shows s := by
  refine h.simulates (R := fun s (v : VirtualCpus κ ι) => v.Shows s)
    (fun s u cmd v hv hstep => ?_) ?_
  · refine ⟨v.next cmd, rfl, ?_⟩
    cases cmd with
    | dispatch c newPcb => exact hv.dispatch hstep
    | compute c context =>
      cases hstep.2
      exact hv.compute c context
  · exact ⟨rfl, fun _ _ _ h => (nomatch h), fun _ _ h => (nomatch h), fun _ _ => rfl⟩

end SeKernel
