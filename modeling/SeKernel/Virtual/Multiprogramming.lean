import SeKernel.Virtual.Simulation

/-!
# Processes share processors

Hardware threads take turns at a set of processes: `disp_dispatch` gives a thread another process,
`execute_current` runs an instruction of the process that a thread holds, over one memory. While
each step's translations are those of the process's own table, every process is a virtual machine
that only its own steps change (`Processes.Shows.execute`, `Processes.Shows.dispatch`): how often,
on which threads and among which others it runs makes no difference to it
(`process_runs_alone`).
-/

namespace SeKernel

variable {κ ι : Type} {n : Nat}

/-- The hardware threads, the PCBs, the process that each thread holds, and the memory. -/
structure TimeShared (κ ι : Type) (n : Nat) extends DispState κ ι n where
  memory : Memory

/-- A switch of a thread to a process, or an instruction of the process that a thread holds. -/
inductive TimeCmd (κ ι : Type)
  | dispatch (c : κ) (newPcb : ι)
  | execute (c : κ)

/-- No process was ever loaded. -/
def timeSharedInit (threads : κ → Thread n) (pcbs : ι → Pcb) (memory : Memory) :
    TimeShared κ ι n :=
  { dispInit threads pcbs with memory }

/-- A switch brings the process that the thread holds or one that no thread holds; an instruction
is one of a process, and is translated by the process's table. -/
def TimeCmd.Valid [NeZero n] (s : TimeShared κ ι n) : TimeCmd κ ι → Prop
  | .dispatch c newPcb => s.current c = some newPcb ∨ ∀ c', s.current c' ≠ some newPcb
  | .execute c => (s.current c).isSome ∧ ByTable (s.threads c) s.memory

/-- The processes, each a virtual machine, and which thread holds which. -/
structure Processes (κ ι : Type) (pages : ι → Nat) where
  current : κ → Option ι
  machine : (i : ι) → VirtualMachine (pages i)

variable [DecidableEq κ] [DecidableEq ι]

/-- Reference: `disp_dispatch` (`src/scheduler.c:129`), `execute_current`
(`src/executor_s.c:35`). -/
def TimeCmd.exec [NeZero n] (s : TimeShared κ ι n) : TimeCmd κ ι → Outcome (TimeShared κ ι n)
  | .dispatch c newPcb => do
    let switched ← DispCmd.exec s.toDispState (.dispatch c newPcb)
    return { switched with memory := s.memory }
  | .execute c => do
    let (_, thread, memory) ← executeCurrent (s.threads c) s.memory
    return { s with threads := Function.update s.threads c thread, memory }

/-- One switch or one instruction. -/
def TimeStep [NeZero n] (s : TimeShared κ ι n) (cmd : TimeCmd κ ι) (t : TimeShared κ ι n) : Prop :=
  cmd.Valid s ∧ cmd.exec s = .ok t

variable {pages : ι → Nat}

/-- A switch changes no machine, an instruction is a step of the machine that the thread holds. -/
def Processes.next (p : Processes κ ι pages) : TimeCmd κ ι → Outcome (Processes κ ι pages)
  | .dispatch c newPcb => return { p with current := Function.update p.current c (some newPcb) }
  | .execute c =>
    match p.current c with
    | none => return p
    | some i => do
      let v ← (p.machine i).step
      return { p with machine := Function.update p.machine i v }

/-- What a command adds to the processes that the threads hold and to the steps of each. -/
def TimeCmd.account : (κ → Option ι) × (ι → Nat) → TimeCmd κ ι → (κ → Option ι) × (ι → Nat)
  | (current, steps), .dispatch c newPcb => (Function.update current c (some newPcb), steps)
  | (current, steps), .execute c =>
    (current, match current c with
      | none => steps
      | some i => Function.update steps i (steps i + 1))

/-- How many instructions of a process a run has. -/
def slices (cmds : List (TimeCmd κ ι)) (i : ι) : Nat :=
  (cmds.foldl TimeCmd.account (fun _ => none, fun _ => 0)).2 i

/-- The registers of the processes. -/
def Processes.cpus (p : Processes κ ι pages) : VirtualCpus κ ι where
  current := p.current
  contexts i := (p.machine i).cpu

/-- The words of each process are those that its table leads to, the tables are apart, and the
processes' registers are in the threads and the PCBs. -/
structure Processes.Shows (pgb : ι → Word) (p : Processes κ ι pages) (s : TimeShared κ ι n) :
    Prop where
  cpus : p.cpus.Shows s.toDispState
  tables : ∀ i, PageTable s.memory (pgb i) (pages i)
  apart : TablesApart s.memory pgb
  maps : ∀ i, (s.pcbs i).map (·.memoryMap.pgb) = some (pgb i)
  PTBR : ∀ c i, s.current c = some i → (s.threads c).PTBR = pgb i
  words : ∀ i, view (pages i) s.memory (pgb i) (p.machine i).cpu = p.machine i

variable {pgb : ι → Word} {p : Processes κ ι pages} {s t : TimeShared κ ι n}

omit [DecidableEq κ] [DecidableEq ι] in
/-- Only the registers of the threads matter. -/
theorem VirtualCpus.Shows.congr {v : VirtualCpus κ ι} {s s' : DispState κ ι n} (h : v.Shows s)
    (hcontext : ∀ c, (s'.threads c).context = (s.threads c).context) (hpcbs : s'.pcbs = s.pcbs)
    (hcurrent : s'.current = s.current) : v.Shows s' := by
  refine ⟨by rw [hcurrent, h.current], ?_, ?_, ?_⟩
  · rw [hcurrent]
    exact h.exclusive
  · intro c i hc
    rw [hcurrent] at hc
    rw [hcontext]
    exact h.held c i hc
  · intro i hi
    rw [hcurrent] at hi
    rw [hpcbs]
    exact h.idle i hi

/-- A switch leaves every process as it is. Reference: `disp_dispatch` (`src/scheduler.c:129`). -/
theorem Processes.Shows.dispatch [NeZero n] (h : p.Shows pgb s) {c : κ} {newPcb : ι}
    (hstep : TimeStep s (.dispatch c newPcb) t) :
    ∃ p', p.next (.dispatch c newPcb) = .ok p' ∧ p'.Shows pgb t := by
  obtain ⟨hvalid, hexec⟩ := hstep
  obtain ⟨switched, hswitch, hret⟩ := Outcome.bind_eq_ok.1 hexec
  cases hret
  refine ⟨_, rfl, h.cpus.dispatch ⟨hvalid, hswitch⟩, h.tables, h.apart, ?_, ?_, h.words⟩
  all_goals
    obtain ⟨⟨heap, thread⟩, hdisp, hret⟩ := Outcome.bind_eq_ok.1 hswitch
    cases hret
    obtain ⟨-, hptbr, hmaps⟩ := dispDispatch_frame hdisp
  · intro i
    have hmap := congrArg (Option.map MemoryMap.pgb) (hmaps i)
    simp only [Option.map_map] at hmap
    exact hmap.trans (h.maps i)
  · intro c' i hc'
    by_cases hcc : c' = c
    · subst hcc
      simp only [Function.update_self] at hc' ⊢
      cases hc'
      exact Option.some.inj (hptbr.symm.trans (h.maps newPcb))
    · simp only [Function.update_of_ne hcc] at hc' ⊢
      exact h.PTBR c' i hc'

/-- An instruction of the process that a thread holds is a step of that process's machine, and
leaves the others as they are. Reference: `execute_current` (`src/executor_s.c:35`). -/
theorem Processes.Shows.execute [NeZero n] (h : p.Shows pgb s) {c : κ}
    (hstep : TimeStep s (.execute c) t) :
    ∃ p', p.next (.execute c) = .ok p' ∧ p'.Shows pgb t := by
  obtain ⟨⟨hheld, hby⟩, hexec⟩ := hstep
  obtain ⟨⟨ret, thread, memory⟩, hex, hret⟩ := Outcome.bind_eq_ok.1 hexec
  cases hret
  obtain ⟨i, hi⟩ := Option.isSome_iff_exists.1 hheld
  have hpi : p.current c = some i := by
    rw [← hi, ← h.cpus.current]
    rfl
  have hmachine : view (pages i) s.memory (s.threads c).PTBR (s.threads c).context =
      p.machine i := by
    rw [h.PTBR c i hi, h.cpus.held c i hi]
    exact h.words i
  have htable := h.tables i
  rw [← h.PTBR c i hi] at htable
  have hshows := executeCurrent_shows htable hby
  rw [hex, hmachine] at hshows
  obtain ⟨v, hv, hr⟩ := hshows.of_ok_left
  obtain ⟨-, hptbr, hagree, hview⟩ := hr
  dsimp only at hptbr hagree hview
  rw [h.PTBR c i hi] at hptbr hagree hview
  have htables := h.apart.agree_table hagree
  refine ⟨{ p with machine := Function.update p.machine i v }, ?_, ?_,
    fun j => (h.tables j).congr (htables j), h.apart.congr htables, h.maps, ?_, ?_⟩
  · simp only [Processes.next, hpi, hv]
    rfl
  · have hcpu : v.cpu = thread.context := by
      rw [← hview]
      rfl
    have hnext : Processes.cpus { p with machine := Function.update p.machine i v } =
        p.cpus.next (.compute c thread.context) := by
      simp only [VirtualCpus.next, Processes.cpus, hpi, VirtualCpus.mk.injEq, true_and]
      funext j
      by_cases hj : j = i
      · subst hj
        rw [Function.update_self, Function.update_self, hcpu]
      · rw [Function.update_of_ne hj, Function.update_of_ne hj]
    rw [hnext]
    refine (h.cpus.compute c thread.context).congr (fun c' => ?_) rfl rfl
    by_cases hcc : c' = c
    · subst hcc
      simp
    · simp [hcc]
  · intro c' j hc'
    by_cases hcc : c' = c
    · subst hcc
      rw [show s.current c' = some j from hc'] at hi
      cases hi
      simpa using hptbr
    · simpa [hcc] using h.PTBR c' j hc'
  · intro j
    by_cases hj : j = i
    · subst hj
      simp only [Function.update_self, ← hview]
      rfl
    · simp only [Function.update_of_ne hj]
      rw [← h.words j]
      exact (h.tables j).view_congr (h.apart.agree_frames hagree hj) _

/-! ## Runs -/

omit [DecidableEq κ] [DecidableEq ι] in
/-- Before the first switch every process is in its PCB. -/
theorem processes_init [NeZero n] {threads : κ → Thread n} {pcbs : ι → Pcb} {memory : Memory}
    (htables : ∀ i, PageTable memory (pcbs i).memoryMap.pgb (pages i))
    (hapart : TablesApart memory fun i => (pcbs i).memoryMap.pgb) :
    Processes.Shows (fun i => (pcbs i).memoryMap.pgb)
      ⟨fun _ => none, fun i => view (pages i) memory (pcbs i).memoryMap.pgb (pcbs i).cpuSnapshot⟩
      (timeSharedInit threads pcbs memory) where
  cpus := ⟨rfl, fun _ _ _ h => (nomatch h), fun _ _ h => (nomatch h), fun _ _ => rfl⟩
  tables := htables
  apart := hapart
  maps _ := rfl
  PTBR _ _ h := nomatch h
  words _ := rfl

/-- In a run of the machines each of them takes the steps that the run has for it. -/
theorem Processes.run_eq {p₀ : Processes κ ι pages} {cmds : List (TimeCmd κ ι)}
    (hnone : p₀.current = fun _ => none)
    (h : Lts.Steps (fun p cmd p' => Processes.next p cmd = .ok p') p₀ cmds p) :
    p.current = (cmds.foldl TimeCmd.account (fun _ => none, fun _ => 0)).1 ∧
      ∀ i, (p₀.machine i).run (slices cmds i) = .ok (p.machine i) := by
  induction h with
  | refl => exact ⟨hnone, fun _ => rfl⟩
  | @tail cmds p p' cmd _ hlast ih =>
    obtain ⟨hcurrent, hruns⟩ := ih
    unfold slices at hruns ⊢
    rw [List.foldl_append, List.foldl_cons, List.foldl_nil]
    cases cmd with
    | dispatch c newPcb =>
      cases hlast
      exact ⟨by rw [hcurrent]; rfl, hruns⟩
    | execute c =>
      simp only [Processes.next] at hlast
      simp only [TimeCmd.account, ← hcurrent]
      cases hc : p.current c with
      | none =>
        rw [hc] at hlast
        cases hlast
        exact ⟨rfl, hruns⟩
      | some i =>
        rw [hc] at hlast
        obtain ⟨v, hv, hret⟩ := Outcome.bind_eq_ok.1 hlast
        cases hret
        refine ⟨rfl, fun j => ?_⟩
        by_cases hj : j = i
        · subst hj
          have hrun := hruns j
          simp only [Function.update_self, VirtualMachine.run] at hrun ⊢
          rw [Iterate.iter_add, hrun, Outcome.ok_bind, Iterate.iter_one]
          exact hv
        · simp only [Function.update_of_ne hj]
          exact hruns j

/-- In every run in which threads take any processes that no other thread holds, and every
instruction is translated by its own process's table, each process is where as many steps of its
virtual machine lead that no other process, thread or switch takes part in. Reference:
`disp_dispatch` (`src/scheduler.c:129`), `execute_current` (`src/executor_s.c:35`). -/
theorem process_runs_alone [NeZero n] {threads : κ → Thread n} {pcbs : ι → Pcb} {memory : Memory}
    (htables : ∀ i, PageTable memory (pcbs i).memoryMap.pgb (pages i))
    (hapart : TablesApart memory fun i => (pcbs i).memoryMap.pgb) {cmds : List (TimeCmd κ ι)}
    (h : Lts.Steps TimeStep (timeSharedInit threads pcbs memory) cmds s) (i : ι) :
    ∃ v, (view (pages i) memory (pcbs i).memoryMap.pgb (pcbs i).cpuSnapshot).run
        (slices cmds i) = .ok v ∧
      (∀ c, s.current c = some i →
        view (pages i) s.memory (pcbs i).memoryMap.pgb (s.threads c).context = v) ∧
      ((∀ c, s.current c ≠ some i) → ∃ q, s.pcbs i = some q ∧
        view (pages i) s.memory (pcbs i).memoryMap.pgb q.cpuSnapshot = v) := by
  have hstep (s u : TimeShared κ ι n) (cmd : TimeCmd κ ι) (p : Processes κ ι pages)
      (hp : p.Shows (fun i => (pcbs i).memoryMap.pgb) s) (hstep : TimeStep s cmd u) :
      ∃ p', p.next cmd = .ok p' ∧ p'.Shows (fun i => (pcbs i).memoryMap.pgb) u := by
    cases cmd with
    | dispatch c newPcb => exact hp.dispatch hstep
    | execute c => exact hp.execute hstep
  have hsimulated : ∃ p, Lts.Steps (fun p cmd p' => Processes.next p cmd = .ok p') _ cmds p ∧
      p.Shows (fun i => (pcbs i).memoryMap.pgb) s :=
    h.simulates (R := fun s p => Processes.Shows _ p s) hstep (processes_init htables hapart)
  obtain ⟨p, hrun, hshows⟩ := hsimulated
  refine ⟨p.machine i, (Processes.run_eq rfl hrun).2 i, fun c hc => ?_, fun hidle => ?_⟩
  · rw [hshows.cpus.held c i hc]
    exact hshows.words i
  · obtain ⟨q, hq, hcpu⟩ := Option.map_eq_some_iff.1 (hshows.cpus.idle i hidle)
    refine ⟨q, hq, ?_⟩
    rw [hcpu]
    exact hshows.words i

/-- Two processes on the two tables, and two hardware threads. -/
def twoOnTables : TimeShared (Fin 2) Bool 1 :=
  timeSharedInit (fun _ => ⟨0, 0, 0, fun _ => 0, 0, tlbFlush 1⟩)
    (fun x => ⟨0, 0, prReady, ⟨0, 0, twoPgb x⟩, ⟨0, 0, fun r => if r.val = 0 then 7 else 0, 0⟩⟩)
    twoTables

/-- A process makes room for the other one on its thread and stores from another thread. -/
theorem process_runs_alone_two : ∃ s : TimeShared (Fin 2) Bool 1,
    Lts.Steps TimeStep twoOnTables
      [.dispatch 0 false, .dispatch 0 true, .dispatch 1 false, .execute 1] s ∧
    ∃ v, (view 1 twoTables 0 ⟨0, 0, fun r => if r.val = 0 then 7 else 0, 0⟩).run 1 = .ok v ∧
      view 1 s.memory 0 (s.threads 1).context = v := by
  have hfirst : Lts.Steps TimeStep twoOnTables [.dispatch 0 false] _ :=
    Lts.Steps.refl.tail ⟨.inr fun _ => nofun, rfl⟩
  have haway : Lts.Steps TimeStep twoOnTables [.dispatch 0 false, .dispatch 0 true] _ :=
    hfirst.tail ⟨.inr (by decide), rfl⟩
  have hback : Lts.Steps TimeStep twoOnTables
      [.dispatch 0 false, .dispatch 0 true, .dispatch 1 false] _ :=
    haway.tail ⟨.inr (by decide), rfl⟩
  have hrun : Lts.Steps TimeStep twoOnTables
      [.dispatch 0 false, .dispatch 0 true, .dispatch 1 false, .execute 1] _ :=
    hback.tail ⟨⟨rfl, (PagesInTable.onTable (by decide) (by decide)).byTable⟩, rfl⟩
  have hone : ∀ x : Bool, PageTable twoTables (twoPgb x) ((fun _ => 1) x) := twoTables_pageTable
  obtain ⟨v, hv, hheld, -⟩ := process_runs_alone hone twoTables_apart hrun false
  exact ⟨_, hrun, v, hv, hheld 1 rfl⟩

end SeKernel
