import SeKernel.Kernel.Clocked
import SeKernel.Scheduler.Identity

/-!
# What a pid stands for

The loader gives out the pids, and the scheduler and the executor leave them alone. So in every run
of the kernel, whatever the state of the scheduler and the interleaving of the timers, a pid stands
for one process (`kernel_pid_identifies`): the PCB of a process that is found at two times has been
at one address all the time between, with one priority and one page table.
-/

namespace SeKernel

open Ledger

variable {π ι : Type} {k m n : Nat}

/-- What actions make of the processes: those that are new have the next pids of the loader. -/
structure LoadState.Enters (pid : Nat → Int) (a : Nat) (s : LoadState π ι Ptr m k n)
    (entries : List (ι × Identity)) (s' : LoadState π ι Ptr m k n) : Prop where
  entered : Entered Pcb.identity s.sched.processes entries s'.sched.processes
  numbered : Numbered pid a entries
  pridCounter : s'.loader.pridCounter = pid (a + entries.length)
  files : s.loader.unloadedElfList.length = s'.loader.unloadedElfList.length + entries.length
  maxPrio : s'.loader.maxPrio = s.loader.maxPrio
  priorities : ∀ e ∈ entries, ∃ rand : Int, e.2.currentPriority = rand.tmod s.loader.maxPrio

variable {pid : Nat → Int} {a start : Nat} {entries entries' : List (ι × Identity)}
  {s s' t : LoadState π ι Ptr m k n}

/-- Nothing new. -/
theorem LoadState.Enters.of_keeps (hcounter : s.loader.pridCounter = pid a)
    (hloader : s'.loader = s.loader)
    (hentered : Entered Pcb.identity s.sched.processes [] s'.sched.processes) :
    s.Enters pid a [] s' where
  entered := hentered
  numbered := rfl
  pridCounter := by rw [hloader]; exact hcounter
  files := by rw [hloader]; rfl
  maxPrio := by rw [hloader]
  priorities := nofun

theorem LoadState.Enters.trans (h : s.Enters pid a entries t)
    (h' : t.Enters pid (a + entries.length) entries' s') :
    s.Enters pid a (entries ++ entries') s' where
  entered := h.entered.trans h'.entered
  numbered := h.numbered.append h'.numbered
  pridCounter := by rw [h'.pridCounter, List.length_append, Nat.add_assoc]
  files := by rw [h.files, h'.files, List.length_append]; omega
  maxPrio := h'.maxPrio.trans h.maxPrio
  priorities e he := by
    rcases List.mem_append.1 he with he | he
    · exact h.priorities e he
    · rw [← h.maxPrio]
      exact h'.priorities e he

variable [NeZero m] [DecidableEq ι] {mmuMalloc : MmuMalloc}
  {files : π → Option ProgramFile}

/-- A call of the loader enters the process that it loads. Reference: `loader_load_next_process`
(`src/loader_s.c:58`). -/
theorem LoadCall.enters {call : LoadCall ι} {ret : Int} {p₀ : Int}
    (hcounter : s.loader.pridCounter = pidAfter p₀ a)
    (hcall : call.exec mmuMalloc files s = .ok (ret, s')) :
    ∃ entries, s.Enters (pidAfter p₀) a entries s' := by
  rcases LoadCall.exec_cases hcall with ⟨-, -, rfl⟩ | ⟨-, path, pcb, hload⟩
  · exact ⟨[], .of_keeps hcounter rfl (.refl _ _)⟩
  · obtain ⟨r, hfile⟩ := hload.file
    obtain ⟨hpid, hpriority⟩ := loadFile_pid hfile
    have hbounds := pidAfter_bounds p₀ a
    rw [← hcounter] at hbounds
    have hprocesses : s'.sched.processes =
        Function.update s.sched.processes call.pcb (some { pcb with status := prReady }) := by
      unfold Sched.processes
      rw [hload.pcbs]
      exact Function.update_comp_eq_of_injective _ (fun _ _ => PcbPtr.pcb.inj) _ _
    refine ⟨[(call.pcb, pcb.identity)], ?_, ?_, ?_, ?_, hload.maxPrio, fun e he => ?_⟩
    · rw [hprocesses]
      exact .of_update Pcb.identity _ _ { pcb with status := prReady }
    · show [pcb.pid] = [pidAfter p₀ a]
      rw [hpid, ← hcounter]
      rfl
    · rw [hload.pridCounter, loaderGetValidPid_eq hbounds.1 hbounds.2, hcounter, pidAfter_add]
      rfl
    · rw [hload.paths, List.length_append]
      rfl
    · obtain rfl := List.mem_singleton.1 he
      exact ⟨call.rand, hpriority⟩

variable [NeZero n] {exec : ExecutorT}

/-- The action of a timer. -/
theorem KernelTimer.Act.enters {timer : KernelTimer} {p₀ : Int}
    (hcounter : s.loader.pridCounter = pidAfter p₀ a)
    (hact : timer.Act exec mmuMalloc files s s') :
    ∃ entries, s.Enters (pidAfter p₀) a entries s' := by
  cases timer with
  | scheduler =>
    obtain ⟨sched, hpass, rfl⟩ := hact
    exact ⟨[], .of_keeps hcounter rfl (schedExecute_keepsIdentity hpass).processes⟩
  | loader =>
    obtain ⟨call, ret, hcall⟩ := hact
    exact LoadCall.enters hcounter hcall
  | executor =>
    obtain ⟨t, -, rfl⟩ := hact
    exact ⟨[], .of_keeps hcounter rfl (.refl _ _)⟩

/-- Any number of actions. -/
theorem LoadState.enters_of_run {timers : List KernelTimer} {p₀ : Int}
    (hcounter : s.loader.pridCounter = pidAfter p₀ a)
    (hrun : Lts.Steps (fun s timer s' => KernelTimer.Act exec mmuMalloc files s timer s') s timers
      s') : ∃ entries, s.Enters (pidAfter p₀) a entries s' := by
  induction hrun with
  | refl => exact ⟨[], .of_keeps hcounter rfl (.refl _ _)⟩
  | tail _ hlast ih =>
    obtain ⟨entries, hentries⟩ := ih
    obtain ⟨entries', hentries'⟩ := KernelTimer.Act.enters hentries.pridCounter hlast
    exact ⟨entries ++ entries', hentries.trans hentries'⟩

/-- In every run of the kernel from a state without processes, with fewer than `2 ^ 31` files: two
processes with one pid at two times of the run are one process. It has one address, one priority
and one memory map, it was there at every time in between, and its pid is the one that the loader
gives out at one of the loads before. No process changes its pid, and the pid of one that has been
destroyed is not used again. Reference: `loader_load_next_process` (`src/loader_s.c:58`),
`sched_execute` (`src/scheduler.c:24`), `executor_exec` (`src/executor_s.c:18`). -/
theorem kernel_pid_identifies {s₀ s₁ s₂ s₃ : LoadState π ι Ptr m k n}
    {timers₁ timers₂ timers₃ : List KernelTimer} {i j : ι} {p q : Pcb}
    (hnone : ∀ i, s₀.sched.pcbs (.pcb i) = none) (hpos : 0 < s₀.loader.pridCounter)
    (hint : s₀.loader.pridCounter ≤ 0x7FFFFFFF)
    (hfiles : s₀.loader.unloadedElfList.length ≤ 0x7FFFFFFF)
    (h₁ : Lts.Steps (fun s timer s' => KernelTimer.Act exec mmuMalloc files s timer s') s₀ timers₁
      s₁)
    (h₂ : Lts.Steps (fun s timer s' => KernelTimer.Act exec mmuMalloc files s timer s') s₁ timers₂
      s₂)
    (h₃ : Lts.Steps (fun s timer s' => KernelTimer.Act exec mmuMalloc files s timer s') s₂ timers₃
      s₃)
    (hp : s₁.sched.pcbs (.pcb i) = some p) (hq : s₃.sched.pcbs (.pcb j) = some q)
    (hpid : p.pid = q.pid) :
    i = j ∧ p.identity = q.identity ∧
      (∃ r, s₂.sched.pcbs (.pcb i) = some r ∧ r.identity = p.identity) ∧
      (∃ load : Nat, load + s₁.loader.unloadedElfList.length < s₀.loader.unloadedElfList.length ∧
        p.pid = pidAfter s₀.loader.pridCounter load) ∧
      ∃ rand : Int, p.currentPriority = rand.tmod s₀.loader.maxPrio := by
  have hstart := (pidAfter_zero hpos hint).symm
  obtain ⟨entries₁, henters₁⟩ := LoadState.enters_of_run hstart h₁
  obtain ⟨entries₂, henters₂⟩ := LoadState.enters_of_run henters₁.pridCounter h₂
  obtain ⟨entries₃, henters₃⟩ := LoadState.enters_of_run henters₂.pridCounter h₃
  have hall := (henters₁.trans henters₂).trans
    (by rw [List.length_append, ← Nat.add_assoc]; exact henters₃)
  have hnames : ((entries₁ ++ entries₂ ++ entries₃).map fun e => e.2.pid).Nodup := by
    have htotal := hall.files
    have hdifferent : ∀ q q' : Nat, q < 0x7FFFFFFF → q' < 0x7FFFFFFF →
        pidAfter s₀.loader.pridCounter q = pidAfter s₀.loader.pridCounter q' → q = q' :=
      fun q q' hq hq' heq => (pidAfter_inj (by omega) (by omega)).1 heq
    exact hall.numbered.nodup hdifferent (by omega)
  obtain ⟨hij, hidentity, hbetween⟩ := henters₁.entered.same_record henters₂.entered
    henters₃.entered Identity.pid hnone hnames hp hq hpid
  have hentry : (i, p.identity) ∈ entries₁ := henters₁.entered.mem hnone hp
  obtain ⟨load, -, hload, hnumber⟩ := henters₁.numbered.exists_number hentry
  have htaken := henters₁.files
  exact ⟨hij, hidentity, hbetween, ⟨load, by omega, hnumber⟩, henters₁.priorities _ hentry⟩

/-- The one process is there after a round and a pass. -/
theorem kernel_pid_identifies_one : ∃ (s₁ s₂ s₃ : LoadState Unit Unit Ptr 10 1 1) (p q : Pcb),
    Lts.Steps (fun s timer s' => KernelTimer.Act (executorInit oneCpu) SeKernel.mmuMalloc
      (fun _ => some emptyFile) s timer s') storingKernel [.loader] s₁ ∧
    s₁.sched.pcbs (.pcb ()) = some p ∧ s₃.sched.pcbs (.pcb ()) = some q ∧
    p.identity = q.identity ∧ ∃ r, s₂.sched.pcbs (.pcb ()) = some r ∧ r.identity = p.identity := by
  let Act (s : LoadState Unit Unit Ptr 10 1 1) (timer : KernelTimer)
      (s' : LoadState Unit Unit Ptr 10 1 1) : Prop :=
    KernelTimer.Act (executorInit oneCpu) SeKernel.mmuMalloc (fun _ => some emptyFile) s timer s'
  obtain ⟨s₁, s₂, s₃, hload, hround, hpass, p, q, hp, hq, hpid⟩ : ∃ s₁ s₂ s₃,
      Act storingKernel .loader s₁ ∧ Act s₁ .executor s₂ ∧ Act s₂ .scheduler s₃ ∧ ∃ p q,
        s₁.sched.pcbs (.pcb ()) = some p ∧ s₃.sched.pcbs (.pcb ()) = some q ∧ p.pid = q.pid :=
    ⟨_, _, _, ⟨⟨(), zeroPcb, 25⟩, 0, rfl⟩, ⟨_, rfl, rfl⟩, ⟨_, rfl, rfl⟩, _, _, rfl, rfl, rfl⟩
  have hfirst : Lts.Steps Act storingKernel [.loader] s₁ := Lts.Steps.refl.tail hload
  obtain ⟨-, hidentity, hbetween, -⟩ := kernel_pid_identifies (fun _ => rfl) (by decide)
    (by decide) (by decide) hfirst (Lts.Steps.refl.tail hround) (Lts.Steps.refl.tail hpass) hp hq
    hpid
  exact ⟨s₁, s₂, s₃, p, q, hfirst, hp, hq, hidentity, hbetween⟩

end SeKernel
