import SeKernel.Cpu.NonInterference
import SeKernel.Lib.Product
import SeKernel.Scheduler.ControlArray
import SeKernel.Virtual.Simulation

/-!
# All threads run virtual machines

`execute_all` gives each hardware thread of the machine one turn, over one shared memory. Threads on
page tables that are apart are a family of virtual machines that share nothing
(`SeKernel.Lib.Product`): a turn of one thread is a step of its machine and none of the others
(`Hosted.turn`), so any number of rounds is, for every thread, as many steps of its machine alone
(`executeAll_runs_virtualMachines`).
-/

namespace SeKernel

section

variable {ι : Type} {n : ι → Nat} [∀ x, NeZero (n x)] [DecidableEq ι]

/-- The turn of one thread. Reference: `execute_all` (`src/executor_s.c:29`). -/
def Threads.turn (s : Threads n) (x : ι) : Outcome (Threads n) := do
  let (_, s) ← s.step x
  return s

/-- The turns of some threads, in order. -/
def Threads.round (xs : List ι) (s : Threads n) : Outcome (Threads n) := xs.foldlM Threads.turn s

/-- The virtual machine that a thread shows through its page table. -/
def Threads.machine (s : Threads n) (pages : ι → Nat) (x : ι) : VirtualMachine (pages x) :=
  view (pages x) s.memory (s.thread x).PTBR (s.thread x).context

/-- The threads of `xs` run on page tables that are apart, and show these virtual machines. -/
structure Hosted (pages : ι → Nat) (xs : List ι) (s : Threads n)
    (vms : (x : ι) → VirtualMachine (pages x)) : Prop where
  running : ∀ x ∈ xs, Running (pages x) (s.thread x).PTBR (s.thread x) s.memory
  apart : TablesApart s.memory fun x : {x // x ∈ xs} => (s.thread x).PTBR
  machine : ∀ x ∈ xs, s.machine pages x = vms x

variable {pages : ι → Nat} {xs ys : List ι} {s s' : Threads n} {x : ι} {k : Nat}
  {vms : (x : ι) → VirtualMachine (pages x)}

theorem Threads.turn_eq (s : Threads n) (x : ι) :
    s.turn x = (threadStep (s.thread x, s.memory)).map
      fun r => ⟨Function.update s.thread x r.1, r.2⟩ := by
  unfold Threads.turn Threads.step threadStep
  dsimp only
  cases executeCurrent (s.thread x) s.memory <;> rfl

/-- A turn is a step of the thread's virtual machine; the other threads' machines stay. -/
theorem Hosted.turn (h : Hosted pages xs s vms) (hx : x ∈ xs) (hspares : (vms x).SparesBoundary) :
    Outcome.Rel (Hosted pages xs) (s.turn x)
      (Product.turn (fun _ => VirtualMachine.step) vms x) := by
  rw [← h.machine x hx] at hspares
  have hstep := (h.running x hx).step hspares
  rw [s.turn_eq x, Product.turn, ← h.machine x hx]
  refine hstep.map fun r v hr => ?_
  obtain ⟨t, m'⟩ := r
  obtain ⟨hrun, hagree, hview⟩ := hr
  dsimp only at hrun hagree hview ⊢
  let pgb (y : {y // y ∈ xs}) : Word := (s.thread y).PTBR
  have hapart : TablesApart s.memory pgb := h.apart
  have hwritten : AgreeOn (listedFrames s.memory (pgb ⟨x, hx⟩))ᶜ s.memory m' := hagree
  have htable : ∀ y ∈ xs, AgreeOn (tableFrames s.memory (s.thread y).PTBR) s.memory m' :=
    fun y hy => hapart.agree_table hwritten ⟨y, hy⟩
  have hptbr : ∀ y, (Function.update s.thread x t y).PTBR = (s.thread y).PTBR := by
    intro y
    by_cases hyx : y = x
    · subst hyx
      rw [Function.update_self]
      exact hrun.PTBR
    · rw [Function.update_of_ne hyx]
  refine ⟨fun y hy => ?_, ?_, fun y hy => ?_⟩
  · dsimp only
    by_cases hyx : y = x
    · subst hyx
      rw [Function.update_self, hrun.PTBR]
      exact hrun
    · have hold := h.running y hy
      rw [Function.update_of_ne hyx]
      exact ⟨rfl, hold.table.congr (htable y hy), hold.tlb.congr hold.table (htable y hy)⟩
  · simp only [hptbr]
    exact hapart.congr fun y => htable y y.2
  · unfold Threads.machine
    dsimp only
    by_cases hyx : y = x
    · subst hyx
      rw [Function.update_self, Function.update_self, hrun.PTBR]
      exact hview
    · have hne : (⟨y, hy⟩ : {y // y ∈ xs}) ≠ ⟨x, hx⟩ := fun heq => hyx (congrArg Subtype.val heq)
      have hframes := hapart.agree_frames hwritten hne
      rw [Function.update_of_ne hyx, Function.update_of_ne hyx, ← h.machine y hy]
      exact (h.running y hy).table.view_congr hframes _

/-- A round of distinct threads is a step of each of their machines. -/
theorem Hosted.round (h : Hosted pages xs s vms) (hys : ys.Nodup) (hsub : ∀ y ∈ ys, y ∈ xs)
    (hspares : ∀ y ∈ ys, (vms y).SparesBoundary) :
    Outcome.Rel (Hosted pages xs) (s.round ys)
      (Product.round (fun _ => VirtualMachine.step) ys vms) := by
  induction ys generalizing s vms with
  | nil => exact h
  | cons y ys ih =>
    obtain ⟨hy, hys⟩ := List.nodup_cons.1 hys
    obtain ⟨hysub, hsub⟩ := List.forall_mem_cons.1 hsub
    obtain ⟨hyspares, hspares⟩ := List.forall_mem_cons.1 hspares
    unfold Threads.round Product.round
    rw [List.foldlM_cons, List.foldlM_cons]
    have hturn := h.turn hysub hyspares
    cases hvm : Product.turn (fun _ => VirtualMachine.step) vms y with
    | error e =>
      rw [hvm] at hturn
      rw [hturn.of_error]
      exact rfl
    | ok vms' =>
      rw [hvm] at hturn
      obtain ⟨s', hs', h'⟩ := hturn.of_ok
      rw [hs']
      refine ih h' hys hsub fun z hz => ?_
      obtain ⟨v, -, rfl⟩ := Product.turn_eq_ok.1 hvm
      have hzy : z ≠ y := fun hzy => hy (hzy ▸ hz)
      rw [Function.update_of_ne hzy]
      exact hspares z hz

/-- Any number of rounds. -/
theorem Hosted.rounds (h : Hosted pages xs s vms) (hxs : xs.Nodup)
    (hspares : ∀ x ∈ xs,
      Iterate.Along VirtualMachine.step VirtualMachine.SparesBoundary k (vms x)) :
    Outcome.Rel (Hosted pages xs) (Iterate.iter (Threads.round xs) k s)
      (Iterate.iter (Product.round (fun _ => VirtualMachine.step) xs) k vms) := by
  have hround : ∀ (s : Threads n) (vms : (x : ι) → VirtualMachine (pages x)),
      Hosted pages xs s vms → (∀ x ∈ xs, (vms x).SparesBoundary) →
      Outcome.Rel (Hosted pages xs) (s.round xs)
        (Product.round (fun _ => VirtualMachine.step) xs vms) :=
    fun _ _ hs hcond => hs.round hxs (fun _ hx => hx) hcond
  exact Outcome.Rel.iter hround h (Product.along_round hxs hspares)

end

/-! ## The processors -/

section

variable {n : Nat} [NeZero n]

/-- A fold over joined lists is a fold of folds. -/
theorem foldlM_flatMap {α β σ : Type} (f : σ → β → Outcome σ) (g : α → List β) (l : List α)
    (s : σ) :
    (l.flatMap g).foldlM f s = l.foldlM (fun s a => (g a).foldlM f s) s := by
  induction l generalizing s with
  | nil => rfl
  | cons a l ih =>
    rw [List.flatMap_cons, List.foldlM_append, List.foldlM_cons]
    exact congrArg _ (funext fun s => ih s)

/-- The arrays of the CPUs, their cores and their threads are as long as `cpu_arr_size`, `core_kop`
and `thread_kop` say. Reference: `execute_all` (`src/executor_s.c:22`). -/
def executeAll (cpuArr : List CpuS) (s : Threads fun _ : Ptr => n) :
    Outcome (Threads fun _ : Ptr => n) :=
  cpuArr.foldlM
    (fun s cpu => cpu.coreArr.foldlM (fun s core => core.threadArr.foldlM Threads.turn s) s) s

/-- The nested loops give every hardware thread one turn, in the order of CPUs, cores and threads.
Reference: `execute_all` (`src/executor_s.c:22`). -/
theorem executeAll_eq (cpuArr : List CpuS) :
    executeAll (n := n) cpuArr = Threads.round (hardwareThreads cpuArr) := by
  funext s
  simp only [executeAll, Threads.round, hardwareThreads, foldlM_flatMap]

/-- For threads with flushed TLBs on page tables that are apart, any number of rounds of
`execute_all` is as many steps of each thread's own virtual machine: the rounds return exactly when
all of these runs do, with the registers and words that they end with, and what stops the rounds is
what stops one of the runs. Reference: `execute_all` (`src/executor_s.c:22`). -/
theorem executeAll_runs_virtualMachines {cpuArr : List CpuS} {s : Threads fun _ : Ptr => n}
    {pages : Ptr → Nat} {k : Nat} (hdistinct : (hardwareThreads cpuArr).Nodup)
    (htables : ∀ x ∈ hardwareThreads cpuArr,
      PageTable s.memory (s.thread x).PTBR (pages x))
    (hapart : TablesApart s.memory
      fun x : {x // x ∈ hardwareThreads cpuArr} => (s.thread x).PTBR)
    (hinactive : ∀ x ∈ hardwareThreads cpuArr, ∀ i,
      ((s.thread x).memManagUnit.tlbHashArr i).active = false)
    (hspares : ∀ x ∈ hardwareThreads cpuArr,
      Iterate.Along VirtualMachine.step VirtualMachine.SparesBoundary k (s.machine pages x)) :
    ((∃ s', Iterate.iter (executeAll cpuArr) k s = .ok s') ↔
      ∀ x ∈ hardwareThreads cpuArr, ∃ v, (s.machine pages x).run k = .ok v) ∧
    (∀ s', Iterate.iter (executeAll cpuArr) k s = .ok s' → ∀ x ∈ hardwareThreads cpuArr,
      (s.machine pages x).run k = .ok (s'.machine pages x)) ∧
    ∀ e, Iterate.iter (executeAll cpuArr) k s = .error e →
      ∃ x ∈ hardwareThreads cpuArr, (s.machine pages x).run k = .error e := by
  have hhosted : Hosted pages (hardwareThreads cpuArr) s (s.machine pages) := by
    refine ⟨fun x hx => ⟨rfl, htables x hx, ?_⟩, hapart, fun _ _ => rfl⟩
    exact tlbCache_sound_of_inactive (hinactive x hx) _ _ _
  have hrounds := hhosted.rounds hdistinct hspares
  rw [executeAll_eq]
  refine ⟨⟨?_, fun h => ?_⟩, fun s' hs' x hx => ?_, fun e he => ?_⟩
  · rintro ⟨s', hs'⟩ x hx
    rw [hs'] at hrounds
    obtain ⟨vms, hvms, -⟩ := hrounds.of_ok_left
    exact ⟨vms x, ((Product.rounds_eq_ok_iff hdistinct).1 hvms).1 x hx⟩
  · obtain ⟨vms, hvms⟩ := Product.rounds_total hdistinct h
    rw [hvms] at hrounds
    obtain ⟨s', hs', -⟩ := hrounds.of_ok
    exact ⟨s', hs'⟩
  · rw [hs'] at hrounds
    obtain ⟨vms, hvms, hend⟩ := hrounds.of_ok_left
    rw [hend.machine x hx]
    exact ((Product.rounds_eq_ok_iff hdistinct).1 hvms).1 x hx
  · rw [he] at hrounds
    cases hvms : Iterate.iter (Product.round (fun _ => VirtualMachine.step)
        (hardwareThreads cpuArr)) k (s.machine pages) with
    | error e' =>
      rw [hvms] at hrounds
      obtain rfl : e = e' := hrounds
      exact Product.rounds_eq_error hdistinct hvms
    | ok vms =>
      rw [hvms] at hrounds
      exact hrounds.elim

/-- Two CPUs of one core with one thread each. -/
def twoCpus : List CpuS := [⟨[⟨[1]⟩]⟩, ⟨[⟨[2]⟩]⟩]

theorem mem_twoCpus (x : Ptr) : x ∈ hardwareThreads twoCpus ↔ x = 1 ∨ x = 2 := by
  simp [hardwareThreads, twoCpus]

/-- What holds of both threads. -/
theorem forall_twoCpus {P : Ptr → Prop} (h₁ : P 1) (h₂ : P 2) :
    ∀ x ∈ hardwareThreads twoCpus, P x := by
  intro x hx
  rcases (mem_twoCpus x).1 hx with rfl | rfl
  · exact h₁
  · exact h₂

/-- The two tables for the two threads. -/
theorem twoCpus_apart : TablesApart twoTables
    fun x : {x // x ∈ hardwareThreads twoCpus} => twoPgb (x.1 = 2) := by
  refine ⟨fun x y hxy => twoTables_apart.frames _ _ fun heq => hxy (Subtype.ext ?_),
    fun x y => twoTables_apart.tables _ _⟩
  have hiff : x.1 = 2 ↔ y.1 = 2 := decide_eq_decide.1 heq
  rcases (mem_twoCpus x).1 x.2 with hx | hx
  · rcases (mem_twoCpus y).1 y.2 with hy | hy
    · rw [hx, hy]
    · rw [hiff.2 hy, hy]
  · rw [hx, hiff.1 hx]

/-- An instruction and a word that it names, neither on the boundary. -/
theorem VirtualMachine.along_one {v : VirtualMachine 1} (h : v.addresses = [0, 8]) :
    Iterate.Along VirtualMachine.step VirtualMachine.SparesBoundary 1 v := by
  refine ⟨?_, fun _ _ => trivial⟩
  rw [VirtualMachine.SparesBoundary, h]
  simp [offBoundary]

/-- Their threads on the two tables. -/
def twoCpusStart : Threads fun _ : Ptr => 1 where
  thread x := ⟨0, 0, twoPgb (x = 2), fun r => if r.val = 0 then 7 else 0, 0, tlbFlush 1⟩
  memory := twoTables

/-- The first thread stores at its address 8, the second one loads from its own. -/
theorem executeAll_runs_virtualMachines_two :
    ∃ s', Iterate.iter (executeAll twoCpus) 1 twoCpusStart = .ok s' ∧
      (twoCpusStart.machine (fun _ => 1) 1).run 1 = .ok (s'.machine (fun _ => 1) 1) ∧
      (twoCpusStart.machine (fun _ => 1) 2).run 1 = .ok (s'.machine (fun _ => 1) 2) := by
  have hspares : ∀ x ∈ hardwareThreads twoCpus, Iterate.Along VirtualMachine.step
      VirtualMachine.SparesBoundary 1 (twoCpusStart.machine (fun _ => 1) x) :=
    forall_twoCpus (VirtualMachine.along_one rfl) (VirtualMachine.along_one rfl)
  obtain ⟨htotal, hshows, -⟩ := executeAll_runs_virtualMachines (by decide)
    (forall_twoCpus (twoTables_pageTable false) (twoTables_pageTable true)) twoCpus_apart
    (fun _ _ _ => rfl) hspares
  obtain ⟨s', hs'⟩ := htotal.2 (forall_twoCpus ⟨_, rfl⟩ ⟨_, rfl⟩)
  exact ⟨s', hs', hshows s' hs' 1 ((mem_twoCpus 1).2 (.inl rfl)),
    hshows s' hs' 2 ((mem_twoCpus 2).2 (.inr rfl))⟩

end

end SeKernel
