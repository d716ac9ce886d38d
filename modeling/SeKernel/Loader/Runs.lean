import SeKernel.Lib.Lts
import SeKernel.Loader.Failure
import SeKernel.Memory.PageTable

/-!
# Runs of the loader

What any number of calls of `loader_load_next_process` do, whatever the files, `rand` and `malloc`
answer. Every call with a file to load queues one process more, under the next pid; the pids of
`2 ^ 31 - 1` processes in a row are different (`loader_run_queues`). As `mmu_malloc` never returns,
a run that does has met only files without a program, and has loaded nothing
(`loader_run_loads_nothing`).
-/

namespace SeKernel

/-- What a call of `loader_load_next_process` is answered: the pointer from `malloc`, what is in
that memory, and the number from `rand`. -/
structure LoadCall (ι : Type) where
  pcb : ι
  uninitialised : Pcb
  rand : Int

/-- The loader, the memory and the scheduler. -/
structure LoadState (π ι τ : Type) (m k n : Nat) where
  loader : Loader π m
  ps : PhysicalMemory
  sched : Sched ι τ k n

variable {π ι τ : Type} [DecidableEq ι] {m k n : Nat} [NeZero m]

/-- Reference: `loader_load_next_process` (`src/loader_s.c:58`). -/
def LoadCall.exec (mmuMalloc : MmuMalloc) (files : π → Option ProgramFile)
    (call : LoadCall ι) (s : LoadState π ι τ m k n) : Outcome (Int × LoadState π ι τ m k n) := do
  let (ret, loader, ps, sched) ← loaderLoadNextProcess mmuMalloc files call.pcb call.uninitialised
    call.rand s.loader s.ps s.sched
  return (ret, ⟨loader, ps, sched⟩)

/-- The file at `path` is taken off the list, and the process `pcb` is queued. -/
structure LoadCall.Loads (mmuMalloc : MmuMalloc) (files : π → Option ProgramFile)
    (call : LoadCall ι) (s s' : LoadState π ι τ m k n) (path : π) (pcb : Pcb) : Prop where
  paths : s.loader.unloadedElfList = s'.loader.unloadedElfList ++ [path]
  maxPrio : s'.loader.maxPrio = s.loader.maxPrio
  pridCounter : s'.loader.pridCounter = (loaderGetValidPid s.loader).2.pridCounter
  fresh : s.sched.pcbs (.pcb call.pcb) = none
  file : ∃ ret, loadFile mmuMalloc (files path) s.loader.mmu s.ps
    (pcbInit call.uninitialised s.loader.pridCounter (call.rand.tmod s.loader.maxPrio)) =
      .ok (ret, pcb, s'.loader.mmu, s'.ps)
  queue : iSchedInsert s.sched.schedulerQueueIObject (.pcb call.pcb) pcb.currentPriority =
    .ok s'.sched.schedulerQueueIObject
  policy : s'.sched.currentPolicy = s.sched.currentPolicy
  pcbs : s'.sched.pcbs = s.sched.pcbs.write (.pcb call.pcb) { pcb with status := prReady }
  cores : s'.sched.coreControlArray = s.sched.coreControlArray
  threads : s'.sched.threads = s.sched.threads

/-- A call that returns, with its return value. -/
def LoadCall.Step (mmuMalloc : MmuMalloc) (files : π → Option ProgramFile)
    (s : LoadState π ι τ m k n) (call : LoadCall ι × Int) (s' : LoadState π ι τ m k n) : Prop :=
  call.1.exec mmuMalloc files s = .ok (call.2, s')

/-- A call that loads a file, with the path and what is in the PCB. -/
def LoadStep (mmuMalloc : MmuMalloc) (files : π → Option ProgramFile)
    (s : LoadState π ι τ m k n) (load : LoadCall ι × π × Pcb) (s' : LoadState π ι τ m k n) : Prop :=
  load.1.Loads mmuMalloc files s s' load.2.1 load.2.2

variable {mmuMalloc : MmuMalloc} {files : π → Option ProgramFile} {call : LoadCall ι}
  {calls : List (LoadCall ι × Int)} {loads : List (LoadCall ι × π × Pcb)}
  {s s' : LoadState π ι τ m k n} {ret : Int}

/-! ## One call -/

/-- A call that returns has found no file, or has loaded one. Reference: `loader_load_next_process`
(`src/loader_s.c:58`). -/
theorem LoadCall.exec_cases (h : call.exec mmuMalloc files s = .ok (ret, s')) :
    (ret = -1 ∧ s.loader.unloadedElfList = [] ∧ s' = s) ∨
      (ret = 0 ∧ ∃ path pcb, call.Loads mmuMalloc files s s' path pcb) := by
  obtain ⟨⟨ret', loader, ps, sched⟩, hload, hret⟩ := Outcome.bind_eq_ok.1 h
  cases hret
  rcases List.eq_nil_or_concat' s.loader.unloadedElfList with hnil | ⟨paths, path, hpaths⟩
  · unfold loaderLoadNextProcess Seq.linkedlistPop at hload
    rw [hnil] at hload
    cases hload
    exact .inl ⟨rfl, hnil, rfl⟩
  · unfold loaderLoadNextProcess Seq.linkedlistPop at hload
    rw [hpaths, List.getLast?_concat, List.dropLast_concat] at hload
    dsimp only at hload
    split at hload
    · cases hload
    next hfresh =>
      obtain ⟨priority, hpriority, hload⟩ := Outcome.bind_eq_ok.1 hload
      obtain ⟨⟨ret'', pcb, mmu, ps'⟩, hfile, hload⟩ := Outcome.bind_eq_ok.1 hload
      obtain ⟨sched', hadd, hret⟩ := Outcome.bind_eq_ok.1 hload
      cases hret
      obtain ⟨p, hp, hadd⟩ := Outcome.bind_eq_ok.1 hadd
      obtain ⟨iSched, hinsert, hret⟩ := Outcome.bind_eq_ok.1 hadd
      cases hret
      have hrand : priority = call.rand.tmod s.loader.maxPrio := by
        unfold loaderGetValidPriority at hpriority
        split at hpriority
        · cases hpriority
        · cases hpriority
          rfl
      obtain rfl : pcb = p := by
        have hread := PcbHeap.read_eq_ok.1 hp
        simpa [PcbHeap.write] using hread
      subst hrand
      refine .inr ⟨rfl, path, pcb, hpaths, rfl, rfl, ?_, ⟨ret'', hfile⟩, hinsert, rfl, ?_, rfl, rfl⟩
      · simpa using hfresh
      · simp [PcbHeap.write]

/-- A call with a file that is loaded returns. Reference: `loader_load_next_process`
(`src/loader_s.c:58`). -/
theorem LoadCall.step_of_file {paths : List π} {path : π} {pcb : Pcb} {mmu : Mmu m}
    {ps' : PhysicalMemory} {iSched : SISched (PcbPtr ι)}
    (hpaths : s.loader.unloadedElfList = paths ++ [path])
    (hfresh : s.sched.pcbs (.pcb call.pcb) = none) (hprio : s.loader.maxPrio ≠ 0)
    (hfile : loadFile mmuMalloc (files path) s.loader.mmu s.ps
      (pcbInit call.uninitialised s.loader.pridCounter (call.rand.tmod s.loader.maxPrio)) =
        .ok (ret, pcb, mmu, ps'))
    (hinsert : iSchedInsert s.sched.schedulerQueueIObject (.pcb call.pcb) pcb.currentPriority =
      .ok iSched) :
    LoadCall.Step mmuMalloc files s (call, 0)
      ⟨{ (loaderGetValidPid s.loader).2 with unloadedElfList := paths, mmu }, ps',
        { s.sched with
          pcbs := s.sched.pcbs.write (.pcb call.pcb) { pcb with status := prReady }
          schedulerQueueIObject := iSched }⟩ := by
  have hadd : schedAddToProcessQueue
      { s.sched with pcbs := s.sched.pcbs.write (.pcb call.pcb) pcb } (.pcb call.pcb) =
      .ok { s.sched with
        pcbs := (s.sched.pcbs.write (.pcb call.pcb) pcb).write (.pcb call.pcb)
          { pcb with status := prReady }
        schedulerQueueIObject := iSched } :=
    Outcome.bind_eq_ok.2 ⟨pcb, PcbHeap.read_eq_ok.2 (Function.update_self ..),
      Outcome.bind_eq_ok.2 ⟨iSched, hinsert, rfl⟩⟩
  rw [PcbHeap.write, PcbHeap.write, Function.update_idem] at hadd
  refine Outcome.bind_eq_ok.2 ⟨(0, _, _, _), ?_, rfl⟩
  unfold loaderLoadNextProcess Seq.linkedlistPop
  rw [hpaths, List.getLast?_concat, List.dropLast_concat]
  dsimp only
  rw [if_neg (by simp [hfresh])]
  exact Outcome.bind_eq_ok.2 ⟨_, if_neg hprio, Outcome.bind_eq_ok.2 ⟨_, hfile,
    Outcome.bind_eq_ok.2 ⟨_, hadd, rfl⟩⟩⟩

/-- A PCB keeps its pid and its priority while its file is loaded. Reference: `__load_file`
(`src/loader_s.c:73`). -/
theorem loadFile_pid {file : Option ProgramFile} {mmu mmu' : Mmu m} {ps ps' : PhysicalMemory}
    {pcb pcb' : Pcb} (h : loadFile mmuMalloc file mmu ps pcb = .ok (ret, pcb', mmu', ps')) :
    pcb'.pid = pcb.pid ∧ pcb'.currentPriority = pcb.currentPriority := by
  cases file with
  | none => cases h
  | some file =>
    rcases file.lines_cases with hshort | ⟨text, data, lines, hlines⟩
    · rw [loadFile_short hshort] at h
      cases h
      exact ⟨rfl, rfl⟩
    · obtain ⟨_, _, _, _, _, _, _, -, -, -, -, -, rfl, -⟩ := loadFile_returns hlines h
      exact ⟨rfl, rfl⟩

/-! ## Pids -/

/-- The pid that comes `q` calls after `pid`. -/
def pidAfter (pid : Int) (q : Nat) : Int := (pid - 1 + q) % 0x7FFFFFFF + 1

omit [NeZero m] in
/-- The pids count up, and after the greatest `int` they start again at 1. Reference:
`__loader_get_valid_pid` (`src/loader_s.c:23`). -/
theorem loaderGetValidPid_eq {loader : Loader π m} (hpos : 0 < loader.pridCounter)
    (hint : loader.pridCounter ≤ 0x7FFFFFFF) :
    (loaderGetValidPid loader).2.pridCounter = pidAfter loader.pridCounter 1 := by
  unfold loaderGetValidPid pidAfter
  dsimp only
  by_cases hlast : loader.pridCounter = 0x7FFFFFFF
  · rw [hlast]
    rfl
  · have hnext : (BitVec.ofInt 32 (loader.pridCounter + 1)).toInt = loader.pridCounter + 1 := by
      rw [BitVec.toInt_ofInt, Int.bmod_eq_of_le (by omega) (by omega)]
    rw [hnext, if_neg (by omega)]
    omega

theorem pidAfter_bounds (pid : Int) (q : Nat) :
    0 < pidAfter pid q ∧ pidAfter pid q ≤ 0x7FFFFFFF := by
  unfold pidAfter
  omega

theorem pidAfter_zero {pid : Int} (hpos : 0 < pid) (hint : pid ≤ 0x7FFFFFFF) :
    pidAfter pid 0 = pid := by
  unfold pidAfter
  omega

theorem pidAfter_add (pid : Int) (q q' : Nat) :
    pidAfter (pidAfter pid q) q' = pidAfter pid (q + q') := by
  unfold pidAfter
  push_cast
  omega

/-- A pid comes back after `2 ^ 31 - 1` calls and not before. -/
theorem pidAfter_inj {pid : Int} {q q' : Nat} (hq : q < q' + 0x7FFFFFFF)
    (hq' : q' < q + 0x7FFFFFFF) :
    pidAfter pid q = pidAfter pid q' ↔ q = q' := by
  unfold pidAfter
  omega

/-! ## Runs -/

omit [DecidableEq ι] [NeZero m] in
/-- What stands at a place of a list with one more element. -/
theorem getElem?_concat_eq_some {α : Type} {xs : List α} {x y : α} {q : Nat} :
    (xs ++ [x])[q]? = some y ↔ xs[q]? = some y ∨ (q = xs.length ∧ x = y) := by
  rcases Nat.lt_trichotomy q xs.length with hq | hq | hq
  · rw [List.getElem?_append_left hq]
    constructor
    · exact .inl
    · rintro (h | ⟨rfl, -⟩)
      · exact h
      · exact absurd hq (Nat.lt_irrefl _)
  · subst hq
    simp
  · rw [List.getElem?_eq_none (by simp; omega), List.getElem?_eq_none (by omega)]
    constructor
    · exact nofun
    · rintro (h | ⟨rfl, -⟩)
      · cases h
      · exact absurd hq (Nat.lt_irrefl _)

/-- A run of calls loads the files from the end of the list until there are none left, and then
answers -1. -/
theorem loads_of_calls (h : Lts.Steps (LoadCall.Step mmuMalloc files) s calls s') :
    ∃ loads, Lts.Steps (LoadStep mmuMalloc files) s loads s' ∧
      loads.map (·.1) = (calls.map (·.1)).take s.loader.unloadedElfList.length ∧
      s.loader.unloadedElfList.reverse =
        loads.map (·.2.1) ++ s'.loader.unloadedElfList.reverse ∧
      ∀ (q : Nat) call ret, calls[q]? = some (call, ret) →
        ret = if q < s.loader.unloadedElfList.length then 0 else -1 := by
  induction h with
  | refl => exact ⟨[], .refl, by simp, rfl, fun q call ret hq => by simp at hq⟩
  | @tail calls t u call hrun hlast ih =>
    obtain ⟨loads, hloads, hcalls, hpaths, hrets⟩ := ih
    have htotal := congrArg List.length hpaths
    rw [List.length_append, List.length_map, List.length_reverse, List.length_reverse] at htotal
    have hlength := congrArg List.length hcalls
    rw [List.length_map, List.length_take, List.length_map] at hlength
    rcases LoadCall.exec_cases hlast with ⟨hret, hnil, rfl⟩ | ⟨hret, path, pcb, hload⟩
    · rw [hnil, List.length_nil] at htotal
      refine ⟨loads, hloads, ?_, hpaths, fun q call' ret hq => ?_⟩
      · rw [List.map_append, List.take_append_of_le_length (by rw [List.length_map]; omega), hcalls]
      · rcases getElem?_concat_eq_some.1 hq with hq | ⟨rfl, rfl⟩
        · exact hrets q call' ret hq
        · rw [if_neg (by omega)]
          exact hret
    · rw [hload.paths, List.length_append, List.length_singleton] at htotal
      have hall : calls.length ≤ s.loader.unloadedElfList.length := by omega
      rw [List.take_of_length_le (by rw [List.length_map]; exact hall)] at hcalls
      refine ⟨loads ++ [(call.1, path, pcb)], hloads.tail hload, ?_, ?_, fun q call' ret hq => ?_⟩
      · rw [List.take_of_length_le (by simp; omega), List.map_append, List.map_append, hcalls]
        rfl
      · rw [hpaths, hload.paths, List.map_append, List.reverse_append, List.append_assoc]
        rfl
      · rcases getElem?_concat_eq_some.1 hq with hq | ⟨rfl, rfl⟩
        · exact hrets q call' ret hq
        · rw [if_pos (by omega)]
          exact hret

omit [DecidableEq ι] [NeZero m] in
/-- The load of one of the first calls. -/
theorem load_of_call {q l : Nat} (hcalls : loads.map (·.1) = (calls.map (·.1)).take l)
    (hq : calls[q]? = some (call, ret)) (hlt : q < l) :
    ∃ path pcb, loads[q]? = some (call, path, pcb) := by
  have hcall : (loads.map (·.1))[q]? = some call := by
    rw [hcalls, List.getElem?_take_of_lt hlt, List.getElem?_map, hq]
    rfl
  rw [List.getElem?_map] at hcall
  obtain ⟨⟨call', path, pcb⟩, hload, rfl⟩ := Option.map_eq_some_iff.1 hcall
  exact ⟨path, pcb, hload⟩

omit [DecidableEq ι] [NeZero m] in
/-- The files that a run loads. -/
theorem paths_of_calls
    (hcalls : loads.map (·.1) = (calls.map (·.1)).take s.loader.unloadedElfList.length)
    (hpaths : s.loader.unloadedElfList.reverse =
      loads.map (·.2.1) ++ s'.loader.unloadedElfList.reverse) :
    s.loader.unloadedElfList.reverse.take calls.length = loads.map (·.2.1) := by
  have hlength := congrArg List.length hcalls
  have htotal := congrArg List.length hpaths
  simp only [List.length_append, List.length_map, List.length_take, List.length_reverse]
    at hlength htotal
  have hrest : s'.loader.unloadedElfList.reverse.take (calls.length - loads.length) = [] := by
    rw [← List.length_eq_zero_iff, List.length_take, List.length_reverse]
    omega
  rw [hpaths, List.take_append, List.length_map, hrest, List.append_nil,
    List.take_of_length_le (by rw [List.length_map]; omega)]

omit [DecidableEq ι] [NeZero m] in
/-- After as many calls as there were files none is left. -/
theorem paths_left_of_calls
    (hcalls : loads.map (·.1) = (calls.map (·.1)).take s.loader.unloadedElfList.length)
    (hpaths : s.loader.unloadedElfList.reverse =
      loads.map (·.2.1) ++ s'.loader.unloadedElfList.reverse)
    (hall : s.loader.unloadedElfList.length ≤ calls.length) : s'.loader.unloadedElfList = [] := by
  have hlength := congrArg List.length hcalls
  have htotal := congrArg List.length hpaths
  simp only [List.length_append, List.length_map, List.length_take, List.length_reverse]
    at hlength htotal
  rw [← List.length_eq_zero_iff]
  omega

/-- Calls without a file answer -1 and change nothing. Reference: `loader_load_next_process`
(`src/loader_s.c:60`). -/
theorem idle_of_calls (hnil : s.loader.unloadedElfList = [])
    (h : Lts.Steps (LoadCall.Step mmuMalloc files) s calls s') :
    s' = s ∧ ∀ call ∈ calls, call.2 = -1 := by
  induction h with
  | refl => exact ⟨rfl, by simp⟩
  | tail _ hlast ih =>
    -- the state is still the first one, whose list is empty
    obtain ⟨rfl, hrets⟩ := ih
    rcases LoadCall.exec_cases hlast with ⟨hret, -, rfl⟩ | ⟨-, path, pcb, hload⟩
    · refine ⟨rfl, fun call hcall => ?_⟩
      rcases List.mem_append.1 hcall with hcall | hcall
      · exact hrets call hcall
      · obtain rfl := List.mem_singleton.1 hcall
        exact hret
    · have hpaths := hload.paths
      rw [hnil] at hpaths
      simp at hpaths

/-- What the loads of a run make of the loader and the scheduler. -/
structure LoadState.Queues (loads : List (LoadCall ι × π × Pcb)) (s s' : LoadState π ι τ m k n) :
    Prop where
  maxPrio : s'.loader.maxPrio = s.loader.maxPrio
  pridCounter : s'.loader.pridCounter = pidAfter s.loader.pridCounter loads.length
  backEnd : BackEndOk s'.sched.currentPolicy s'.sched.schedulerQueueIObject
  queued : s'.sched.queued = s.sched.queued + ↑(loads.map fun load => PcbPtr.pcb load.1.pcb)
  kept : ∀ x, (s.sched.pcbs x).isSome → s'.sched.pcbs x = s.sched.pcbs x
  process : ∀ (q : Nat) call path pcb, loads[q]? = some (call, path, pcb) →
    s.sched.pcbs (.pcb call.pcb) = none ∧
      s'.sched.pcbs (.pcb call.pcb) = some { pcb with status := prReady } ∧
      pcb.pid = pidAfter s.loader.pridCounter q ∧
      pcb.currentPriority = call.rand.tmod s.loader.maxPrio

/-- A load queues one process more, in a PCB of its own. -/
theorem LoadState.Queues.load {t : LoadState π ι τ m k n} {path : π} {pcb : Pcb}
    (h : s.Queues loads t) (hload : LoadStep mmuMalloc files t (call, path, pcb) s') :
    s.Queues (loads ++ [(call, path, pcb)]) s' := by
  have hbounds := pidAfter_bounds s.loader.pridCounter loads.length
  rw [← h.pridCounter] at hbounds
  obtain ⟨ret, hfile⟩ := hload.file
  obtain ⟨hpid, hpriority⟩ := loadFile_pid hfile
  dsimp only [pcbInit] at hpid hpriority
  have hprio : PrioPolicy t.sched.currentPolicy → 0 ≤ pcb.currentPriority := by
    intro hpolicy
    by_contra hneg
    have hinsert := hload.queue
    rw [iSchedInsert_negative h.backEnd _ hpolicy (not_le.1 hneg)] at hinsert
    cases hinsert
  obtain ⟨iSched, hinsert, hback, hqueued⟩ := iSchedInsert_spec h.backEnd (.pcb call.pcb) hprio
  have hobject : iSched = s'.sched.schedulerQueueIObject := by
    have hqueue := hload.queue
    dsimp only at hqueue
    rw [hinsert] at hqueue
    exact Except.ok.inj hqueue
  subst hobject
  have hpcbs : ∀ x, (t.sched.pcbs x).isSome → s'.sched.pcbs x = t.sched.pcbs x := by
    intro x hx
    have hne : x ≠ .pcb call.pcb := by
      rintro rfl
      have hfresh := hload.fresh
      dsimp only at hfresh
      rw [hfresh] at hx
      cases hx
    rw [hload.pcbs, PcbHeap.write, Function.update_of_ne hne]
  refine ⟨hload.maxPrio.trans h.maxPrio, ?_, ?_, ?_, ?_, ?_⟩
  · rw [hload.pridCounter, loaderGetValidPid_eq hbounds.1 hbounds.2, h.pridCounter, pidAfter_add,
      List.length_append, List.length_singleton]
  · rw [hload.policy]
    exact hback
  · have hold := h.queued
    unfold Sched.queued at hold ⊢
    rw [hqueued, hold, List.map_append, ← Multiset.coe_add, add_assoc]
    rfl
  · intro x hx
    rw [hpcbs x (by rw [h.kept x hx]; exact hx), h.kept x hx]
  · intro q call' path' pcb' hq
    rcases getElem?_concat_eq_some.1 hq with hq | ⟨rfl, hlast⟩
    · obtain ⟨hnone, hsome, hrest⟩ := h.process q call' path' pcb' hq
      exact ⟨hnone, by rw [hpcbs _ (by rw [hsome]; rfl), hsome], hrest⟩
    · cases hlast
      refine ⟨?_, ?_, by rw [hpid, h.pridCounter], by rw [hpriority, h.maxPrio]⟩
      · rw [Option.eq_none_iff_forall_ne_some]
        intro p hp
        have hfresh := hload.fresh
        dsimp only at hfresh
        rw [h.kept _ (by rw [hp]; rfl), hp] at hfresh
        cases hfresh
      · rw [hload.pcbs, PcbHeap.write, Function.update_self]

/-- Any number of loads. -/
theorem LoadState.queues (hback : BackEndOk s.sched.currentPolicy s.sched.schedulerQueueIObject)
    (hpos : 0 < s.loader.pridCounter) (hint : s.loader.pridCounter ≤ 0x7FFFFFFF)
    (h : Lts.Steps (LoadStep mmuMalloc files) s loads s') : s.Queues loads s' := by
  induction h with
  | refl =>
    refine ⟨rfl, (pidAfter_zero hpos hint).symm, hback, by simp, fun _ _ => rfl, ?_⟩
    intro q call path pcb hq
    simp at hq
  | tail _ hlast ih => exact ih.load hlast

/-- A file without lines. -/
def emptyFile : ProgramFile := ⟨[], 120, by decide⟩

/-- A loader with two files, an empty memory and a scheduler without processes. -/
def twoFiles : LoadState Unit Bool Unit 10 1 20 where
  loader := ⟨[(), ()], 1, 20, tlbFlush 10⟩
  ps := ⟨fun _ => 0, []⟩
  sched := ⟨schedFifo, rqSimpleFifoISchedImplement ⟨0, []⟩, 0,
    fun _ => ⟨(), none, 0, nullProcessRun⟩, fun _ => none,
    fun _ => ⟨0, 0, 0, fun _ => 0, 0, tlbFlush 20⟩⟩

/-- One call more than there are files. -/
def threeCalls : List (LoadCall Bool × Int) :=
  [(⟨false, zeroPcb, 25⟩, 0), (⟨true, zeroPcb, 7⟩, 0), (⟨false, zeroPcb, 3⟩, -1)]

/-- Both files are empty. -/
theorem threeCalls_run : ∃ s', Lts.Steps (LoadCall.Step SeKernel.mmuMalloc fun _ => some emptyFile)
    twoFiles threeCalls s' := by
  let step (s : LoadState Unit Bool Unit 10 1 20) (call : LoadCall Bool × Int)
      (s' : LoadState Unit Bool Unit 10 1 20) : Prop :=
    LoadCall.Step SeKernel.mmuMalloc (fun _ => some emptyFile) s call s'
  have hfirst : Lts.Steps step twoFiles (threeCalls.take 1) _ := Lts.Steps.refl.tail rfl
  have hsecond : Lts.Steps step twoFiles (threeCalls.take 2) _ := hfirst.tail rfl
  have hthird : Lts.Steps step twoFiles (threeCalls.take 3) _ := hsecond.tail rfl
  exact ⟨_, hthird⟩

/-- A file that is loaded has no program; nothing but the pid, the priority and the status is set.
Reference: `__load_file` (`src/loader_s.c:84`). -/
theorem loadFile_loads_nothing {file : Option ProgramFile} {mmu mmu' : Mmu m}
    {ps ps' : PhysicalMemory} {pcb pcb' : Pcb}
    (h : loadFile SeKernel.mmuMalloc file mmu ps pcb = .ok (ret, pcb', mmu', ps')) :
    (∃ program, file = some program ∧ program.lines.length < 2) ∧ pcb' = pcb ∧ mmu' = mmu ∧
      ps' = ps := by
  cases file with
  | none => cases h
  | some program =>
    rcases program.lines_cases with hshort | ⟨text, data, lines, hlines⟩
    · rw [loadFile_short hshort] at h
      cases h
      exact ⟨⟨program, rfl, hshort⟩, rfl, rfl, rfl⟩
    · obtain ⟨_, _, _, _, _, _, _, hmalloc, -⟩ := loadFile_returns hlines h
      obtain ⟨msg, hexit⟩ := pmPtPageTableMalloc_exits ps
        (framesNeeded (BitVec.ofNat 32 lines.length))
      rw [SeKernel.mmuMalloc, hexit] at hmalloc
      cases hmalloc

/-- A file with a program ends the kernel. Reference: `__load_file` (`src/loader_s.c:89`). -/
theorem LoadCall.exec_exits {path : π} {file : ProgramFile}
    (hpath : s.loader.unloadedElfList.getLast? = some path) (hfile : files path = some file)
    (hprogram : 2 ≤ file.lines.length) (hfresh : s.sched.pcbs (.pcb call.pcb) = none)
    (hprio : s.loader.maxPrio ≠ 0) :
    ∃ msg, call.exec SeKernel.mmuMalloc files s = .error (.err 1 msg) := by
  rcases file.lines_cases with hshort | ⟨text, data, lines, hlines⟩
  · omega
  · obtain ⟨msg, hexit⟩ := pmPtPageTableMalloc_exits s.ps
      (framesNeeded (BitVec.ofNat 32 lines.length))
    refine ⟨msg, ?_⟩
    unfold LoadCall.exec loaderLoadNextProcess Seq.linkedlistPop
    simp [hpath, hfresh, loaderGetValidPid, loaderGetValidPriority, hprio, hfile,
      loadFile_program hlines, SeKernel.mmuMalloc, hexit]

/-- Loads with the kernel's own `mmu_malloc` load nothing. -/
theorem LoadState.loads_nothing (h : Lts.Steps (LoadStep SeKernel.mmuMalloc files) s loads s') :
    s'.ps = s.ps ∧ s'.loader.mmu = s.loader.mmu ∧ ∀ load ∈ loads,
      (∃ file, files load.2.1 = some file ∧ file.lines.length < 2) ∧
      load.2.2.memoryMap = load.1.uninitialised.memoryMap ∧
      load.2.2.cpuSnapshot = load.1.uninitialised.cpuSnapshot := by
  induction h with
  | refl => exact ⟨rfl, rfl, by simp⟩
  | tail _ hlast ih =>
    obtain ⟨hps, hmmu, hall⟩ := ih
    obtain ⟨ret, hfile⟩ := LoadCall.Loads.file hlast
    obtain ⟨hshort, hpcb, hmmu', hps'⟩ := loadFile_loads_nothing hfile
    refine ⟨hps'.trans hps, hmmu'.trans hmmu, fun load hload => ?_⟩
    rcases List.mem_append.1 hload with hload | hload
    · exact hall load hload
    · obtain rfl := List.mem_singleton.1 hload
      exact ⟨hshort, by rw [hpcb]; rfl, by rw [hpcb]; rfl⟩

/-- In every run of the loader with the kernel's own `mmu_malloc`, however many files it loads: the
memory, the free blocks and the TLB stay as they are, no file had a program, and every process that
was queued has the page table and the registers that happened to be in its PCB. The first file with
a program ends the kernel. Reference: `loader_load_next_process` (`src/loader_s.c:58`), `mmu_malloc`
(`src/memory_s.c:335`). -/
theorem loader_run_loads_nothing
    (hback : BackEndOk s.sched.currentPolicy s.sched.schedulerQueueIObject)
    (hpos : 0 < s.loader.pridCounter) (hint : s.loader.pridCounter ≤ 0x7FFFFFFF)
    (h : Lts.Steps (LoadCall.Step SeKernel.mmuMalloc files) s calls s') :
    s'.ps = s.ps ∧ s'.loader.mmu = s.loader.mmu ∧
    (∀ path ∈ s.loader.unloadedElfList.reverse.take calls.length,
      ∃ file, files path = some file ∧ file.lines.length < 2) ∧
    (∀ (q : Nat) call ret, calls[q]? = some (call, ret) → q < s.loader.unloadedElfList.length →
      ∃ p, s'.sched.pcbs (.pcb call.pcb) = some p ∧
        p.memoryMap = call.uninitialised.memoryMap ∧
        p.cpuSnapshot = call.uninitialised.cpuSnapshot) ∧
    ∀ (call : LoadCall ι) path file, s'.loader.unloadedElfList.getLast? = some path →
      files path = some file → 2 ≤ file.lines.length → s'.sched.pcbs (.pcb call.pcb) = none →
      s'.loader.maxPrio ≠ 0 →
      ∃ msg, call.exec SeKernel.mmuMalloc files s' = .error (.err 1 msg) := by
  obtain ⟨loads, hloads, hcalls, hpaths, -⟩ := loads_of_calls h
  have hqueues := LoadState.queues hback hpos hint hloads
  obtain ⟨hps, hmmu, hnothing⟩ := LoadState.loads_nothing hloads
  refine ⟨hps, hmmu, fun path hpath => ?_, fun q call ret hq hlt => ?_,
    fun _ _ _ hpath hfile hprogram hfresh hprio =>
      LoadCall.exec_exits hpath hfile hprogram hfresh hprio⟩
  · rw [paths_of_calls hcalls hpaths] at hpath
    obtain ⟨load, hload, rfl⟩ := List.mem_map.1 hpath
    exact (hnothing load hload).1
  · obtain ⟨path, pcb, hload⟩ := load_of_call hcalls hq hlt
    obtain ⟨-, hpcb, -⟩ := hqueues.process q _ path pcb hload
    exact ⟨_, hpcb, (hnothing _ (List.mem_of_getElem? hload)).2⟩

/-- The processes of the empty files have the memory map of the PCBs that `malloc` returned. -/
theorem loader_run_loads_nothing_two : ∃ s',
    Lts.Steps (LoadCall.Step SeKernel.mmuMalloc fun _ => some emptyFile) twoFiles threeCalls s' ∧
    s'.ps = twoFiles.ps ∧ ∃ p, s'.sched.pcbs (.pcb true) = some p ∧
      p.memoryMap = zeroPcb.memoryMap := by
  obtain ⟨s', hrun⟩ := threeCalls_run
  obtain ⟨hps, -, -, hcalls, -⟩ := loader_run_loads_nothing
    (.simple (show ¬ PrioPolicy schedFifo by decide) rfl) (by decide) (by decide) hrun
  obtain ⟨p, hp, hmap, -⟩ := hcalls 1 ⟨true, zeroPcb, 7⟩ 0 rfl (by decide)
  exact ⟨s', hrun, hps, p, hp, hmap⟩

end SeKernel
