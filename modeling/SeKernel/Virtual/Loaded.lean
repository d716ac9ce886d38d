import SeKernel.Loader.Runs
import SeKernel.Virtual.Simulation

/-!
# What a loaded program runs

`cpu_snapshot_init` clears the page table base before the words of the program are written, so
`__load_file` writes every program through the table at address 0, and every process is left with
that table and the program counter 0. Through this table a load lays the words of a file over those
that were there (`loadWords_overlays`); a process that is dispatched afterwards runs the virtual
machine of the words as they lie then (`loaded_program_runs`). Programs that are loaded one after
the other lie over each other, and all of their processes run what is on top
(`loaded_programs_overlap`).
-/

namespace SeKernel

/-- The machine that a process starts as whose file has these lines. -/
def loadedMachine (pages : Nat) (memory : Memory) (snapshot : CpuSnapshot)
    (lines : List (List Char)) : VirtualMachine pages :=
  ⟨loadedSnapshot snapshot, overlay (lineWords lines) (view pages memory 0 snapshot).words⟩

variable {pages m n left left₁ : Nat} [NeZero m] {memory : Memory} {ptbr code dataAddress : Word}
  {mmu : Mmu m} {text data : List Char} {lines : List (List Char)}

/-! ## One program -/

section

variable {mmuMalloc : MmuMalloc} {file : ProgramFile} {r : Int} {ps ps' : PhysicalMemory}
  {pcb : Pcb}

/-- A process of any file whose header lines are read, with no more lines than the table at address
0 has words and room in `getline`'s block for those that are read, dispatched to a thread with a
flushed TLB, runs the virtual machine whose words are those of the file, up to the first line that
has none, over those that the table led to before. It starts at word 0, wherever the header says
that the code is. Reference: `__load_file` (`src/loader_s.c:73`), `__disp_load`
(`src/scheduler.c:152`), `execute_current` (`src/executor_s.c:35`). -/
theorem loaded_program_runs [NeZero n] (hfile : file.lines = text :: data :: lines)
    (htext : loadHeader file.block text = .ok (code, left₁))
    (hdata : loadHeader left₁ data = .ok (dataAddress, left))
    (hfits : ∀ line ∈ readLines lines, line.length < left)
    (hmalloc : mmuMalloc ps (BitVec.ofNat 32 lines.length) = .ok (r, ptbr, ps'))
    (h : PageTable ps'.memory 0 pages) (htlb : TlbSound pages ps'.memory 0 mmu)
    (hroom : lines.length ≤ 64 * pages) {t : Thread n} {k : Nat}
    (hinactive : ∀ i, (t.memManagUnit.tlbHashArr i).active = false)
    (hspares : Iterate.Along VirtualMachine.step VirtualMachine.SparesBoundary k
      (loadedMachine pages ps'.memory pcb.cpuSnapshot lines)) :
    ∃ pcb' mmu' ps'', loadFile mmuMalloc (some file) mmu ps pcb =
        .ok (if (lineWords lines).length = lines.length then 1 else 0, pcb', mmu', ps'') ∧
      Outcome.Rel (fun x s => view pages x.2 0 x.1.context = s)
        (Iterate.iter threadStep k ((dispLoad t pcb').1, ps''.memory))
        ((loadedMachine pages ps'.memory pcb.cpuSnapshot lines).run k) := by
  obtain ⟨mmu', memory', hload, -, -, hagree, hwords⟩ :=
    loadFile_shows pcb hfile htext hdata hfits hmalloc h htlb hroom
  refine ⟨_, mmu', _, hload, ?_⟩
  have hview : loadedMachine pages ps'.memory pcb.cpuSnapshot lines =
      view pages memory' 0 (loadedSnapshot pcb.cpuSnapshot) := (hwords _).symm
  rw [hview] at hspares ⊢
  have hrun := thread_runs_virtualMachine (t := (dispLoad t (numberedPcb pcb code dataAddress)).1)
    (h.congr (h.agree_table hagree)) hinactive hspares
  exact hrun.mono fun x s hx => hx.2.2

/-- A thread with a flushed TLB. -/
def freshThread : Thread 20 := ⟨0, 0, 0, fun _ => 0, 0, tlbFlush 20⟩

/-- An `EXIT` at word 0 looks at no other word. -/
theorem VirtualMachine.addresses_exit {v : VirtualMachine 1} (hPC : v.cpu.PC = 0)
    (hzero : v.words 0 = 0xF0000000) : v.addresses = [0] := by
  have hload : v.load 0 = .ok 0xF0000000 := by
    rw [← hzero]
    rfl
  unfold VirtualMachine.addresses
  rw [hPC, hload]
  rfl

/-- A machine at its word 0, with clear registers. -/
def machineAtZero (IR : Word) (words : Fin (64 * 1) → Word) : VirtualMachine 1 :=
  ⟨⟨0, IR, fun _ => 0, 0⟩, words⟩

/-- An `EXIT` to address 0 leads to itself. -/
theorem machineAtZero_spins {words : Fin (64 * 1) → Word} (IR : Word) (k : Nat)
    (hzero : words 0 = 0xF0000000) :
    (∃ IR', (machineAtZero IR words).run k = .ok (machineAtZero IR' words)) ∧
      Iterate.Along VirtualMachine.step VirtualMachine.SparesBoundary k
        (machineAtZero IR words) := by
  induction k generalizing IR with
  | zero => exact ⟨⟨IR, rfl⟩, trivial⟩
  | succ k ih =>
    have hload : (machineAtZero IR words).load 0 = .ok 0xF0000000 := by
      rw [← hzero]
      rfl
    have hstep : (machineAtZero IR words).step = .ok (machineAtZero 0xF0000000 words) := by
      unfold VirtualMachine.step
      rw [show (machineAtZero IR words).cpu.PC = 0 from rfl, hload]
      rfl
    have haddresses : (machineAtZero IR words).addresses = [0] :=
      VirtualMachine.addresses_exit rfl hzero
    obtain ⟨⟨IR', hrun⟩, halong⟩ := ih 0xF0000000
    refine ⟨⟨IR', ?_⟩, .cons ?_ hstep halong⟩
    · rw [VirtualMachine.run, Iterate.iter_succ, hstep]
      exact hrun
    · rw [VirtualMachine.SparesBoundary, haddresses]
      simp [offBoundary]

theorem exitLine_words : lineWords [exitLine] = [0xF0000000] :=
  lineWords_of_dataLines (.cons exitLine_data .nil)

theorem loadedSnapshot_zeroPcb : loadedSnapshot zeroPcb.cpuSnapshot = ⟨0, 0, fun _ => 0, 0⟩ := by
  unfold loadedSnapshot zeroPcb
  simp

/-- The program of one `EXIT`, on the table at address 0, leads to itself. -/
theorem loaded_program_runs_exit : ∃ pcb' mmu' ps'',
    loadFile (mallocTwoTables false) (some exitFile) (tlbFlush 10) ⟨fun _ => 0, []⟩ zeroPcb =
      .ok (1, pcb', mmu', ps'') ∧
    ∃ x : Thread 20 × Memory,
      Iterate.iter threadStep 3 ((dispLoad freshThread pcb').1, ps''.memory) = .ok x ∧
      x.1.PC = 0 := by
  have hzero : overlay (lineWords [exitLine]) (view 1 twoTables 0 zeroPcb.cpuSnapshot).words 0 =
      0xF0000000 := by
    rw [exitLine_words]
    rfl
  obtain ⟨⟨IR, hrun⟩, halong⟩ := machineAtZero_spins 0 3 hzero
  have hmachine : loadedMachine 1 twoTables zeroPcb.cpuSnapshot [exitLine] = machineAtZero 0 _ :=
    congrArg (VirtualMachine.mk · _) loadedSnapshot_zeroPcb
  rw [← hmachine] at hrun halong
  have hmalloc : mallocTwoTables false ⟨fun _ => 0, []⟩ (BitVec.ofNat 32 [exitLine].length) =
    .ok (0, 0, ⟨twoTables, []⟩) := rfl
  obtain ⟨pcb', mmu', ps'', hload, hrel⟩ := loaded_program_runs (t := freshThread)
    (show exitFile.lines = _ from rfl) exitText_read exitData_read (by decide) hmalloc
    (twoTables_pageTable false) (tlbSound_tlbFlush 10 _ _ _) (by decide) (fun _ => rfl) halong
  rw [hrun] at hrel
  obtain ⟨x, hx, hview⟩ := hrel.of_ok
  rw [exitLine_words] at hload
  exact ⟨pcb', mmu', ps'', hload, x, hx, congrArg (·.cpu.PC) hview⟩

/-! ## Programs on top of each other -/

/-- The words of a file. -/
def fileWords : Option ProgramFile → List Word
  | some file => lineWords (file.lines.drop 2)
  | none => []

/-- A load that returns has laid the words of the file over those of the table at address 0, and
has left the process with that table, if the file has header lines. Reference: `__load_file`
(`src/loader_s.c:73`). -/
theorem loadFile_overlays {file : Option ProgramFile} {mmu' : Mmu m} {pcb' : Pcb}
    (h : loadFile mmuMalloc file mmu ps pcb = .ok (r, pcb', mmu', ps'))
    (htable : PageTable ps.memory 0 pages) (htlb : TlbSound pages ps.memory 0 mmu)
    (hkeeps : ∀ words r p ps₁, mmuMalloc ps words = .ok (r, p, ps₁) →
      AgreeOn (listedFrames ps.memory 0 ∪ tableFrames ps.memory 0) ps.memory ps₁.memory)
    (hfits : ∀ program, file = some program → program.lines.length ≤ 64 * pages + 2) :
    AgreeOn (tableFrames ps.memory 0) ps.memory ps'.memory ∧ TlbSound pages ps'.memory 0 mmu' ∧
      (∀ cpu, view pages ps'.memory 0 cpu =
        ⟨cpu, overlay (fileWords file) (view pages ps.memory 0 cpu).words⟩) ∧
      ∀ program, file = some program → 2 ≤ program.lines.length →
        pcb'.memoryMap.pgb = 0 ∧ pcb'.cpuSnapshot = loadedSnapshot pcb.cpuSnapshot := by
  cases file with
  | none => cases h
  | some program =>
    have hroom := hfits program rfl
    rcases program.lines_cases with hshort | ⟨text, data, lines, hlines⟩
    · rw [loadFile_short hshort] at h
      cases h
      have hnone : fileWords (some program) = [] := by
        rw [fileWords, List.drop_eq_nil_of_le (by omega)]
        rfl
      refine ⟨.refl _ _, htlb, fun cpu => by rw [hnone]; rfl, fun program' heq hlong => ?_⟩
      cases heq
      omega
    · rw [hlines, List.length_cons, List.length_cons] at hroom
      obtain ⟨_, _, ps₁, _, _, _, _, hmalloc, htext, hdata, hread, -⟩ := loadFile_returns hlines h
      have hkept := hkeeps _ _ _ _ hmalloc
      have htables := hkept.mono Set.subset_union_right
      obtain ⟨mmu₁, memory', hload, -, htlb', hagree, hwords⟩ := loadFile_shows pcb hlines htext
        hdata hread hmalloc (htable.congr htables) (htlb.congr htable htables) (by omega)
      rw [h] at hload
      cases hload
      refine ⟨htables.trans ?_, htlb', fun cpu => ?_, fun _ _ _ => ⟨rfl, rfl⟩⟩
      · have hwritten := (htable.congr htables).agree_table hagree
        rwa [tableFrames_congr htables] at hwritten
      · rw [hwords cpu, htable.view_congr hkept cpu, fileWords, hlines]
        rfl

end

section

variable {π ι τ : Type} [DecidableEq ι] {k : Nat} {mmuMalloc : MmuMalloc}
  {files : π → Option ProgramFile} {loads : List (LoadCall ι × π × Pcb)}
  {s s' : LoadState π ι τ m k n}

/-- Any number of loads. -/
theorem LoadState.overlays (htable : PageTable s.ps.memory 0 pages)
    (htlb : TlbSound pages s.ps.memory 0 s.loader.mmu)
    (hkeeps : ∀ ps words r p ps', mmuMalloc ps words = .ok (r, p, ps') →
      AgreeOn (listedFrames s.ps.memory 0 ∪ tableFrames s.ps.memory 0) ps.memory ps'.memory)
    (hfits : ∀ load ∈ loads, ∀ file, files load.2.1 = some file →
      file.lines.length ≤ 64 * pages + 2)
    (h : Lts.Steps (LoadStep mmuMalloc files) s loads s') :
    AgreeOn (tableFrames s.ps.memory 0) s.ps.memory s'.ps.memory ∧
      TlbSound pages s'.ps.memory 0 s'.loader.mmu ∧
      (∀ cpu, view pages s'.ps.memory 0 cpu = ⟨cpu, (loads.map (·.2.1)).foldl
        (fun words path => overlay (fileWords (files path)) words)
        (view pages s.ps.memory 0 cpu).words⟩) ∧
      ∀ load ∈ loads, ∀ file, files load.2.1 = some file → 2 ≤ file.lines.length →
        load.2.2.memoryMap.pgb = 0 ∧
          load.2.2.cpuSnapshot = loadedSnapshot load.1.uninitialised.cpuSnapshot := by
  induction h with
  | refl => exact ⟨.refl _ _, htlb, fun _ => rfl, by simp⟩
  | @tail loads t u load _ hlast ih =>
    obtain ⟨htables, htlb₁, hwords, hprocesses⟩ := ih fun l hl => hfits l (by simp [hl])
    obtain ⟨ret, hfile⟩ := LoadCall.Loads.file hlast
    have hkept : ∀ words r p ps₁, mmuMalloc t.ps words = .ok (r, p, ps₁) →
        AgreeOn (listedFrames t.ps.memory 0 ∪ tableFrames t.ps.memory 0) t.ps.memory
          ps₁.memory := by
      rw [listedFrames_congr htables, tableFrames_congr htables]
      exact fun words r p ps₁ hmalloc => hkeeps t.ps words r p ps₁ hmalloc
    obtain ⟨htables₁, htlb₂, hwords₁, hprocess⟩ :=
      loadFile_overlays hfile (htable.congr htables) htlb₁ hkept (hfits load (by simp))
    rw [tableFrames_congr htables] at htables₁
    refine ⟨htables.trans htables₁, htlb₂, fun cpu => ?_, fun l hl => ?_⟩
    · rw [hwords₁ cpu, hwords cpu, List.map_append, List.foldl_append]
      rfl
    · rcases List.mem_append.1 hl with hl | hl
      · exact hprocesses l hl
      · obtain rfl := List.mem_singleton.1 hl
        exact hprocess

/-- In every run of the loader over an `mmu_malloc` that leaves the table at address 0 and its
frames alone, the words of the files lie over each other in the order of the loads. A process with a
program, whichever of them, runs all of these words when it is dispatched to a thread with a flushed
TLB, from word 0 on: a later program takes the place of its own. Reference:
`loader_load_next_process` (`src/loader_s.c:58`), `cpu_snapshot_init` (`src/pcb_s.c:21`). -/
theorem loaded_programs_overlap [NeZero n] {calls : List (LoadCall ι × Int)}
    (hback : BackEndOk s.sched.currentPolicy s.sched.schedulerQueueIObject)
    (hpos : 0 < s.loader.pridCounter) (hint : s.loader.pridCounter ≤ 0x7FFFFFFF)
    (htable : PageTable s.ps.memory 0 pages)
    (hflushed : ∀ i, (s.loader.mmu.tlbHashArr i).active = false)
    (hkeeps : ∀ ps words r p ps', mmuMalloc ps words = .ok (r, p, ps') →
      AgreeOn (listedFrames s.ps.memory 0 ∪ tableFrames s.ps.memory 0) ps.memory ps'.memory)
    (hfits : ∀ path ∈ s.loader.unloadedElfList, ∀ file, files path = some file →
      file.lines.length ≤ 64 * pages + 2)
    (h : Lts.Steps (LoadCall.Step mmuMalloc files) s calls s') {q : Nat} {call : LoadCall ι}
    {ret : Int} {path : π} {file : ProgramFile}
    (hcall : calls[q]? = some (call, ret))
    (hpath : s.loader.unloadedElfList.reverse[q]? = some path)
    (hfile : files path = some file) (hprogram : 2 ≤ file.lines.length) :
    ∃ p, s'.sched.pcbs (.pcb call.pcb) = some p ∧ ∀ (t : Thread n) steps start,
      start = VirtualMachine.mk (loadedSnapshot call.uninitialised.cpuSnapshot)
        ((s.loader.unloadedElfList.reverse.take calls.length).foldl
          (fun words path => overlay (fileWords (files path)) words)
          (view pages s.ps.memory 0 call.uninitialised.cpuSnapshot).words) →
      (∀ i, (t.memManagUnit.tlbHashArr i).active = false) →
      Iterate.Along VirtualMachine.step VirtualMachine.SparesBoundary steps start →
      Outcome.Rel (fun x v => view pages x.2 0 x.1.context = v)
        (Iterate.iter threadStep steps ((dispLoad t p).1, s'.ps.memory)) (start.run steps) := by
  obtain ⟨loads, hloads, hcalls, hpaths, -⟩ := loads_of_calls h
  have hqueues := LoadState.queues hback hpos hint hloads
  have htaken := paths_of_calls hcalls hpaths
  have hmem : ∀ load ∈ loads, load.2.1 ∈ s.loader.unloadedElfList := by
    intro load hload
    rw [← List.mem_reverse, hpaths]
    exact List.mem_append_left _ (List.mem_map_of_mem hload)
  obtain ⟨htables, -, hwords, hprocesses⟩ := LoadState.overlays htable
    (tlbCache_sound_of_inactive hflushed _ _ _) hkeeps
    (fun load hload => hfits load.2.1 (hmem load hload)) hloads
  have hlt : q < s.loader.unloadedElfList.length := by
    rw [← List.length_reverse]
    exact (List.getElem?_eq_some_iff.1 hpath).1
  obtain ⟨path', pcb, hload⟩ := load_of_call hcalls hcall hlt
  have hsame : path' = path := by
    have hat : (loads.map (·.2.1))[q]? = some path' := by
      rw [List.getElem?_map, hload]
      rfl
    rw [← htaken, List.getElem?_take_of_lt (List.getElem?_eq_some_iff.1 hcall).1, hpath] at hat
    exact (Option.some.inj hat).symm
  subst hsame
  obtain ⟨-, hpcb, -⟩ := hqueues.process q _ _ pcb hload
  obtain ⟨hpgb, hcpu⟩ := hprocesses _ (List.mem_of_getElem? hload) file hfile hprogram
  dsimp only at hpgb hcpu
  refine ⟨_, hpcb, fun t steps start hstart hinactive hspares => ?_⟩
  rw [htaken] at hstart
  have hview : view pages s'.ps.memory 0 pcb.cpuSnapshot = start := by
    rw [hwords, hcpu, hstart]
    rfl
  rw [← hview] at hspares ⊢
  have hptbr : (dispLoad t { pcb with status := prReady }).1.PTBR = 0 := hpgb
  have hrun := thread_runs_virtualMachine (t := (dispLoad t { pcb with status := prReady }).1)
    (m := s'.ps.memory) (by rw [hptbr]; exact htable.congr htables) hinactive
    (by rw [hptbr]; exact hspares)
  rw [hptbr] at hrun
  exact hrun.mono fun x v hx => hx.2.2

end

/-- The data line of an `ADD`. -/
def addLine : List Char := ['2', '0', '0', '0', '0', '0', '0', '0', '\n']

/-- The program of one `ADD`. -/
def addFile : ProgramFile := ⟨[exitText, exitData, addLine], 120, by decide⟩

/-- A file with an `ADD` and one with an `EXIT`. -/
def addAndExit : Bool → Option ProgramFile
  | false => some exitFile
  | true => some addFile

/-- A call in the place of `mmu_malloc` that answers the second one of the tables in `twoTables`. -/
def mallocThere : MmuMalloc := fun ps _ => .ok (0, 0x100, ps)

/-- The `ADD` is loaded first. -/
def twoPrograms : LoadState Bool Bool Unit 10 1 20 where
  loader := ⟨[false, true], 1, 20, tlbFlush 10⟩
  ps := ⟨twoTables, []⟩
  sched := twoFiles.sched

/-- The loads of the two programs. -/
def twoLoads : List (LoadCall Bool × Int) := [(⟨false, zeroPcb, 5⟩, 0), (⟨true, zeroPcb, 5⟩, 0)]

/-- A loader that goes on: the table at address 0 is there, and the queue takes every process. -/
structure LoadState.Ready (s : LoadState Bool Bool Unit 10 1 20) (paths : List Bool) : Prop where
  paths : s.loader.unloadedElfList = paths
  maxPrio : s.loader.maxPrio = 20
  table : PageTable s.ps.memory 0 1
  tlb : TlbSound 1 s.ps.memory 0 s.loader.mmu
  queue : ∃ rq, s.sched.schedulerQueueIObject = rqSimpleFifoISchedImplement rq

/-- It loads the last file of its list. -/
theorem LoadState.Ready.load {s : LoadState Bool Bool Unit 10 1 20} {paths : List Bool}
    {path : Bool} (h : s.Ready (paths ++ [path])) (i : Bool)
    (hfresh : s.sched.pcbs (.pcb i) = none) :
    ∃ s', LoadCall.Step mallocThere addAndExit s (⟨i, zeroPcb, 5⟩, 0) s' ∧ s'.Ready paths ∧
      ∀ j, j ≠ i → s'.sched.pcbs (.pcb j) = s.sched.pcbs (.pcb j) := by
  obtain ⟨line, file, hfile, hlines, hblock, hline⟩ : ∃ line file, addAndExit path = some file ∧
      file.lines = [exitText, exitData, line] ∧ file.block = 120 ∧ line.length < 108 := by
    cases path
    · exact ⟨exitLine, exitFile, rfl, rfl, rfl, by decide⟩
    · exact ⟨addLine, addFile, rfl, rfl, rfl, by decide⟩
  have hroom : [line].length ≤ 64 * 1 := by
    rw [List.length_singleton]
    omega
  have hmalloc : mallocThere s.ps (BitVec.ofNat 32 [line].length) = .ok (0, 0x100, s.ps) := rfl
  obtain ⟨rq, hqueue⟩ := h.queue
  have hread : ∀ l ∈ readLines [line], l.length < 108 := fun l hl =>
    List.mem_singleton.1 (List.mem_of_mem_take hl) ▸ hline
  obtain ⟨mmu', memory', hload, -, htlb', hagree, -⟩ := loadFile_shows _ hlines
    (hblock ▸ exitText_read) exitData_read hread hmalloc h.table h.tlb hroom
  rw [← hfile] at hload
  have hinsert (priority : Int) : iSchedInsert s.sched.schedulerQueueIObject (.pcb i) priority =
      .ok (rqSimpleFifoISchedImplement (rqSimpleFifoIn rq (.pcb i))) := by
    rw [hqueue]
    rfl
  let call : LoadCall Bool := ⟨i, zeroPcb, 5⟩
  have hstep : LoadCall.Step mallocThere addAndExit s (call, 0) _ :=
    LoadCall.step_of_file h.paths hfresh (by rw [h.maxPrio]; decide) hload (hinsert _)
  refine ⟨_, hstep, ⟨rfl, h.maxPrio, h.table.congr (h.table.agree_table hagree), htlb', _, rfl⟩, ?_⟩
  intro j hj
  have hne : PcbPtr.pcb j ≠ .pcb i := fun heq => hj (PcbPtr.pcb.inj heq)
  exact Function.update_of_ne hne _ _

theorem twoPrograms_run : ∃ s',
    Lts.Steps (LoadCall.Step mallocThere addAndExit) twoPrograms twoLoads s' := by
  have hready : twoPrograms.Ready ([false] ++ [true]) :=
    ⟨rfl, rfl, twoTables_pageTable false, tlbSound_tlbFlush 10 _ _ _, _, rfl⟩
  obtain ⟨s₁, hfirst, hready₁, hkept⟩ := hready.load false rfl
  have hlast : s₁.Ready ([] ++ [false]) := hready₁
  obtain ⟨s₂, hsecond, -⟩ := hlast.load true (hkept true (by decide))
  have hrun : Lts.Steps (LoadCall.Step mallocThere addAndExit) twoPrograms (twoLoads.take 1) s₁ :=
    Lts.Steps.refl.tail hfirst
  exact ⟨s₂, hrun.tail hsecond⟩

/-- The process of the `ADD` runs the `EXIT` that was loaded after it. -/
theorem loaded_programs_overlap_two : ∃ (s' : LoadState Bool Bool Unit 10 1 20) (p : Pcb),
    Lts.Steps (LoadCall.Step mallocThere addAndExit) twoPrograms twoLoads s' ∧
    s'.sched.pcbs (.pcb false) = some p ∧ addAndExit true = some addFile ∧
    ∃ x : Thread 20 × Memory,
      Iterate.iter threadStep 3 ((dispLoad freshThread p).1, s'.ps.memory) = .ok x ∧
      x.1.PC = 0 := by
  obtain ⟨s', hrun⟩ := twoPrograms_run
  have hfits : ∀ path ∈ twoPrograms.loader.unloadedElfList, ∀ file,
      addAndExit path = some file → file.lines.length ≤ 64 * 1 + 2 := by
    intro path _ file hfile
    cases path <;> cases hfile <;> decide
  have hkeeps : ∀ ps words r p ps', mallocThere ps words = .ok (r, p, ps') →
      AgreeOn (listedFrames twoTables 0 ∪ tableFrames twoTables 0) ps.memory ps'.memory := by
    intro ps words r p ps' hmalloc
    cases hmalloc
    exact .refl _ _
  obtain ⟨p, hp, hruns⟩ := loaded_programs_overlap (s := twoPrograms)
    (.simple (show ¬ PrioPolicy schedFifo by decide) rfl) (show (0 : Int) < 1 by decide)
    (show (1 : Int) ≤ 0x7FFFFFFF by decide) (twoTables_pageTable false) (fun _ => rfl) hkeeps hfits
    hrun (show twoLoads[0]? = some (⟨false, zeroPcb, 5⟩, 0) from rfl)
    (show twoPrograms.loader.unloadedElfList.reverse[0]? = some true from rfl) rfl (by decide)
  have hzero : overlay (lineWords [exitLine]) (overlay (lineWords [addLine])
      (view 1 twoTables 0 zeroPcb.cpuSnapshot).words) 0 = 0xF0000000 := by
    rw [exitLine_words]
    rfl
  obtain ⟨⟨IR, hspin⟩, halong⟩ := machineAtZero_spins 0 3 hzero
  have hrel := hruns freshThread 3 _ (by rw [loadedSnapshot_zeroPcb]; rfl) (fun _ => rfl) halong
  rw [hspin] at hrel
  obtain ⟨x, hx, hview⟩ := hrel.of_ok
  exact ⟨s', p, hrun, hp, rfl, x, hx, congrArg (·.cpu.PC) hview⟩

end SeKernel
