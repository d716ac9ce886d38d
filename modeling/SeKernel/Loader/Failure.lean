import SeKernel.Loader.Image
import SeKernel.Scheduler.WellFormed

/-!
# Loads that fail

`__load_file` gives up without giving anything back: only a file of fewer than two lines, which it
leaves alone, ends without a trace in the memory and in the TLB. A header line without a space makes
it follow a pointer that leads nowhere, and after a bad data line the page table, its frames and the
TLB entries stay. `loader_load_next_process` queues the process and returns 0 in any case
(`failed_load_leaves_trace`).
-/

namespace SeKernel

variable {π ι τ : Type} [DecidableEq ι] {k m n : Nat} [NeZero m]

/-- `mmu_malloc` delivers a page table for so many words, whose address was free and is taken. -/
def DeliversTable (mmuMalloc : MmuMalloc) (ps : PhysicalMemory) (words : Nat) : Prop :=
  ∃ ptbr ps', mmuMalloc ps (BitVec.ofNat 32 words) = .ok (0, ptbr, ps') ∧
    PageTable ps'.memory ptbr (framesFor words) ∧ ptbr.toNat ∈ ps.free ∧ ptbr.toNat ∉ ps'.free

/-- `__load_file` returns 0, the addresses that were free are free, and no TLB entry is active. -/
def FileFailsClean (mmuMalloc : MmuMalloc) (file : Option ProgramFile) (mmu : Mmu m)
    (ps : PhysicalMemory) (pcb : Pcb) : Prop :=
  ∃ pcb' mmu' ps', loadFile mmuMalloc file mmu ps pcb = .ok (0, pcb', mmu', ps') ∧
    ps'.free = ps.free ∧ ∀ slot, (mmu'.tlbHashArr slot).active = false

/-- `loader_load_next_process` returns something else than 0 and does not queue the process. -/
def LoadReportsFailure (mmuMalloc : MmuMalloc) (files : π → Option ProgramFile) (i : ι)
    (uninitialised : Pcb) (rand : Int) (loader : Loader π m) (ps : PhysicalMemory)
    (sched : Sched ι τ k n) : Prop :=
  ∃ ret loader' ps' sched',
    loaderLoadNextProcess mmuMalloc files i uninitialised rand loader ps sched =
      .ok (ret, loader', ps', sched') ∧ ret ≠ 0 ∧ .pcb i ∉ sched'.queued

/-- A header line without a space: the pointer behind the space leads nowhere. Reference:
`__load_file` (`src/loader_s.c:99`). -/
theorem loadHeader_no_space {left : Nat} {line : List Char} (hroom : line.length < left)
    (hspace : ' ' ∉ line) : loadHeader left line = .error .wildPointer := by
  have hline : getline left line = .ok () := if_pos hroom
  rw [loadHeader, hline, Outcome.ok_bind, headerNumber_of_no_space hspace, Outcome.error_bind]

section

variable {mmuMalloc : MmuMalloc} {file : ProgramFile} {text data : List Char}
  {lines : List (List Char)} {mmu : Mmu m} {ps : PhysicalMemory} {pcb : Pcb}

/-- A first line without a space ends in undefined behaviour. Reference: `__load_file`
(`src/loader_s.c:99`). -/
theorem loadFile_no_space (hfile : file.lines = text :: data :: lines) (hspace : ' ' ∉ text)
    (hdelivers : DeliversTable mmuMalloc ps lines.length) :
    loadFile mmuMalloc (some file) mmu ps pcb = .error .wildPointer := by
  obtain ⟨ptbr, ps', hmalloc, -⟩ := hdelivers
  have hroom : text.length < file.block := file.room _ (by rw [hfile]; simp)
  rw [loadFile_program hfile, hmalloc, Outcome.ok_bind, loadHeaders,
    loadHeader_no_space hroom hspace, Outcome.error_bind, Outcome.error_bind]

/-- So does a second one, if nothing before it does. Reference: `__load_file`
(`src/loader_s.c:108`). -/
theorem loadFile_no_space_data (hfile : file.lines = text :: data :: lines) (hspace : ' ' ∉ data) :
    ∃ e, loadFile mmuMalloc (some file) mmu ps pcb = .error e := by
  cases hload : loadFile mmuMalloc (some file) mmu ps pcb with
  | error e => exact ⟨e, rfl⟩
  | ok r =>
    obtain ⟨_, _, _, _, left₁, dataAddress, left, -, -, hdata, -⟩ := loadFile_returns hfile hload
    by_cases hroom : data.length < left₁
    · rw [loadHeader_no_space hroom hspace] at hdata
      cases hdata
    · rw [loadHeader, getline, if_neg hroom] at hdata
      cases hdata

/-- A file with header lines never fails without a trace: whatever its lines, the page table is
taken. -/
theorem not_fileFailsClean (hfile : file.lines = text :: data :: lines)
    (hdelivers : DeliversTable mmuMalloc ps lines.length) :
    ¬ FileFailsClean mmuMalloc (some file) mmu ps pcb := by
  obtain ⟨ptbr, ps', hmalloc, -, hfree, htaken⟩ := hdelivers
  rintro ⟨pcb', mmu', ps'', hload, hsame, -⟩
  obtain ⟨_, _, ps₁, _, _, _, _, hmalloc', -, -, -, -, -, hblocks⟩ := loadFile_returns hfile hload
  rw [hmalloc] at hmalloc'
  cases hmalloc'
  unfold PhysicalMemory.free at hsame hfree htaken
  rw [← hsame, hblocks] at hfree
  exact htaken hfree

end

/-- `loader_load_next_process` returns 0 whenever there is a file and it returns. Reference:
`loader_load_next_process` (`src/loader_s.c:58`). -/
theorem loaderLoadNextProcess_returns_zero {mmuMalloc : MmuMalloc}
    {files : π → Option ProgramFile} {i : ι} {uninitialised : Pcb} {rand ret : Int}
    {loader loader' : Loader π m} {ps ps' : PhysicalMemory} {sched sched' : Sched ι τ k n}
    {path : π}
    (hpath : loader.unloadedElfList.getLast? = some path)
    (h : loaderLoadNextProcess mmuMalloc files i uninitialised rand loader ps sched =
      .ok (ret, loader', ps', sched')) : ret = 0 := by
  unfold loaderLoadNextProcess Seq.linkedlistPop at h
  rw [hpath] at h
  dsimp only at h
  split at h
  · cases h
  · obtain ⟨_, -, h⟩ := Outcome.bind_eq_ok.1 h
    obtain ⟨_, -, h⟩ := Outcome.bind_eq_ok.1 h
    obtain ⟨_, -, h⟩ := Outcome.bind_eq_ok.1 h
    cases h
    rfl

/-- For every file, well-formed or not: `__load_file` fails without a trace if and only if the file
has fewer than two lines and the TLB was empty, and `loader_load_next_process` never reports the
failure. A file with a header line without a space is no failure that is reported either. Reference:
`__load_file` (`src/loader_s.c:73`), `loader_load_next_process` (`src/loader_s.c:58`). -/
theorem failed_load_leaves_trace {mmuMalloc : MmuMalloc} {files : π → Option ProgramFile}
    {i : ι} {uninitialised pcb : Pcb} {rand : Int} {loader : Loader π m} {ps : PhysicalMemory}
    {sched : Sched ι τ k n} {path : π} {file : ProgramFile}
    (hpath : loader.unloadedElfList.getLast? = some path) (hfile : files path = some file)
    (hdelivers : 2 ≤ file.lines.length → DeliversTable mmuMalloc ps (file.lines.length - 2)) :
    ¬ (FileFailsClean mmuMalloc (files path) loader.mmu ps pcb ∧
      LoadReportsFailure mmuMalloc files i uninitialised rand loader ps sched) ∧
    (FileFailsClean mmuMalloc (files path) loader.mmu ps pcb ↔
      file.lines.length < 2 ∧ ∀ slot, (loader.mmu.tlbHashArr slot).active = false) ∧
    ∀ text data lines, file.lines = text :: data :: lines →
      (' ' ∉ text → loadFile mmuMalloc (files path) loader.mmu ps pcb = .error .wildPointer) ∧
      (' ' ∉ data → ∃ e, loadFile mmuMalloc (files path) loader.mmu ps pcb = .error e) := by
  rw [hfile]
  refine ⟨?_, ?_, fun text data lines hlines => ⟨fun hspace => ?_, fun hspace => ?_⟩⟩
  · rintro ⟨-, ret, loader', ps', sched', hload, hret, -⟩
    exact hret (loaderLoadNextProcess_returns_zero hpath hload)
  · rcases file.lines_cases with hshort | ⟨text, data, lines, hlines⟩
    · constructor
      · rintro ⟨pcb', mmu', ps', hload, -, hinactive⟩
        rw [loadFile_short hshort] at hload
        cases hload
        exact ⟨hshort, hinactive⟩
      · rintro ⟨-, hinactive⟩
        exact ⟨_, _, _, loadFile_short hshort, rfl, hinactive⟩
    · rw [hlines] at hdelivers ⊢
      refine iff_of_false (not_fileFailsClean hlines (hdelivers (by simp))) ?_
      rintro ⟨hshort, -⟩
      simp only [List.length_cons] at hshort
      omega
  · rw [hlines] at hdelivers
    exact loadFile_no_space hlines hspace (hdelivers (by simp))
  · exact loadFile_no_space_data hlines hspace

/-! ## A program whose second instruction is no number -/

/-- A memory with room for a table of one entry and its frame. -/
def smallMemory : PhysicalMemory := ⟨fun _ => 0, [⟨0, 7⟩, ⟨0x400000, 0x4000FF⟩]⟩

/-- A call in the place of `mmu_malloc` that takes the free addresses of `smallMemory`. -/
def mallocSmall : MmuMalloc := fun _ _ => .ok (0, 0, ⟨twoTables, []⟩)

theorem mallocSmall_delivers : DeliversTable mallocSmall smallMemory 2 := by
  have hfree : 0 ∈ smallMemory.free := ⟨⟨0, 7⟩, List.mem_cons_self, by decide, by decide⟩
  refine ⟨0, _, rfl, twoTables_pageTable false, hfree, ?_⟩
  rintro ⟨fb, hfb, -⟩
  cases hfb

/-- A program whose last line is another header. -/
def badFile : ProgramFile := ⟨[exitText, exitData, exitLine, exitText], 120, by decide⟩

/-- A loader with one file to load. -/
def oneFile : Loader Unit 10 := ⟨[()], 1, 20, tlbFlush 10⟩

/-- A scheduler with an empty queue and no process. -/
def idleSched : Sched Unit Unit 1 20 where
  currentPolicy := schedFifo
  schedulerQueueIObject := rqSimpleFifoISchedImplement ⟨0, []⟩
  timerTickFreq := 0
  coreControlArray _ := ⟨(), none, 0, nullProcessRun⟩
  pcbs _ := none
  threads _ := ⟨0, 0, 0, fun _ => 0, 0, tlbFlush 20⟩

/-- The one file of `oneFile`. -/
def oneFiles : Unit → Option ProgramFile := fun _ => some badFile

/-- The bad line comes after the table was taken. -/
theorem failed_load_leaves_trace_line :
    ¬ FileFailsClean mallocSmall (oneFiles ()) oneFile.mmu smallMemory zeroPcb := by
  intro hclean
  have htrace : ¬ (FileFailsClean mallocSmall (oneFiles ()) oneFile.mmu smallMemory zeroPcb ∧
      LoadReportsFailure mallocSmall oneFiles () zeroPcb 5 oneFile smallMemory idleSched) ∧ _ :=
    failed_load_leaves_trace rfl rfl fun _ => mallocSmall_delivers
  have hshort := (htrace.2.1.1 hclean).1
  revert hshort
  decide

/-- After the failed load the process is queued, the call returns 0, the first page is in the TLB
and the table's address is not free. -/
theorem failed_load_is_queued : ∃ loader' ps' sched',
    loaderLoadNextProcess mallocSmall oneFiles () zeroPcb 5 oneFile smallMemory idleSched =
      .ok (0, loader', ps', sched') ∧
    .pcb () ∈ sched'.queued ∧ (∃ slot, (loader'.mmu.tlbHashArr slot).active) ∧
    0 ∈ smallMemory.free ∧ 0 ∉ ps'.free := by
  obtain ⟨mmu', hwords, hactive⟩ : ∃ mmu', loadWords 0 108 [exitLine, exitText] 0 (tlbFlush 10)
      twoTables = .ok (0, mmu', pmWriteWord twoTables 0x400000 0xF0000000) ∧
      (mmu'.tlbHashArr (tlbHash 10 0)).active := by
    have hpage : pageNumber 0 < pmReadWord twoTables 0 := by decide
    have hresolve := mmuResolve_of_notStale (notStale_tlbFlush (m := 10) twoTables 0 0) hpage
    have haddress : physicalAddress twoTables 0 0 = 0x400000 := by decide
    have hbad : hexStringToInt32 (cutLine exitText) = none := by decide
    have hline : getline 108 exitLine = .ok () := rfl
    have hlast : getline 108 exitText = .ok () := rfl
    simp only [loadWords, hline, hlast, exitLine_data.hexStringToInt32, hresolve, haddress, hbad,
      Outcome.ok_bind]
    exact ⟨_, rfl, by decide⟩
  have hfile : loadFile mallocSmall (some badFile) (tlbFlush 10) smallMemory
      (pcbInit zeroPcb 1 5) = .ok (0, numberedPcb (pcbInit zeroPcb 1 5) 0 4, mmu',
        ⟨pmWriteWord twoTables 0x400000 0xF0000000, []⟩) := by
    have hheaders (pcb : Pcb) : loadHeaders badFile.block pcb exitText exitData =
        .ok (numberedPcb pcb 0 4, 108) :=
      loadHeaders_eq_ok.2 ⟨_, _, _, _, exitText_read, exitData_read, rfl⟩
    rw [loadFile_program (show badFile.lines = _ from rfl), mallocSmall, Outcome.ok_bind, hheaders,
      Outcome.ok_bind]
    exact Outcome.bind_eq_ok.2 ⟨_, hwords, rfl⟩
  refine ⟨_, _, _, Outcome.bind_eq_ok.2 ⟨5, rfl, Outcome.bind_eq_ok.2 ⟨_, hfile,
    Outcome.bind_eq_ok.2 ⟨_, rfl, rfl⟩⟩⟩, List.mem_singleton_self _, ⟨_, hactive⟩,
    ⟨⟨0, 7⟩, List.mem_cons_self, by decide, by decide⟩, ?_⟩
  rintro ⟨fb, hfb, -⟩
  cases hfb

end SeKernel
