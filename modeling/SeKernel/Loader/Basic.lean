import SeKernel.Loader.Text
import SeKernel.Memory.Mmu
import SeKernel.Process.Layout
import SeKernel.Scheduler.Basic

/-!
# The loader

`__load_file` and `loader_load_next_process` of `src/loader_s.c`. `mmu_malloc` never returns
(`mmuMalloc_exits`), so the loader is modelled over any function in its place. `__load_file` moves
the pointer that it gives to `getline` behind the space of each header line, and `getline` goes on
as if the whole block were still there. `malloc` returns a PCB with arbitrary contents, and `rand`
some number.
-/

namespace SeKernel

/-- What stands in the place of `mmu_malloc`: the return value, the address returned through `ptbr`,
and the memory. -/
abbrev MmuMalloc := PhysicalMemory → Word → Outcome (Int × Word × PhysicalMemory)

variable {m n : Nat}

/-- One header line, read with `left` bytes behind the pointer: `atoi(line) * 4`, and the bytes that
are left behind the moved pointer. Reference: `__load_file` (`src/loader_s.c:95`). -/
def loadHeader (left : Nat) (line : List Char) : Outcome (Word × Nat) := do
  getline left line
  let number ← headerNumber line
  let address ← asInt (number * 4)
  return (BitVec.ofInt 32 address, left - headerSkip line)

/-- The two header lines; `cpu_snapshot_init` is given a pointer to `status`. The bytes that are
left for the other lines are returned too. Reference: `__load_file` (`src/loader_s.c:95`). -/
def loadHeaders (block : Nat) (pcb : Pcb) (text data : List Char) : Outcome (Pcb × Nat) := do
  let (code, left) ← loadHeader block text
  let pcb := { pcb with memoryMap := { pcb.memoryMap with code } }
  let pcb := cpuSnapshotInit pcb statusOffset code
  let (data, left) ← loadHeader left data
  return ({ pcb with memoryMap := { pcb.memoryMap with data } }, left)

/-- The lines after the headers, from a virtual address on. Reference: `__load_file`
(`src/loader_s.c:112`). -/
def loadWords [NeZero m] (pgb : Word) (left : Nat) :
    List (List Char) → Word → Mmu m → Memory → Outcome (Int × Mmu m × Memory)
  | [], _, mmu, memory => return (1, mmu, memory)
  | line :: lines, virtAdress, mmu, memory => do
    getline left line
    match hexStringToInt32 (cutLine line) with
    | none => return (0, mmu, memory)
    | some currentData => do
      let (address, mmu) ← mmuResolve mmu memory pgb virtAdress
      loadWords pgb left lines (virtAdress + 4) mmu (pmWriteWord memory address currentData)

/-- `file` is what `fopen` finds. What `mmu_malloc` returns is not looked at. Reference:
`__load_file` (`src/loader_s.c:73`). -/
def loadFile [NeZero m] (mmuMalloc : MmuMalloc) (file : Option ProgramFile) (mmu : Mmu m)
    (ps : PhysicalMemory) (pcb : Pcb) : Outcome (Int × Pcb × Mmu m × PhysicalMemory) :=
  match file with
  -- `exit(1)`
  | none => throw (.err 1 "")
  | some file =>
    match file.lines with
    | text :: data :: lines => do
      let (_, pgb, ps) ← mmuMalloc ps (BitVec.ofNat 32 lines.length)
      let pcb := { pcb with memoryMap := { pcb.memoryMap with pgb } }
      let (pcb, left) ← loadHeaders file.block pcb text data
      let (ret, mmu, memory) ← loadWords pcb.memoryMap.pgb left lines 0 mmu ps.memory
      let ps := { ps with memory }
      if ret = 0 then
        return (0, pcb, mmu, ps)
      else
        return (1, pcb, tlbFlush m, ps)
    | _ => return (0, pcb, mmu, ps)

section

variable [NeZero m] {mmuMalloc : MmuMalloc} {file : ProgramFile} {text data : List Char}
  {lines : List (List Char)} {mmu : Mmu m} {ps : PhysicalMemory} {pcb : Pcb}

/-- A file of fewer than two lines is left alone. Reference: `__load_file`
(`src/loader_s.c:89`). -/
theorem loadFile_short (h : file.lines.length < 2) :
    loadFile mmuMalloc (some file) mmu ps pcb = .ok (0, pcb, mmu, ps) := by
  obtain ⟨lines, block, room⟩ := file
  match lines, room, h with
  | [], _, _ | [_], _, _ => rfl

/-- A file with two header lines. Reference: `__load_file` (`src/loader_s.c:92`). -/
theorem loadFile_program (h : file.lines = text :: data :: lines) :
    loadFile mmuMalloc (some file) mmu ps pcb =
      mmuMalloc ps (BitVec.ofNat 32 lines.length) >>= fun r =>
        loadHeaders file.block { pcb with memoryMap := { pcb.memoryMap with pgb := r.2.1 } } text
            data >>= fun headed =>
          loadWords headed.1.memoryMap.pgb headed.2 lines 0 mmu r.2.2.memory >>= fun loaded =>
            if loaded.1 = 0 then
              .ok (0, headed.1, loaded.2.1, { r.2.2 with memory := loaded.2.2 })
            else
              .ok (1, headed.1, tlbFlush m, { r.2.2 with memory := loaded.2.2 }) := by
  obtain ⟨lines', block, room⟩ := file
  dsimp only at h
  subst h
  rfl

/-- A file either is short or has two header lines. -/
theorem ProgramFile.lines_cases (file : ProgramFile) :
    file.lines.length < 2 ∨ ∃ text data lines, file.lines = text :: data :: lines := by
  match file.lines with
  | [] => exact .inl (by simp)
  | [_] => exact .inl (by simp)
  | text :: data :: lines => exact .inr ⟨text, data, lines, rfl⟩

end

/-- Reference: `struct loader_s` (`headers/loader.h:15`). The paths are of type `π`; the scheduler
is an argument of its own. -/
structure Loader (π : Type) (m : Nat) where
  unloadedElfList : List π
  pridCounter : Int
  maxPrio : Int
  mmu : Mmu m

variable {π ι τ : Type} {k : Nat}

/-- Reference: `__loader_get_valid_pid` (`src/loader_s.c:23`). -/
def loaderGetValidPid (loader : Loader π m) : Int × Loader π m :=
  let pridCounter := (BitVec.ofInt 32 (loader.pridCounter + 1)).toInt
  (loader.pridCounter, { loader with pridCounter := if pridCounter < 0 then 1 else pridCounter })

/-- Reference: `__loader_get_valid_priority` (`src/loader_s.c:31`). -/
def loaderGetValidPriority (loader : Loader π m) (rand : Int) : Outcome Int :=
  if loader.maxPrio = 0 then throw .arith else return rand.tmod loader.maxPrio

/-- `i` is the pointer that `malloc` returns for the PCB, `uninitialised` what is in it. The return
value of `__load_file` is not looked at. Reference: `loader_load_next_process`
(`src/loader_s.c:58`). -/
def loaderLoadNextProcess [NeZero m] [DecidableEq ι] (mmuMalloc : MmuMalloc)
    (files : π → Option ProgramFile) (i : ι) (uninitialised : Pcb) (rand : Int)
    (loader : Loader π m) (ps : PhysicalMemory) (sched : Sched ι τ k n) :
    Outcome (Int × Loader π m × PhysicalMemory × Sched ι τ k n) :=
  match Seq.linkedlistPop loader.unloadedElfList with
  | (none, _) => return (-1, loader, ps, sched)
  | (some currentPath, unloadedElfList) =>
    if (sched.pcbs (.pcb i)).isSome then
      throw .mallocInUse
    else do
      let (pid, loader) := loaderGetValidPid { loader with unloadedElfList }
      let priority ← loaderGetValidPriority loader rand
      let pcb := pcbInit uninitialised pid priority
      let (_, pcb, mmu, ps) ← loadFile mmuMalloc (files currentPath) loader.mmu ps pcb
      let sched ← schedAddToProcessQueue
        { sched with pcbs := sched.pcbs.write (.pcb i) pcb } (.pcb i)
      return (0, { loader with mmu }, ps, sched)

end SeKernel
