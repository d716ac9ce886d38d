import SeKernel.Cpu.Executor

/-!
# Process control blocks and context switches

The PCBs of `headers/pcb_s.h` and the dispatcher functions of `src/scheduler.c` that load a process
on a hardware thread and save it. PCBs are allocated and freed, and a pointer to one is its index in
`PcbHeap`.
-/

namespace SeKernel

/-- Reference: `PR_UNDEFINED` (`headers/pcb_s.h:4`). -/
def prUndefined : Int := 0

/-- Reference: `PR_EXEC` (`headers/pcb_s.h:5`). -/
def prExec : Int := 1

/-- Reference: `PR_FINI` (`headers/pcb_s.h:6`). -/
def prFini : Int := 2

/-- Reference: `PR_READY` (`headers/pcb_s.h:7`). -/
def prReady : Int := 3

/-- Reference: `struct memory_map` (`headers/pcb_s.h:12`). -/
structure MemoryMap where
  data : Word
  code : Word
  pgb : Word
  deriving DecidableEq, Repr

/-- Reference: `struct cpu_snapshot` (`headers/pcb_s.h:18`). -/
structure CpuSnapshot where
  PC : Word
  IR : Word
  R : Fin cpuRegisters → Word
  cc : Word

/-- Reference: `struct pcb_t` (`headers/pcb_s.h:25`). -/
structure Pcb where
  pid : Int
  currentPriority : Int
  status : Int
  memoryMap : MemoryMap
  cpuSnapshot : CpuSnapshot

/-- The PCBs that pointers of type `ι` lead to; a freed one is `none`. -/
abbrev PcbHeap (ι : Type) := ι → Option Pcb

variable {ι : Type} [DecidableEq ι] {n : Nat}

/-- Follow a pointer to a PCB. -/
def PcbHeap.read (heap : PcbHeap ι) (pcb : ι) : Outcome Pcb :=
  match heap pcb with
  | some p => return p
  | none => throw .dangling

/-- Change the PCB behind a pointer. -/
def PcbHeap.write (heap : PcbHeap ι) (pcb : ι) (p : Pcb) : PcbHeap ι :=
  Function.update heap pcb (some p)

/-- Reference: `__disp_load` (`src/scheduler.c:152`). -/
def dispLoad (thread : Thread n) (pcb : Pcb) : Thread n × Pcb :=
  ({ thread with
      PTBR := pcb.memoryMap.pgb
      IR := pcb.cpuSnapshot.IR
      PC := pcb.cpuSnapshot.PC
      cc := pcb.cpuSnapshot.cc
      R := pcb.cpuSnapshot.R },
    { pcb with status := prExec })

/-- Reference: `__disp_unload` (`src/scheduler.c:163`). -/
def dispUnload (thread : Thread n) (pcb : Pcb) : Pcb :=
  { pcb with
    cpuSnapshot := { PC := thread.PC, IR := thread.IR, R := thread.R, cc := thread.cc }
    status := prFini }

/-- Save a process, when there is one. Reference: `disp_dispatch` (`src/scheduler.c:130`). -/
def dispUnloadOld (heap : PcbHeap ι) (thread : Thread n) : Option ι → Outcome (PcbHeap ι)
  | none => return heap
  | some oldPcb => do
    let p ← heap.read oldPcb
    return heap.write oldPcb (dispUnload thread p)

/-- Reference: `disp_dispatch` (`src/scheduler.c:129`). -/
def dispDispatch (heap : PcbHeap ι) (oldPcb : Option ι) (newPcb : ι) (thread : Thread n) :
    Outcome (PcbHeap ι × Thread n) := do
  let heap ← dispUnloadOld heap thread oldPcb
  let p ← heap.read newPcb
  let (thread, p) := dispLoad thread p
  return (heap.write newPcb p, thread)

omit [DecidableEq ι] in
theorem PcbHeap.read_eq_ok {heap : PcbHeap ι} {pcb : ι} {p : Pcb} :
    heap.read pcb = .ok p ↔ heap pcb = some p := by
  unfold PcbHeap.read
  cases heap pcb <;> simp

/-- Changing a PCB but for its memory map leaves all memory maps as they are. -/
theorem PcbHeap.write_memoryMap {heap : PcbHeap ι} {pcb : ι} {p : Pcb} (p' : Pcb)
    (hp : heap pcb = some p) (hmap : p'.memoryMap = p.memoryMap) (i : ι) :
    (heap.write pcb p' i).map (·.memoryMap) = (heap i).map (·.memoryMap) := by
  unfold PcbHeap.write
  by_cases hi : i = pcb
  · subst hi
    simp [hp, hmap]
  · rw [Function.update_of_ne hi]

/-- A switch loads the new process's page table base and leaves the MMU and every memory map as they
are. -/
theorem dispDispatch_frame {heap heap' : PcbHeap ι} {oldPcb : Option ι} {newPcb : ι}
    {thread thread' : Thread n}
    (h : dispDispatch heap oldPcb newPcb thread = .ok (heap', thread')) :
    thread'.memManagUnit = thread.memManagUnit ∧
    (heap newPcb).map (·.memoryMap.pgb) = some thread'.PTBR ∧
    ∀ i, (heap' i).map (·.memoryMap) = (heap i).map (·.memoryMap) := by
  obtain ⟨heap₁, hold, h⟩ := Outcome.bind_eq_ok.1 h
  obtain ⟨p, hp, h⟩ := Outcome.bind_eq_ok.1 h
  rw [PcbHeap.read_eq_ok] at hp
  cases h
  have hmaps : ∀ i, (heap₁ i).map (·.memoryMap) = (heap i).map (·.memoryMap) := by
    intro i
    cases oldPcb with
    | none =>
      cases hold
      rfl
    | some old =>
      obtain ⟨q, hq, hret⟩ := Outcome.bind_eq_ok.1 hold
      cases hret
      exact PcbHeap.write_memoryMap (dispUnload thread q) (PcbHeap.read_eq_ok.1 hq) rfl i
  refine ⟨rfl, ?_, ?_⟩
  · have hnew := congrArg (Option.map MemoryMap.pgb) (hmaps newPcb)
    rw [hp] at hnew
    simpa using hnew.symm
  · intro i
    exact (PcbHeap.write_memoryMap { p with status := prExec } hp rfl i).trans (hmaps i)

end SeKernel
