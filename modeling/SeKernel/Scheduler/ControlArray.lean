import Mathlib.Logic.Function.Basic
import Mathlib.Tactic.Common
import SeKernel.Scheduler.Basic

/-!
# The table of control records

`core_control_array` in memory, in cells of eight bytes: a record fills three of them, and the table
is indexed in steps of its declared element type. A table whose elements have `w` cells keeps its
records apart exactly when `w ≥ 3` or there is only one of them
(`ControlTable.initWith_separate_iff`). The elements are declared pointers, one cell wide, so every
hardware thread has its own record on a machine with one thread only
(`schedThreadControlArrayInit_separate_iff`).
-/

namespace SeKernel

/-- The memory, one word for each cell of eight bytes. -/
abbrev Cells := Nat → BitVec 64

/-- A pointer; `NULL` is 0. -/
abbrev Ptr := BitVec 64

/-! ## The processors -/

/-- `thread_kop` is the length of the array. Reference: `struct core_s`
(`headers/cpu_data_s.h:20`). -/
structure CoreS where
  threadArr : List Ptr

/-- `core_kop` is the length of the array. Reference: `struct cpu_s`
(`headers/cpu_data_s.h:13`). -/
structure CpuS where
  coreArr : List CoreS

def CoreS.threadKop (core : CoreS) : Int := core.threadArr.length

/-- The hardware threads in the order of CPUs, cores and threads. -/
def hardwareThreads (cpus : List CpuS) : List Ptr :=
  cpus.flatMap fun cpu => cpu.coreArr.flatMap CoreS.threadArr

/-- `none` is `NULL`; `hariKop` is what the second argument points to. Reference: `get_hari_kop`
(`src/cpu.c:74`). -/
def getHariKop (pCpu : Option CpuS) (hariKop : Option Int) : Int × Option Int :=
  match pCpu, hariKop with
  | some cpu, some _ => (0, some (cpu.coreArr.foldl (fun kop core => kop + core.threadKop) 0))
  | _, _ => (-1, hariKop)

/-! ## Records -/

/-- What is read at a record. Reference: `struct sched_cpu_thread_control`
(`headers/scheduler_s.h:27`). -/
structure ControlRecord where
  threadS : Ptr
  currentProcess : Ptr
  currentProcessQuantum : BitVec 32
  currrentCpuSchedStatus : BitVec 32
  deriving DecidableEq, Repr

/-- A write to one field of a record. -/
inductive ControlWrite
  | threadS (value : Ptr)
  | currentProcess (value : Ptr)
  | currentProcessQuantum (value : BitVec 32)
  | currrentCpuSchedStatus (value : BitVec 32)

/-- The record in the three cells from `a`; the integers share the third one. -/
def ControlRecord.load (mem : Cells) (a : Nat) : ControlRecord where
  threadS := mem a
  currentProcess := mem (a + 1)
  currentProcessQuantum := (mem (a + 2)).extractLsb' 0 32
  currrentCpuSchedStatus := (mem (a + 2)).extractLsb' 32 32

/-- Write a field of the record at `a`. -/
def ControlWrite.store (mem : Cells) (a : Nat) : ControlWrite → Cells
  | .threadS value => Function.update mem a value
  | .currentProcess value => Function.update mem (a + 1) value
  | .currentProcessQuantum value =>
    Function.update mem (a + 2) ((mem (a + 2)).extractLsb' 32 32 ++ value)
  | .currrentCpuSchedStatus value =>
    Function.update mem (a + 2) (value ++ (mem (a + 2)).extractLsb' 0 32)

/-- `sched_cpu_thread_control_init` on the record at `a`. Reference:
`sched_cpu_thread_control_init` (`src/scheduler.c:100`). -/
def controlRecordInit (mem : Cells) (a : Nat) (threadS currentProcess : Ptr)
    (currentProcessQuantum currrentCpuSchedStatus : BitVec 32) : Cells :=
  let mem := ControlWrite.store mem a (.threadS threadS)
  let mem := ControlWrite.store mem a (.currentProcess currentProcess)
  let mem := ControlWrite.store mem a (.currentProcessQuantum currentProcessQuantum)
  ControlWrite.store mem a (.currrentCpuSchedStatus currrentCpuSchedStatus)

variable {mem : Cells} {a b : Nat}

/-- A write stays inside its record. -/
theorem ControlWrite.store_of_outside (write : ControlWrite) (hb : b < a ∨ a + 3 ≤ b) :
    write.store mem a b = mem b := by
  cases write <;> exact Function.update_of_ne (by omega) _ _

theorem ControlRecord.load_congr {mem' : Cells} (h : ∀ b, a ≤ b → b < a + 3 → mem' b = mem b) :
    ControlRecord.load mem' a = ControlRecord.load mem a := by
  unfold ControlRecord.load
  rw [h a (by omega) (by omega), h (a + 1) (by omega) (by omega), h (a + 2) (by omega) (by omega)]

/-- A write to one of two records that are apart leaves the other unchanged. -/
theorem ControlRecord.load_store_of_apart (write : ControlWrite) (h : a + 3 ≤ b ∨ b + 3 ≤ a) :
    ControlRecord.load (write.store mem a) b = ControlRecord.load mem b :=
  ControlRecord.load_congr fun _ _ _ => write.store_of_outside (by omega)

theorem controlRecordInit_of_outside {threadS currentProcess : Ptr} {quantum status : BitVec 32}
    (hb : b < a ∨ a + 3 ≤ b) :
    controlRecordInit mem a threadS currentProcess quantum status b = mem b := by
  unfold controlRecordInit
  iterate 4 rw [ControlWrite.store_of_outside _ hb]

/-- An initialised record reads as it was set. -/
theorem load_controlRecordInit (mem : Cells) (a : Nat) (threadS currentProcess : Ptr)
    (quantum status : BitVec 32) :
    ControlRecord.load (controlRecordInit mem a threadS currentProcess quantum status) a =
      ⟨threadS, currentProcess, quantum, status⟩ := by
  have hlow : (status ++ (BitVec.extractLsb' 32 32 (mem (a + 2)) ++ quantum).extractLsb' 0 32
      ).extractLsb' 0 32 = quantum := by
    rw [BitVec.extractLsb'_append_eq_right, BitVec.extractLsb'_append_eq_right]
  have hhigh : (status ++ (BitVec.extractLsb' 32 32 (mem (a + 2)) ++ quantum).extractLsb' 0 32
      ).extractLsb' 32 32 = status := BitVec.extractLsb'_append_eq_left
  simpa [ControlRecord.load, controlRecordInit, ControlWrite.store] using ⟨hlow, hhigh⟩

/-! ## The table -/

/-- The table is at `coreControlArray`, and its element type has `elemCells` cells. Reference:
`struct sched_struct` (`headers/scheduler_s.h:17`). -/
structure ControlTable where
  elemCells : Nat
  coreControlArray : Nat
  coreControlArraySize : Int

/-- `&core_control_array[i]`. -/
def ControlTable.record (table : ControlTable) (i : Nat) : Nat :=
  table.coreControlArray + table.elemCells * i

/-- Add the threads of a CPU to `cpu_thread_count`; the second component is `current_thread_count`.
Reference: `__sched_thread_control_array_init` (`src/scheduler.c:177`). -/
def countNext (counts : Int × Int) (cpu : CpuS) : Int × Int :=
  let currentThreadCount := ((getHariKop (some cpu) (some counts.2)).2).getD counts.2
  (counts.1 + currentThreadCount, currentThreadCount)

/-- `currentThreadCount` is not initialised. Reference: `__sched_thread_control_array_init`
(`src/scheduler.c:176`). -/
def countThreads (currentThreadCount : Int) (cpus : List CpuS) : Int :=
  (cpus.foldl countNext (0, currentThreadCount)).1

/-- Set the next record. Reference: `__sched_thread_control_array_init` (`src/scheduler.c:186`). -/
def ControlTable.fillNext (table : ControlTable) (st : Cells × Nat) (thread : Ptr) : Cells × Nat :=
  (controlRecordInit st.1 (table.record st.2) thread 0 0 (BitVec.ofInt 32 nullProcessRun), st.2 + 1)

/-- Reference: `__sched_thread_control_array_init` (`src/scheduler.c:183`). -/
def ControlTable.fill (table : ControlTable) (mem : Cells) (cpus : List CpuS) : Cells :=
  (cpus.foldl (fun st cpu => cpu.coreArr.foldl (fun st core =>
    core.threadArr.foldl table.fillNext st) st) (mem, 0)).1

/-- `base` is where `malloc` puts the table. -/
def ControlTable.initWith (elemCells : Nat) (base : Nat) (mem : Cells) (currentThreadCount : Int)
    (cpus : List CpuS) : ControlTable × Cells :=
  let table := ⟨elemCells, base, countThreads currentThreadCount cpus⟩
  (table, table.fill mem cpus)

/-- `core_control_array` is declared `struct sched_cpu_thread_control **`: its elements are
pointers. Reference: `__sched_thread_control_array_init` (`src/scheduler.c:173`). -/
def schedThreadControlArrayInit (base : Nat) (mem : Cells) (currentThreadCount : Int)
    (cpus : List CpuS) : ControlTable × Cells :=
  ControlTable.initWith 1 base mem currentThreadCount cpus

/-- Every hardware thread has its own record: the table has one for each, in order and set up, and
from then on a write to a field of one leaves the others as they are. -/
structure ControlTable.Separate (cpus : List CpuS) (r : ControlTable × Cells) : Prop where
  size : r.1.coreControlArraySize = (hardwareThreads cpus).length
  record : ∀ i : Nat, (i : Int) < r.1.coreControlArraySize →
    ∃ thread, (hardwareThreads cpus)[i]? = some thread ∧ ControlRecord.load r.2 (r.1.record i) =
      ⟨thread, 0, 0, BitVec.ofInt 32 nullProcessRun⟩
  apart : ∀ i j : Nat, (i : Int) < r.1.coreControlArraySize →
    (j : Int) < r.1.coreControlArraySize → i ≠ j → ∀ (mem : Cells) (write : ControlWrite),
      ControlRecord.load (write.store mem (r.1.record i)) (r.1.record j) =
        ControlRecord.load mem (r.1.record j)

/-! ## Counting and filling -/

theorem foldl_threadKop (cores : List CoreS) (kop : Int) :
    cores.foldl (fun kop core => kop + core.threadKop) kop =
      kop + (cores.flatMap CoreS.threadArr).length := by
  induction cores generalizing kop with
  | nil => simp
  | cons core cores ih =>
    rw [List.foldl_cons, ih, List.flatMap_cons, List.length_append, CoreS.threadKop]
    omega

/-- Reference: `get_hari_kop` (`src/cpu.c:79`). -/
theorem getHariKop_some (cpu : CpuS) (current : Int) : getHariKop (some cpu) (some current) =
    (0, some ((cpu.coreArr.flatMap CoreS.threadArr).length : Int)) := by
  rw [getHariKop, foldl_threadKop, Int.zero_add]

theorem foldl_countNext (cpus : List CpuS) (counts : Int × Int) :
    (cpus.foldl countNext counts).1 = counts.1 + (hardwareThreads cpus).length := by
  induction cpus generalizing counts with
  | nil => simp [hardwareThreads]
  | cons cpu cpus ih =>
    rw [List.foldl_cons, ih, countNext, getHariKop_some]
    simp only [Option.getD_some, hardwareThreads, List.flatMap_cons, List.length_append]
    omega

/-- The counting pass finds every thread. Reference: `__sched_thread_control_array_init`
(`src/scheduler.c:176`). -/
theorem countThreads_eq (currentThreadCount : Int) (cpus : List CpuS) :
    countThreads currentThreadCount cpus = (hardwareThreads cpus).length := by
  rw [countThreads, foldl_countNext, Int.zero_add]

variable {table : ControlTable} {threads : List Ptr} {cpus : List CpuS} {k n : Nat}

/-- The filling pass goes over the threads in order. -/
theorem ControlTable.fill_eq (table : ControlTable) (mem : Cells) (cpus : List CpuS) :
    table.fill mem cpus = ((hardwareThreads cpus).foldl table.fillNext (mem, 0)).1 := by
  simp only [ControlTable.fill, hardwareThreads, List.foldl_flatMap]

/-- Cells outside the records keep their values. -/
theorem ControlTable.fillNext_of_outside
    (hb : ∀ i, k ≤ i → i < k + threads.length → b < table.record i ∨ table.record i + 3 ≤ b) :
    (threads.foldl table.fillNext (mem, k)).1 b = mem b := by
  induction threads generalizing mem k with
  | nil => rfl
  | cons thread threads ih =>
    rw [List.length_cons] at hb
    rw [List.foldl_cons, ControlTable.fillNext,
      ih fun i hi hlt => hb i (by omega) (by omega)]
    exact controlRecordInit_of_outside (hb k (le_refl k) (by omega))

/-- The records with an index below `n` are apart. -/
def ControlTable.Apart (table : ControlTable) (n : Nat) : Prop :=
  ∀ i j, i < j → j < n → table.record i + 3 ≤ table.record j

/-- Records are apart when an element of the table holds one, or when there is only one. -/
theorem ControlTable.apart_of (h : n ≤ 1 ∨ 3 ≤ table.elemCells) : table.Apart n := by
  intro i j hij hj
  rcases h with h | h
  · omega
  · have hnext : table.elemCells * (i + 1) ≤ table.elemCells * j := Nat.mul_le_mul_left _ hij
    unfold ControlTable.record
    rw [Nat.mul_succ] at hnext
    omega

/-- Where records are apart, each one that was filled reads as it was set. -/
theorem ControlTable.load_fillNext (hapart : table.Apart (k + threads.length)) {i : Nat}
    {thread : Ptr} (hi : threads[i]? = some thread) :
    ControlRecord.load (threads.foldl table.fillNext (mem, k)).1 (table.record (k + i)) =
      ⟨thread, 0, 0, BitVec.ofInt 32 nullProcessRun⟩ := by
  induction threads generalizing mem k i with
  | nil => simp at hi
  | cons first threads ih =>
    rw [List.length_cons] at hapart
    rw [List.foldl_cons, ControlTable.fillNext]
    cases i with
    | zero =>
      obtain rfl : first = thread := by simpa using hi
      -- the later records lie behind this one
      refine Eq.trans ?_ (load_controlRecordInit mem (table.record k) first 0 0 _)
      refine ControlRecord.load_congr fun b _ hb => ?_
      refine ControlTable.fillNext_of_outside fun j hj hlt => .inl ?_
      exact Nat.lt_of_lt_of_le hb (hapart k j (by omega) (by omega))
    | succ i =>
      rw [← Nat.add_assoc, Nat.add_right_comm]
      exact ih (by rw [Nat.add_right_comm]; exact hapart) (by simpa using hi)

/-- Where records are apart, the filling pass sets one up for each thread. Reference:
`__sched_thread_control_array_init` (`src/scheduler.c:183`). -/
theorem ControlTable.load_fill (hapart : table.Apart (hardwareThreads cpus).length) {i : Nat}
    {thread : Ptr} (hi : (hardwareThreads cpus)[i]? = some thread) :
    ControlRecord.load (table.fill mem cpus) (table.record i) =
      ⟨thread, 0, 0, BitVec.ofInt 32 nullProcessRun⟩ := by
  rw [← Nat.zero_add (hardwareThreads cpus).length] at hapart
  rw [ControlTable.fill_eq, ← Nat.zero_add i]
  exact ControlTable.load_fillNext hapart hi

/-- A table whose elements have room for a record, or that has one record, keeps its records
apart. -/
theorem ControlTable.initWith_separate {elemCells : Nat} (base : Nat) (mem : Cells)
    (currentThreadCount : Int)
    (h : (hardwareThreads cpus).length ≤ 1 ∨ 3 ≤ elemCells) :
    ControlTable.Separate cpus
      (ControlTable.initWith elemCells base mem currentThreadCount cpus) := by
  have hsize := countThreads_eq currentThreadCount cpus
  have hapart : ControlTable.Apart ⟨elemCells, base, countThreads currentThreadCount cpus⟩
      (hardwareThreads cpus).length := ControlTable.apart_of h
  refine ⟨hsize, ?_, ?_⟩
  · intro i (hi : (i : Int) < countThreads currentThreadCount cpus)
    have hlt : i < (hardwareThreads cpus).length := by omega
    refine ⟨_, List.getElem?_eq_getElem hlt, ?_⟩
    exact ControlTable.load_fill hapart (List.getElem?_eq_getElem hlt)
  · intro i j (hi : (i : Int) < countThreads currentThreadCount cpus)
      (hj : (j : Int) < countThreads currentThreadCount cpus) hne mem write
    refine ControlRecord.load_store_of_apart write ?_
    rcases Nat.lt_or_gt_of_ne hne with hij | hji
    · exact .inl (hapart i j hij (by omega))
    · exact .inr (hapart j i hji (by omega))

/-- A write to one of two records that overlap shows in the other. -/
theorem ControlRecord.exists_store_ne {w : Nat} (hw : w < 3) (a : Nat) :
    ∃ (mem : Cells) (write : ControlWrite),
      ControlRecord.load (write.store mem a) (a + w) ≠ ControlRecord.load mem (a + w) := by
  refine ⟨fun _ => 0, ?_⟩
  obtain rfl | rfl | rfl : w = 0 ∨ w = 1 ∨ w = 2 := by omega
  · refine ⟨.threadS 1, fun h => ?_⟩
    simpa [ControlRecord.load, ControlWrite.store] using congrArg ControlRecord.threadS h
  · refine ⟨.currentProcess 1, fun h => ?_⟩
    simpa [ControlRecord.load, ControlWrite.store] using congrArg ControlRecord.threadS h
  · refine ⟨.currentProcessQuantum 1, fun h => ?_⟩
    simpa [ControlRecord.load, ControlWrite.store] using congrArg ControlRecord.threadS h

/-- Every hardware thread has its own record exactly when the elements of the table have room for
one, or there is at most one thread. -/
theorem ControlTable.initWith_separate_iff (elemCells base : Nat) (mem : Cells)
    (currentThreadCount : Int) (cpus : List CpuS) :
    ControlTable.Separate cpus
        (ControlTable.initWith elemCells base mem currentThreadCount cpus) ↔
      (hardwareThreads cpus).length ≤ 1 ∨ 3 ≤ elemCells := by
  refine ⟨fun h => ?_, ControlTable.initWith_separate base mem currentThreadCount⟩
  by_contra hnot
  have hsize : ((hardwareThreads cpus).length : Int) =
      (ControlTable.initWith elemCells base mem currentThreadCount cpus).1.coreControlArraySize :=
    h.size.symm
  obtain ⟨mem', write, hne⟩ := ControlRecord.exists_store_ne (w := elemCells) (by omega) base
  have hsame := h.apart 0 1 (by omega) (by omega) (by decide) mem' write
  exact hne (by simpa [ControlTable.record, ControlTable.initWith] using hsame)

/-- Every hardware thread has its own control record exactly when there is at most one of them, for
every array of CPUs. Reference: `__sched_thread_control_array_init` (`src/scheduler.c:173`),
`sched_execute` (`src/scheduler.c:26`). -/
theorem schedThreadControlArrayInit_separate_iff (base : Nat) (mem : Cells)
    (currentThreadCount : Int) (cpus : List CpuS) :
    ControlTable.Separate cpus (schedThreadControlArrayInit base mem currentThreadCount cpus) ↔
      (hardwareThreads cpus).length ≤ 1 := by
  rw [schedThreadControlArrayInit, ControlTable.initWith_separate_iff]
  omega

/-- One CPU with one core and two threads, whose pointers are 8 and 16. -/
def twoThreadCpus : List CpuS := [⟨[⟨[8, 16]⟩]⟩]

def twoThreadTable : ControlTable × Cells :=
  schedThreadControlArrayInit 0 (fun _ => 0) 0 twoThreadCpus

/-- The first of two records reads the pointer to the second thread as its current process, and its
status is 0. -/
theorem schedThreadControlArrayInit_not_separate :
    ControlRecord.load twoThreadTable.2 (twoThreadTable.1.record 0) = ⟨8, 16, 0, 0⟩ ∧
      ¬ ControlTable.Separate twoThreadCpus twoThreadTable := by
  have hload : ControlRecord.load twoThreadTable.2 (twoThreadTable.1.record 0) =
      ⟨8, 16, 0, 0⟩ := by decide
  refine ⟨hload, fun h => ?_⟩
  obtain ⟨thread, -, hset⟩ := h.record 0 (by decide)
  have hcurrent : (16 : Ptr) = 0 :=
    congrArg ControlRecord.currentProcess (hload.symm.trans hset)
  exact absurd hcurrent (by decide)

end SeKernel
