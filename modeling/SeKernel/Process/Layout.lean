import SeKernel.Process.Pcb

/-!
# The words of a PCB

`__load_file` hands `cpu_snapshot_init` a pointer to the `status` of a PCB where a pointer to its
`cpu_snapshot` belongs. The fields of a PCB are consecutive 32-bit words in the order of their
declaration, so what the function writes is a question of word offsets.
-/

namespace SeKernel

/-- The word offset of `status` in a PCB. -/
def statusOffset : Nat := 2

/-- Write word `k` of a PCB. Reference: `struct pcb_t` (`headers/pcb_s.h:25`). -/
def Pcb.setWord (pcb : Pcb) (k : Nat) (w : Word) : Pcb :=
  match k with
  | 0 => { pcb with pid := w.toInt }
  | 1 => { pcb with currentPriority := w.toInt }
  | 2 => { pcb with status := w.toInt }
  | 3 => { pcb with memoryMap := { pcb.memoryMap with data := w } }
  | 4 => { pcb with memoryMap := { pcb.memoryMap with code := w } }
  | 5 => { pcb with memoryMap := { pcb.memoryMap with pgb := w } }
  | 6 => { pcb with cpuSnapshot := { pcb.cpuSnapshot with PC := w } }
  | 7 => { pcb with cpuSnapshot := { pcb.cpuSnapshot with IR := w } }
  | k + 8 =>
    if h : k < cpuRegisters then
      { pcb with cpuSnapshot := { pcb.cpuSnapshot with
        R := Function.update pcb.cpuSnapshot.R ⟨k, h⟩ w } }
    else
      { pcb with cpuSnapshot := { pcb.cpuSnapshot with cc := w } }

/-- `snapshot` is the word offset in the PCB that the pointer leads to; in a `struct cpu_snapshot`
the registers start at word 2, and `cc` is word 18. Reference: `cpu_snapshot_init`
(`src/pcb_s.c:21`). -/
def cpuSnapshotInit (pcb : Pcb) (snapshot : Nat) (PC : Word) : Pcb :=
  let pcb := pcb.setWord snapshot PC
  let pcb := pcb.setWord (snapshot + 1) 0
  let pcb := pcb.setWord (snapshot + 18) 0
  (List.range cpuRegisters).foldl (fun pcb i => pcb.setWord (snapshot + 2 + i) 0) pcb

/-- Clearing words of the register file. -/
theorem Pcb.foldl_setWord_registers (pcb : Pcb) {is : List Nat} (his : ∀ i ∈ is, i < cpuRegisters) :
    is.foldl (fun pcb i => pcb.setWord (i + 8) 0) pcb =
      { pcb with cpuSnapshot := { pcb.cpuSnapshot with
        R := fun j => if j.val ∈ is then 0 else pcb.cpuSnapshot.R j } } := by
  induction is generalizing pcb with
  | nil => simp
  | cons i is ih =>
    have hi : i < cpuRegisters := his i (by simp)
    have hset : pcb.setWord (i + 8) 0 = { pcb with cpuSnapshot := { pcb.cpuSnapshot with
        R := Function.update pcb.cpuSnapshot.R ⟨i, hi⟩ 0 } } := dif_pos hi
    rw [List.foldl_cons, hset, ih _ fun j hj => his j (by simp [hj])]
    have hR : (fun j : Fin cpuRegisters => if j.val ∈ is then (0 : Word) else
        Function.update pcb.cpuSnapshot.R ⟨i, hi⟩ 0 j) =
        fun j => if j.val ∈ i :: is then 0 else pcb.cpuSnapshot.R j := by
      funext j
      by_cases hj : j.val = i
      · have hj' : j = ⟨i, hi⟩ := Fin.ext hj
        simp [hj']
      · have hj' : j ≠ ⟨i, hi⟩ := fun h => hj (congrArg Fin.val h)
        simp [hj, Function.update_of_ne hj']
    simp only [hR]

/-- At the offset of `status` the function clears the memory map and the snapshot up to `R[12]`; the
program counter goes to `status`. -/
theorem cpuSnapshotInit_statusOffset (pcb : Pcb) (PC : Word) :
    cpuSnapshotInit pcb statusOffset PC =
      { pcb with
        status := PC.toInt
        memoryMap := ⟨0, 0, 0⟩
        cpuSnapshot := ⟨0, 0, fun i => if i.val < 13 then 0 else pcb.cpuSnapshot.R i,
          pcb.cpuSnapshot.cc⟩ } := by
  -- word 18 of the snapshot that the function sees is `R[12]`, its `R[4]` to `R[15]` are `R[0]` on
  have hloop : cpuSnapshotInit pcb statusOffset PC =
      (List.range 12).foldl (fun pcb i => pcb.setWord (i + 8) 0)
        { pcb with
          status := PC.toInt
          memoryMap := ⟨0, 0, 0⟩
          cpuSnapshot :=
            ⟨0, 0, Function.update pcb.cpuSnapshot.R ⟨12, by decide⟩ 0, pcb.cpuSnapshot.cc⟩ } := by
    have hrange : List.range cpuRegisters = [0, 1, 2, 3] ++ (List.range 12).map (· + 4) := rfl
    have hoffset : ∀ i, statusOffset + 2 + (i + 4) = i + 8 := fun i => Nat.add_comm 4 (i + 4)
    simp only [cpuSnapshotInit, hrange, List.foldl_append, List.foldl_map, hoffset]
    rfl
  have hR : (fun j : Fin cpuRegisters => if j.val ∈ List.range 12 then (0 : Word) else
      Function.update pcb.cpuSnapshot.R ⟨12, by decide⟩ 0 j) =
      fun i => if i.val < 13 then 0 else pcb.cpuSnapshot.R i := by
    funext j
    by_cases hj : j = ⟨12, by decide⟩
    · subst hj
      rfl
    · have hne : j.val ≠ 12 := fun h => hj (Fin.ext h)
      have hlt : j.val < 13 ↔ j.val < 12 := by omega
      simp [hlt, Function.update_of_ne hj]
  rw [hloop, Pcb.foldl_setWord_registers _ fun i hi => by
    exact Nat.lt_trans (List.mem_range.1 hi) (by decide)]
  simp only [hR]

end SeKernel
