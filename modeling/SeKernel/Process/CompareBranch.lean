import SeKernel.Cpu.Effects
import SeKernel.Lib.Machine
import SeKernel.Process.Pcb

/-!
# Compare and branch

`OP_CMP` leaves the difference of its two registers, modulo 2^32, in the condition code, and the
conditional branches look at the sign of it. No other instruction and no context switch changes the
condition code (`ContextCmd.exec_cc`), so a branch decides the signed order of the registers
compared exactly when their difference does not overflow (`cmp_branch_iff`).
-/

namespace SeKernel

/-! ## The sign of a difference -/

/-- The operation is a conditional branch. -/
def Op.conditional : Op → Bool
  | .BEQ | .BGT | .BLT => true
  | _ => false

/-- What a conditional branch is meant to ask of the registers compared, as `int32_t`. -/
def Op.Decides (a b : Word) : Op → Prop
  | .BEQ => a = b
  | .BGT => a.toInt > b.toInt
  | .BLT => a.toInt < b.toInt
  | _ => False

instance (a b : Word) : (op : Op) → Decidable (op.Decides a b)
  | .BEQ => inferInstanceAs (Decidable (a = b))
  | .BGT => inferInstanceAs (Decidable (a.toInt > b.toInt))
  | .BLT => inferInstanceAs (Decidable (a.toInt < b.toInt))
  | .LD | .ST | .ADD | .SUB | .MUL | .DIV | .AND | .OR | .XOR | .MOV | .CMP | .B | .EXIT =>
      isFalse id

/-- The difference is an `int32_t`. -/
def DifferenceFits (a b : Word) : Prop := -2 ^ 31 ≤ a.toInt - b.toInt ∧ a.toInt - b.toInt < 2 ^ 31

instance (a b : Word) : Decidable (DifferenceFits a b) := inferInstanceAs (Decidable (_ ∧ _))

theorem toInt_bounds (a : Word) : -2 ^ 31 ≤ a.toInt ∧ a.toInt < 2 ^ 31 :=
  ⟨BitVec.le_toInt a, BitVec.toInt_lt⟩

/-- The difference modulo 2^32: the difference, or one turn away from it. -/
theorem toInt_sub_cases (a b : Word) :
    (DifferenceFits a b ∧ (a - b).toInt = a.toInt - b.toInt) ∨
    (2 ^ 31 ≤ a.toInt - b.toInt ∧ (a - b).toInt = a.toInt - b.toInt - 2 ^ 32) ∨
    (a.toInt - b.toInt < -2 ^ 31 ∧ (a - b).toInt = a.toInt - b.toInt + 2 ^ 32) := by
  have ha := toInt_bounds a
  have hb := toInt_bounds b
  unfold DifferenceFits
  rw [BitVec.toInt_sub, Int.bmod_def]
  split <;> omega

/-- The sign of the difference answers a branch rightly when the difference fits, and `OP_BEQ`
always. -/
theorem jumps_sub_iff (a b : Word) {op : Op} (hop : op.conditional) :
    (op.Jumps (a - b) ↔ op.Decides a b) ↔ op = .BEQ ∨ DifferenceFits a b := by
  have ha := toInt_bounds a
  have hb := toInt_bounds b
  have hsub := toInt_sub_cases a b
  unfold DifferenceFits at hsub ⊢
  cases op with
  | BEQ =>
    refine iff_of_true ?_ (.inl rfl)
    simp only [Op.Jumps, Op.Decides]
    bv_omega
  | BGT =>
    simp only [Op.Jumps, Op.Decides, reduceCtorEq, false_or]
    omega
  | BLT =>
    simp only [Op.Jumps, Op.Decides, reduceCtorEq, false_or]
    omega
  | _ => cases hop

/-! ## What happens between the two instructions -/

variable {n : Nat} [NeZero n]

/-- A step of the process: an instruction, a way off the hardware thread into its PCB and onto a
hardware thread again, or what other threads do to the memory. -/
inductive ContextCmd (n : Nat)
  | instruction
  | reload (pcb : Pcb) (thread : Thread n)
  | others (memory : Memory)

/-- One step of the process. Reference: `execute_current` (`src/executor_s.c:35`), `__disp_unload`
(`src/scheduler.c:163`), `__disp_load` (`src/scheduler.c:152`). -/
def ContextCmd.exec : ContextCmd n → Thread n × Memory → Outcome (Int × Thread n × Memory)
  | .instruction, (t, m) => executeCurrent t m
  | .reload pcb thread, (t, m) => return (0, (dispLoad thread (dispUnload t pcb)).1, m)
  | .others memory, (t, _) => return (0, t, memory)

/-- The step does not execute an `OP_CMP`. -/
def ContextCmd.NotCmp (cmd : ContextCmd n) (s : Thread n × Memory) : Prop :=
  cmd = .instruction → ∀ c, plainCommand s.1 s.2 = .ok c → command c ≠ some .CMP

theorem ContextCmd.notCmp_reload (pcb : Pcb) (thread : Thread n) (s : Thread n × Memory) :
    (ContextCmd.reload pcb thread).NotCmp s := by
  intro h
  cases h

theorem ContextCmd.notCmp_instruction {s : Thread n × Memory} {c : Word}
    (hc : plainCommand s.1 s.2 = .ok c) (hop : command c ≠ some .CMP) :
    ContextCmd.instruction.NotCmp s := by
  intro _ c' hc'
  rw [hc] at hc'
  cases hc'
  exact hop

/-- A step by its effects. -/
theorem executeCurrent_effects {t t' : Thread n} {m m' : Memory} {ret : Int} {c : Word}
    (hc : plainCommand t m = .ok c) (h : executeCurrent t m = .ok (ret, t', m')) :
    ∃ op mmu, command c = some op ∧
      Effects { t with memManagUnit := mmu, IR := c } ⟨m, []⟩ c op ret t' ⟨m', []⟩ := by
  obtain ⟨mmu, heq⟩ := executeCurrent_eq hc
  rw [heq] at h
  have hps : executePs { t with memManagUnit := mmu, IR := c } ⟨m, []⟩ c =
      .ok (ret, t', ⟨m', []⟩) := by
    unfold executePs
    rw [h]
    rfl
  obtain ⟨op, hop, heff⟩ := execute_effects hps
  exact ⟨op, mmu, hop, heff⟩

/-- Only `OP_CMP` changes the condition code; a switch brings it back. -/
theorem ContextCmd.exec_cc {cmd : ContextCmd n} {s s' : Thread n × Memory} {ret : Int}
    (hcmp : cmd.NotCmp s) (h : cmd.exec s = .ok (ret, s')) : s'.1.cc = s.1.cc := by
  obtain ⟨t, m⟩ := s
  cases cmd with
  | reload pcb thread =>
    cases h
    rfl
  | others memory =>
    cases h
    rfl
  | instruction =>
    obtain ⟨t', m'⟩ := s'
    cases hc : plainCommand t m with
    | error e =>
      rw [ContextCmd.exec, executeCurrent_error hc] at h
      cases h
    | ok c =>
      obtain ⟨op, mmu, hop, heff⟩ := executeCurrent_effects hc h
      by_contra hcc
      exact hcmp rfl c hc (heff.cc hcc ▸ hop)

/-- After a comparison and any steps that are not comparisons, a conditional branch goes to its
address exactly when the registers compared are in the order it asks for, if and only if their
difference fits, or the branch is `OP_BEQ`, or both ways lead to the same place. Reference:
`__ex_cmp` (`src/executor_s.c:173`), `__ex_beq` (`src/executor_s.c:205`), `__ex_bgt`
(`src/executor_s.c:211`), `__ex_blt` (`src/executor_s.c:217`). -/
theorem cmp_branch_iff {t₀ t₁ t₂ t₃ : Thread n} {m₀ m₁ m₂ m₃ : Memory} {ret₁ ret₃ : Int}
    {c₀ c : Word} {op : Op} {cmds : List (ContextCmd n)} {os : List Int}
    (hc₀ : plainCommand t₀ m₀ = .ok c₀) (hcmp : command c₀ = some .CMP)
    (h₁ : executeCurrent t₀ m₀ = .ok (ret₁, t₁, m₁))
    (hmeets : Machine.Meets ContextCmd.exec ContextCmd.NotCmp cmds (t₁, m₁))
    (hrun : Machine.run ContextCmd.exec cmds (t₁, m₁) = .ok (os, t₂, m₂))
    (hc : plainCommand t₂ m₂ = .ok c) (hop : command c = some op) (hcond : op.conditional)
    (h₃ : executeCurrent t₂ m₂ = .ok (ret₃, t₃, m₃)) :
    (t₃.PC = if op.Decides (t₀.R (reg c₀ 5)) (t₀.R (reg c₀ 4)) then addressField c
      else t₂.PC + pcIncrement) ↔
    op = .BEQ ∨ DifferenceFits (t₀.R (reg c₀ 5)) (t₀.R (reg c₀ 4)) ∨
      addressField c = t₂.PC + pcIncrement := by
  have hcc₁ : t₁.cc = t₀.R (reg c₀ 5) - t₀.R (reg c₀ 4) := by
    obtain ⟨mmu, heq⟩ := executeCurrent_eq hc₀
    rw [heq, execute_cmp _ _ hcmp] at h₁
    cases h₁
    rfl
  have hcc₂ : t₂.cc = t₁.cc := Machine.run_invariant_of_meets
    (fun cmd s o s' (hs : s.1.cc = t₁.cc) hnot hexec => (ContextCmd.exec_cc hnot hexec).trans hs)
    rfl hmeets hrun
  obtain ⟨op', mmu, hop', heff⟩ := executeCurrent_effects hc h₃
  cases hop.symm.trans hop'
  have hPC : t₃.PC = if op.Jumps (t₀.R (reg c₀ 5) - t₀.R (reg c₀ 4)) then addressField c
      else t₂.PC + pcIncrement := by
    rw [← hcc₁, ← hcc₂]
    exact heff.PC
  rw [hPC, ← or_assoc, ← jumps_sub_iff _ _ hcond]
  -- two choices between the same places agree when the conditions do, or when the places do
  by_cases hJ : op.Jumps (t₀.R (reg c₀ 5) - t₀.R (reg c₀ 4))
  · by_cases hD : op.Decides (t₀.R (reg c₀ 5)) (t₀.R (reg c₀ 4)) <;> simp [hJ, hD]
  · by_cases hD : op.Decides (t₀.R (reg c₀ 5)) (t₀.R (reg c₀ 4)) <;> simp [hJ, hD, eq_comm]

/-! ## A program of three instructions -/

/-- A page table of one page, on which `R0` is compared with `R1`, `R2` becomes their sum, and
`OP_BGT` goes to `0x40`. -/
def compareProgram : Memory :=
  [(0x0, 1), (0x4, 0x400000), (0x400000, 0xA0010000), (0x400004, 0x22010000),
    (0x400008, 0xD0000040)].foldl (fun m (a, w) => pmWriteWord m a w) fun _ => 0

/-- A thread before the comparison of `a` and `b`. -/
def compareThread (a b : Word) : Thread 1 :=
  ⟨0, 0, 0, fun r => if r.val = 0 then a else b, 0, tlbFlush 1⟩

/-- A switch off the thread and back, and an instruction. -/
def switchAndAdd : List (ContextCmd 1) :=
  [.reload ⟨1, 0, prExec, ⟨0, 0, 0⟩, ⟨0, 0, fun _ => 0, 0⟩⟩ (compareThread 0 0), .instruction]

/-- 5 and 3 are compared, the process is taken off its thread and put back, adds, and branches. -/
theorem cmp_branch_iff_greater : ∃ t₁ os t₂ t₃ m₁ m₂ m₃,
    executeCurrent (compareThread 5 3) compareProgram = .ok (0, t₁, m₁) ∧
    Machine.run ContextCmd.exec switchAndAdd (t₁, m₁) = .ok (os, t₂, m₂) ∧
    executeCurrent t₂ m₂ = .ok (0, t₃, m₃) ∧ t₃.PC = 0x40 := by
  have hfetch : plainCommand (compareThread 5 3) compareProgram = .ok 0xA0010000 := rfl
  have hmeets (t₁ : Thread 1) (m₁ : Memory)
      (h : executeCurrent (compareThread 5 3) compareProgram = .ok (0, t₁, m₁)) :
      Machine.Meets ContextCmd.exec ContextCmd.NotCmp switchAndAdd (t₁, m₁) := by
    cases h
    exact .cons (ContextCmd.notCmp_reload _ _ _) rfl <|
      .cons (ContextCmd.notCmp_instruction rfl (by decide)) rfl trivial
  refine ⟨_, _, _, _, _, _, _, rfl, rfl, rfl, ?_⟩
  refine (cmp_branch_iff hfetch rfl rfl (hmeets _ _ rfl) rfl
    (show plainCommand _ _ = .ok 0xD0000040 from rfl) rfl rfl rfl).2 (.inr (.inl ?_))
  decide

/-- `INT32_MIN` is less than 1, and `OP_BGT` takes the branch. -/
theorem cmp_branch_wrong : ∃ t₁ os t₂ t₃ m₁ m₂ m₃,
    executeCurrent (compareThread 0x80000000 1) compareProgram = .ok (0, t₁, m₁) ∧
    Machine.Meets ContextCmd.exec ContextCmd.NotCmp [.instruction] (t₁, m₁) ∧
    Machine.run ContextCmd.exec [.instruction] (t₁, m₁) = .ok (os, t₂, m₂) ∧
    plainCommand t₂ m₂ = .ok 0xD0000040 ∧ executeCurrent t₂ m₂ = .ok (0, t₃, m₃) ∧
    ¬ Op.Decides 0x80000000 1 .BGT ∧ t₃.PC = 0x40 ∧ t₃.PC ≠ t₂.PC + pcIncrement := by
  exact ⟨_, _, _, _, _, _, _, rfl,
    .cons (ContextCmd.notCmp_instruction rfl (by decide)) rfl trivial, rfl, rfl, rfl,
    by decide, by decide, by decide⟩

end SeKernel
