import SeKernel.Cpu.Effects
import SeKernel.Cpu.NonInterference

/-!
# Arithmetic without a result

`__ex_ALU` computes on `int32_t` registers whatever they hold. A sum, a difference or a product that
is no `int32_t` is undefined, and so are a division by zero and `INT32_MIN / -1`. `executeExact` is
`__execute` on this arithmetic: it stops where there is no result (`ArithUndefined`), and else does
what `execute` does, where sums wrap (`executeExact_eq`). One hardware thread that comes to such an
instruction takes the whole program down (`threads_no_arith_fault_iff`).
-/

namespace SeKernel

section

variable {n : Nat}

/-! ## Exact arithmetic -/

/-- A register operation of two source registers, on `int32_t`. -/
def exBinaryExact (f : Int → Int → Int) (t : Thread n) (targetReg sourceReg1 sourceReg2 : Fin 16) :
    Outcome (Thread n) := do
  let value ← asInt (f (t.R sourceReg1).toInt (t.R sourceReg2).toInt)
  return t.setR targetReg (BitVec.ofInt 32 value)

/-- Reference: `__ex_arithm_div` (`src/executor_s.c:153`). -/
def exArithmDivExact (t : Thread n) (targetReg sourceReg1 sourceReg2 : Fin 16) :
    Outcome (Thread n) :=
  if (t.R sourceReg2).toInt = 0 then
    throw .arith
  else
    exBinaryExact Int.tdiv t targetReg sourceReg1 sourceReg2

/-- Reference: `__ex_cmp` (`src/executor_s.c:173`). -/
def exCmpExact (t : Thread n) (sourceReg1 sourceReg2 : Fin 16) : Outcome (Thread n) := do
  let value ← asInt ((t.R sourceReg1).toInt - (t.R sourceReg2).toInt)
  return { t with cc := BitVec.ofInt 32 value }

/-- Reference: `__ex_ALU` (`src/executor_s.c:103`). -/
def exALUExact (t : Thread n) (plainCommand : Word) : Outcome (Thread n) :=
  let targetReg := reg plainCommand 6
  let sourceReg1 := reg plainCommand 5
  let sourceReg2 := reg plainCommand 4
  match command plainCommand with
  | some .ADD => exBinaryExact (· + ·) t targetReg sourceReg1 sourceReg2
  | some .SUB => exBinaryExact (· - ·) t targetReg sourceReg1 sourceReg2
  | some .MUL => exBinaryExact (· * ·) t targetReg sourceReg1 sourceReg2
  | some .DIV => exArithmDivExact t targetReg sourceReg1 sourceReg2
  | some .CMP => exCmpExact t sourceReg1 sourceReg2
  | _ => exALU t plainCommand

/-- The operation has no result on these operands: it divides by zero, or its result is no
`int32_t`. -/
def Op.Undefined (a b : Word) : Op → Prop
  | .ADD => ¬ IsInt (a.toInt + b.toInt)
  | .SUB | .CMP => ¬ IsInt (a.toInt - b.toInt)
  | .MUL => ¬ IsInt (a.toInt * b.toInt)
  | .DIV => b = 0 ∨ (a = BitVec.intMin 32 ∧ b = -1)
  | _ => False

instance (a b : Word) : DecidablePred (Op.Undefined a b) := fun op => by
  cases op
  all_goals
    unfold Op.Undefined
    infer_instance

/-- The instruction has no result. -/
def ArithUndefined (t : Thread n) (plainCommand : Word) : Prop :=
  ∃ op ∈ command plainCommand,
    op.Undefined (t.R (reg plainCommand 5)) (t.R (reg plainCommand 4))

instance (t : Thread n) (plainCommand : Word) : Decidable (ArithUndefined t plainCommand) :=
  Option.decidableExistsMem (command plainCommand)

variable {t : Thread n} {m : Memory} {c : Word} {op : Op}

/-- A result that is an `int32_t` is the wrapped one. -/
theorem exBinaryExact_eq {f : Int → Int → Int} {g : Word → Word → Word} {r s₁ s₂ : Fin 16}
    (hg : ∀ a b : Word, IsInt (f a.toInt b.toInt) → BitVec.ofInt 32 (f a.toInt b.toInt) = g a b) :
    exBinaryExact f t r s₁ s₂ =
      if ¬ IsInt (f (t.R s₁).toInt (t.R s₂).toInt) then .error .arith
      else .ok (exBinary g t r s₁ s₂) := by
  unfold exBinaryExact exBinary asInt
  by_cases hint : IsInt (f (t.R s₁).toInt (t.R s₂).toInt)
  · rw [if_pos hint, if_neg (not_not.2 hint), ← hg _ _ hint]
    rfl
  · rw [if_neg hint, if_pos hint]
    rfl

theorem ofInt_toInt_sub (a b : Word) : BitVec.ofInt 32 (a.toInt - b.toInt) = a - b := by
  refine BitVec.eq_of_toInt_eq ?_
  rw [BitVec.toInt_ofInt, BitVec.toInt_sub]

theorem isInt_toInt (a : Word) : IsInt a.toInt := by
  have hle := a.le_toInt
  have hlt := a.toInt_lt
  exact ⟨by simpa using hle, by simpa using hlt⟩

/-- A quotient of two `int32_t` is one, unless it is `2 ^ 31`, and it is the wrapped one. -/
theorem isInt_tdiv {a b : Word} (h : ¬ (a = BitVec.intMin 32 ∧ b = -1)) :
    IsInt (a.toInt.tdiv b.toInt) ∧ BitVec.ofInt 32 (a.toInt.tdiv b.toInt) = a.sdiv b := by
  rw [← BitVec.toInt_sdiv_of_ne_or_ne a b (not_and_or.1 h), BitVec.ofInt_toInt]
  exact ⟨isInt_toInt _, rfl⟩

/-- Reference: `__ex_arithm_div` (`src/executor_s.c:153`). -/
theorem exArithmDivExact_eq (r s₁ s₂ : Fin 16) :
    exArithmDivExact t r s₁ s₂ = exArithmDiv t r s₁ s₂ := by
  unfold exArithmDivExact exArithmDiv
  have hzero : (t.R s₂).toInt = 0 ↔ t.R s₂ = 0 := by
    rw [← BitVec.toInt_inj, show (0 : Word).toInt = 0 by decide]
  by_cases hb : t.R s₂ = 0
  · rw [if_pos (hzero.2 hb), if_pos (.inl hb)]
  rw [if_neg (mt hzero.1 hb), exBinaryExact]
  by_cases hover : t.R s₁ = BitVec.intMin 32 ∧ t.R s₂ = -1
  · rw [if_pos (.inr hover), hover.1, hover.2]
    rfl
  · obtain ⟨hint, hvalue⟩ := isInt_tdiv hover
    rw [if_neg (not_or.2 ⟨hb, hover⟩), asInt_eq_ok.2 ⟨hint, rfl⟩, Outcome.ok_bind, hvalue]
    rfl

theorem arithUndefined_iff (hop : command c = some op) :
    ArithUndefined t c ↔ op.Undefined (t.R (reg c 5)) (t.R (reg c 4)) := by
  unfold ArithUndefined
  simp only [hop, Option.mem_def, Option.some.injEq, exists_eq_left']

/-- The exact arithmetic stops where it is undefined, and else agrees with the one that wraps.
Reference: `__ex_ALU` (`src/executor_s.c:103`). -/
theorem exALUExact_eq (hop : command c = some op) :
    exALUExact t c = if op.Undefined (t.R (reg c 5)) (t.R (reg c 4)) then .error .arith
      else exALU t c := by
  unfold exALUExact exALU
  simp only [hop]
  cases op with
  | ADD =>
    refine exBinaryExact_eq fun a b _ => ?_
    rw [BitVec.ofInt_add, BitVec.ofInt_toInt, BitVec.ofInt_toInt]
  | SUB => exact exBinaryExact_eq fun a b _ => ofInt_toInt_sub a b
  | MUL =>
    refine exBinaryExact_eq fun a b _ => ?_
    rw [BitVec.ofInt_mul, BitVec.ofInt_toInt, BitVec.ofInt_toInt]
  | DIV =>
    refine (exArithmDivExact_eq _ _ _).trans ?_
    unfold exArithmDiv
    by_cases hfault : t.R (reg c 4) = 0 ∨ (t.R (reg c 5) = BitVec.intMin 32 ∧ t.R (reg c 4) = -1)
    · exact (if_pos hfault).trans (if_pos hfault).symm
    · exact (if_neg hfault).symm
  | CMP =>
    unfold exCmpExact
    by_cases hint : IsInt ((t.R (reg c 5)).toInt - (t.R (reg c 4)).toInt)
    · rw [asInt_eq_ok.2 ⟨hint, rfl⟩, Outcome.ok_bind, ofInt_toInt_sub]
      exact (if_neg (not_not.2 hint)).symm
    · rw [asInt, if_neg hint]
      exact (if_pos hint).symm
  | _ => rfl

/-! ## The arithmetic that wraps -/

/-- The instruction divides by zero, or the least `int32_t` by -1. -/
def DivisionFaults (t : Thread n) (plainCommand : Word) : Prop :=
  command plainCommand = some .DIV ∧ (t.R (reg plainCommand 4) = 0 ∨
    (t.R (reg plainCommand 5) = BitVec.intMin 32 ∧ t.R (reg plainCommand 4) = -1))

instance (t : Thread n) (plainCommand : Word) : Decidable (DivisionFaults t plainCommand) :=
  inferInstanceAs (Decidable (_ ∧ _))

/-- A faulty division has no result. -/
theorem DivisionFaults.arithUndefined (h : DivisionFaults t c) : ArithUndefined t c :=
  ⟨.DIV, h.1, h.2⟩

/-- Reference: `__ex_ALU` (`src/executor_s.c:103`). -/
theorem exALU_eq_arith_iff (hop : command c = some op) :
    exALU t c = .error .arith ↔ DivisionFaults t c := by
  unfold exALU DivisionFaults
  simp only [hop]
  cases op with
  | DIV =>
    by_cases hfault : t.R (reg c 4) = 0 ∨ (t.R (reg c 5) = BitVec.intMin 32 ∧ t.R (reg c 4) = -1)
    · exact iff_of_true (if_pos hfault) ⟨rfl, hfault⟩
    · refine iff_of_false ?_ fun h => hfault h.2
      simp only [exArithmDiv, if_neg hfault]
      intro h
      cases h
  | _ => exact iff_of_false (fun h => by cases h) fun h => by cases h.1

variable [NeZero n]

/-- A translation leaves the program through `err` or returns. Reference: `mmu_resolve`
(`src/memory_s.c:258`). -/
theorem mmuResolve_ne_arith (mmu : Mmu n) (m : Memory) (ptbr va : Word) :
    mmuResolve mmu m ptbr va ≠ .error .arith := by
  cases hmatch : tlbGetMatch mmu va with
  | some e =>
    rw [mmuResolve_of_match hmatch]
    intro h
    cases h
  | none =>
    rw [mmuResolve_of_none _ _ hmatch]
    intro h
    split at h
    all_goals cases h

/-- Reference: `__ex_MEM` (`src/executor_s.c:87`). -/
theorem exMEM_ne_arith (hop : command c = some op) : exMEM t m c ≠ .error .arith := by
  have hres := mmuResolve_ne_arith t.memManagUnit m t.PTBR (getNibbleRange c 5 0)
  unfold exMEM exLD exST
  simp only [hop]
  cases op with
  | LD | ST =>
    cases hmmu : mmuResolve t.memManagUnit m t.PTBR (getNibbleRange c 5 0) with
    | ok r =>
      intro h
      cases h
    | error e =>
      intro h
      cases h
      exact hres hmmu
  | _ =>
    intro h
    cases h

/-- Of the instructions only a faulty division has no result. Reference: `__execute`
(`src/executor_s.c:42`). -/
theorem execute_eq_arith_iff (t : Thread n) (m : Memory) (c : Word) :
    execute t m c = .error .arith ↔ DivisionFaults t c := by
  obtain ⟨op, hop⟩ := command_eq_some c
  rw [execute_eq t m hop]
  have hdiv : DivisionFaults t c → op = .DIV := by
    intro h
    exact Option.some.inj (hop.symm.trans h.1)
  cases hunit : op.unit with
  | MEM =>
    refine iff_of_false ?_ fun h => ?_
    · intro h
      cases hmem : exMEM t.incPC m c with
      | ok r =>
        simp only [hmem] at h
        cases h
      | error e =>
        simp only [hmem] at h
        cases h
        exact exMEM_ne_arith hop hmem
    · rw [hdiv h] at hunit
      cases hunit
  | ALU =>
    refine Iff.trans ?_ (exALU_eq_arith_iff (t := t.incPC) hop)
    dsimp only
    cases exALU t.incPC c with
    | ok t' => exact iff_of_false (fun h => by cases h) fun h => by cases h
    | error e => exact ⟨fun h => by cases h; rfl, fun h => by cases h; rfl⟩
  | CU =>
    refine iff_of_false (fun h => by cases h) fun h => ?_
    rw [hdiv h] at hunit
    cases hunit

theorem plainCommand_ne_arith (t : Thread n) (m : Memory) : plainCommand t m ≠ .error .arith := by
  have hres := mmuResolve_ne_arith t.memManagUnit m t.PTBR t.PC
  unfold plainCommand
  cases hmmu : mmuResolve t.memManagUnit m t.PTBR t.PC with
  | ok r =>
    intro h
    cases h
  | error e =>
    intro h
    cases h
    exact hres hmmu

/-- A step has no result exactly when it fetches a faulty division. Reference: `execute_current`
(`src/executor_s.c:35`). -/
theorem executeCurrent_eq_arith_iff (t : Thread n) (m : Memory) :
    executeCurrent t m = .error .arith ↔ ∃ c, plainCommand t m = .ok c ∧ DivisionFaults t c := by
  cases hc : plainCommand t m with
  | error e =>
    rw [executeCurrent_error hc]
    refine iff_of_false ?_ (by simp)
    intro h
    cases h
    exact plainCommand_ne_arith t m hc
  | ok c =>
    obtain ⟨mmu, heq⟩ := executeCurrent_eq hc
    rw [heq, execute_eq_arith_iff]
    simp only [Except.ok.injEq, exists_eq_left']
    exact Iff.rfl

/-! ## Instructions on exact arithmetic -/

/-- Reference: `__execute` (`src/executor_s.c:42`). -/
def executeExact (t : Thread n) (memory : Memory) (plainCommand : Word) :
    Outcome (Int × Thread n × Memory) :=
  match command plainCommand with
  | some .ADD | some .SUB | some .MUL | some .DIV | some .AND | some .OR | some .XOR | some .MOV
  | some .CMP => do
    let t ← exALUExact t.incPC plainCommand
    return (0, t, memory)
  | _ => execute t memory plainCommand

/-- Reference: `execute_current` (`src/executor_s.c:35`). -/
def executeCurrentExact (t : Thread n) (memory : Memory) : Outcome (Int × Thread n × Memory) := do
  let (plainCommandAddress, mmu) ← mmuResolve t.memManagUnit memory t.PTBR t.PC
  let plainCommand := pmReadWord memory plainCommandAddress
  executeExact { t with memManagUnit := mmu, IR := plainCommand } memory plainCommand

/-- On exact arithmetic an instruction without a result stops the program, and every other one does
what it does on arithmetic that wraps. Reference: `__execute` (`src/executor_s.c:42`). -/
theorem executeExact_eq (t : Thread n) (m : Memory) (c : Word) :
    executeExact t m c = if ArithUndefined t c then .error .arith else execute t m c := by
  obtain ⟨op, hop⟩ := command_eq_some c
  by_cases h : op.Undefined (t.R (reg c 5)) (t.R (reg c 4))
  · have halu : exALUExact t.incPC c = .error .arith := (exALUExact_eq hop).trans (if_pos h)
    rw [if_pos ((arithUndefined_iff hop).2 h)]
    unfold executeExact
    simp only [hop]
    cases op with
    | LD | ST | B | BEQ | BGT | BLT | EXIT => exact h.elim
    | ADD | SUB | MUL | DIV | AND | OR | XOR | MOV | CMP => rw [halu, Outcome.error_bind]
  · have halu : exALUExact t.incPC c = exALU t.incPC c := (exALUExact_eq hop).trans (if_neg h)
    rw [if_neg (mt (arithUndefined_iff hop).1 h)]
    unfold executeExact execute
    simp only [hop]
    cases op with
    | LD | ST | B | BEQ | BGT | BLT | EXIT => rfl
    | ADD | SUB | MUL | DIV | AND | OR | XOR | MOV | CMP => rw [halu]

/-- Reference: `__execute` (`src/executor_s.c:42`). -/
theorem executeExact_eq_arith_iff (t : Thread n) (m : Memory) (c : Word) :
    executeExact t m c = .error .arith ↔ ArithUndefined t c := by
  rw [executeExact_eq]
  by_cases h : ArithUndefined t c
  · exact iff_of_true (if_pos h) h
  · rw [if_neg h, execute_eq_arith_iff]
    exact iff_of_false (fun hdiv => h hdiv.arithUndefined) h

/-- The next instruction has no result. -/
def NextUndefined (t : Thread n) (m : Memory) : Prop :=
  ∃ c, plainCommand t m = .ok c ∧ ArithUndefined t c

/-- A step on exact arithmetic: it stops at an instruction without a result, and every other step is
the one on arithmetic that wraps. Reference: `execute_current` (`src/executor_s.c:35`). -/
theorem executeCurrentExact_spec (t : Thread n) (m : Memory) :
    (executeCurrentExact t m = .error .arith ↔ NextUndefined t m) ∧
      (¬ NextUndefined t m → executeCurrentExact t m = executeCurrent t m) := by
  unfold NextUndefined plainCommand executeCurrentExact executeCurrent
  cases hres : mmuResolve t.memManagUnit m t.PTBR t.PC with
  | error e =>
    refine ⟨iff_of_false ?_ ?_, fun _ => rfl⟩
    · intro h
      cases h
      exact mmuResolve_ne_arith _ _ _ _ hres
    · rintro ⟨c, hc, -⟩
      cases hc
  | ok r =>
    have hnext : (∃ c, (Except.ok (pmReadWord m r.1) : Outcome Word) = .ok c ∧ ArithUndefined t c) ↔
        ArithUndefined t (pmReadWord m r.1) := by
      simp only [Except.ok.injEq, exists_eq_left']
    refine ⟨(executeExact_eq_arith_iff _ _ _).trans hnext.symm, fun h => ?_⟩
    exact (executeExact_eq _ _ _).trans (if_neg (mt hnext.2 h))

end

/-! ## Threads -/

variable {ι : Type} [DecidableEq ι] {n : ι → Nat} [∀ x, NeZero (n x)]

/-- Thread `x` takes one instruction on exact arithmetic. Reference: `execute_all`
(`src/executor_s.c:22`). -/
def Threads.stepExact (x : ι) (s : Threads n) : Outcome (Int × Threads n) := do
  let (ret, t, memory) ← executeCurrentExact (s.thread x) s.memory
  return (ret, ⟨Function.update s.thread x t, memory⟩)

/-- Thread `x` comes to an instruction without a result. -/
def Threads.Undefined (x : ι) (s : Threads n) : Prop := NextUndefined (s.thread x) s.memory

/-- Thread `x` comes to a faulty division. -/
def Threads.DivisionFaults (x : ι) (s : Threads n) : Prop :=
  ∃ c, plainCommand (s.thread x) s.memory = .ok c ∧ SeKernel.DivisionFaults (s.thread x) c

theorem Threads.step_eq_arith_iff (x : ι) (s : Threads n) :
    Threads.step x s = .error .arith ↔ s.DivisionFaults x := by
  refine Iff.trans ?_ (executeCurrent_eq_arith_iff (s.thread x) s.memory)
  unfold Threads.step
  cases executeCurrent (s.thread x) s.memory with
  | ok r => exact iff_of_false (fun h => by cases h) fun h => by cases h
  | error e => exact ⟨fun h => by cases h; rfl, fun h => by cases h; rfl⟩

theorem Threads.stepExact_eq_arith_iff (x : ι) (s : Threads n) :
    Threads.stepExact x s = .error .arith ↔ s.Undefined x := by
  refine Iff.trans ?_ (executeCurrentExact_spec (s.thread x) s.memory).1
  unfold Threads.stepExact
  cases executeCurrentExact (s.thread x) s.memory with
  | ok r => exact iff_of_false (fun h => by cases h) fun h => by cases h
  | error e => exact ⟨fun h => by cases h; rfl, fun h => by cases h; rfl⟩

theorem Threads.stepExact_eq {x : ι} {s : Threads n} (h : ¬ s.Undefined x) :
    Threads.stepExact x s = Threads.step x s := by
  unfold Threads.stepExact Threads.step
  rw [(executeCurrentExact_spec (s.thread x) s.memory).2 h]

/-- A run of the hardware threads, in any order, from any registers and any program, never comes to
an instruction without a result exactly when none of its steps fetches one: an addition, a
subtraction, a product or a comparison whose result is no `int32_t`, or a division by zero or of
`INT32_MIN` by -1. Such a run is the run on arithmetic that wraps; there only the divisions are
without a result. Reference: `__ex_ALU` (`src/executor_s.c:103`). -/
theorem threads_no_arith_fault_iff (s : Threads n) (xs : List ι) :
    (Machine.run Threads.stepExact xs s ≠ .error .arith ↔
      Machine.Meets Threads.stepExact (fun x s => ¬ s.Undefined x) xs s) ∧
    (Machine.Meets Threads.stepExact (fun x s => ¬ s.Undefined x) xs s →
      Machine.run Threads.stepExact xs s = Machine.run Threads.step xs s) ∧
    (Machine.run Threads.step xs s ≠ .error .arith ↔
      Machine.Meets Threads.step (fun x s => ¬ s.DivisionFaults x) xs s) :=
  ⟨Machine.run_ne_error_iff Threads.stepExact_eq_arith_iff xs s,
    Machine.run_eq_of_meets fun _ _ => Threads.stepExact_eq,
    Machine.run_ne_error_iff Threads.step_eq_arith_iff xs s⟩

/-- Two threads, the first one about to take the instruction `c` on 7 and `b`. -/
def computing (c b : Word) : Threads (fun _ : Bool => 1) where
  thread x := ⟨0, 0, twoPgb x, fun r => if r.val = 0 then 7 else b, 0, tlbFlush 1⟩
  memory := pmWriteWord twoTables 0x400000 c

/-- A division by 2. -/
theorem threads_no_arith_fault_iff_two :
    Machine.run Threads.stepExact [false, true] (computing 0x52010000 2) ≠ .error .arith ∧
      Machine.run Threads.stepExact [false, true] (computing 0x52010000 2) =
        Machine.run Threads.step [false, true] (computing 0x52010000 2) := by
  have hmeets : Machine.Meets Threads.stepExact (fun x s => ¬ s.Undefined x) [false, true]
      (computing 0x52010000 2) := by
    refine .cons ?_ rfl <| .cons ?_ rfl trivial
    all_goals
      intro h
      obtain ⟨c, hc, hundefined⟩ := h
      cases hc
      revert hundefined
      decide
  have hruns := threads_no_arith_fault_iff (computing 0x52010000 2) [false, true]
  exact ⟨hruns.1.2 hmeets, hruns.2.1 hmeets⟩

/-- A division by zero stops the program, with the thread that could go on, and so does the sum
`7 + INT32_MAX`. -/
theorem threads_division_stops :
    Machine.run Threads.step [false, true] (computing 0x52010000 0) = .error .arith ∧
      Machine.run Threads.stepExact [false, true] (computing 0x52010000 0) = .error .arith ∧
      Machine.run Threads.stepExact [false, true] (computing 0x22010000 0x7FFFFFFF) =
        .error .arith ∧
      ∃ rets s, Machine.run Threads.stepExact [true] (computing 0x52010000 0) = .ok (rets, s) :=
  ⟨rfl, rfl, rfl, _, _, rfl⟩

end SeKernel
