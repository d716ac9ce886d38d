import SeKernel.Memory.Mmu

/-!
# The executor

`src/executor_s.c`: one hardware thread takes one instruction. Registers are 32-bit words; `int32_t`
arithmetic wraps, and a division without a result stops the program. The memory is shared by all
threads, so it is an argument.
-/

namespace SeKernel

/-- Reference: `CPU_REGISTERS` (`headers/cpu_data_s.h:11`). -/
abbrev cpuRegisters : Nat := 16

/-- Reference: `struct thread_s` (`headers/cpu_data_s.h:25`). -/
structure Thread (n : Nat) where
  PC : Word
  IR : Word
  PTBR : Word
  R : Fin cpuRegisters → Word
  cc : Word
  memManagUnit : Mmu n

/-- Reference: the `OP_` constants (`headers/executor.h:7`), in order. -/
inductive Op
  | LD | ST | ADD | SUB | MUL | DIV | AND | OR | XOR | MOV | CMP | B | BEQ | BGT | BLT | EXIT
  deriving DecidableEq, Repr

/-- The operation with a code; other codes have none. -/
def Op.ofCode : Nat → Option Op
  | 0 => some .LD
  | 1 => some .ST
  | 2 => some .ADD
  | 3 => some .SUB
  | 4 => some .MUL
  | 5 => some .DIV
  | 6 => some .AND
  | 7 => some .OR
  | 8 => some .XOR
  | 9 => some .MOV
  | 10 => some .CMP
  | 11 => some .B
  | 12 => some .BEQ
  | 13 => some .BGT
  | 14 => some .BLT
  | 15 => some .EXIT
  | _ => none

/-- Reference: `PC_INCREMENT` (`src/executor_s.c:1`). -/
def pcIncrement : Word := 4

/-- Reference: `get_nibble_range` (`src/executor_s.c:6`). -/
def getNibbleRange (item : Word) (leftmostNibble rightmostNibble : Nat) : Word :=
  (item >>> (rightmostNibble * 4)) &&&
    (((1 : Word) <<< ((leftmostNibble - rightmostNibble + 1) * 4)) - 1)

/-- The operation of an instruction word, its leftmost nibble. -/
def command (plainCommand : Word) : Option Op := Op.ofCode (getNibbleRange plainCommand 7 7).toNat

/-- The register that a nibble of an instruction word names. -/
def reg (plainCommand : Word) (nibble : Nat) : Fin cpuRegisters :=
  Fin.ofNat cpuRegisters (getNibbleRange plainCommand nibble nibble).toNat

section

variable {n : Nat}

/-- `cpu_context->R[reg] = word`. -/
def Thread.setR (t : Thread n) (reg : Fin cpuRegisters) (word : Word) : Thread n :=
  { t with R := Function.update t.R reg word }

/-! ## Arithmetic and logic -/

/-- A register operation of two source registers. -/
def exBinary (f : Word → Word → Word) (t : Thread n) (targetReg sourceReg1 sourceReg2 : Fin 16) :
    Thread n :=
  t.setR targetReg (f (t.R sourceReg1) (t.R sourceReg2))

/-- Reference: `__ex_arithm_add` (`src/executor_s.c:141`). -/
def exArithmAdd (t : Thread n) : Fin 16 → Fin 16 → Fin 16 → Thread n := exBinary (· + ·) t

/-- Reference: `__ex_arithm_sub` (`src/executor_s.c:145`). -/
def exArithmSub (t : Thread n) : Fin 16 → Fin 16 → Fin 16 → Thread n := exBinary (· - ·) t

/-- Reference: `__ex_arithm_mul` (`src/executor_s.c:149`). -/
def exArithmMul (t : Thread n) : Fin 16 → Fin 16 → Fin 16 → Thread n := exBinary (· * ·) t

/-- Reference: `__ex_arithm_div` (`src/executor_s.c:153`). A division by zero and `INT32_MIN / -1`
have no result. -/
def exArithmDiv (t : Thread n) (targetReg sourceReg1 sourceReg2 : Fin 16) : Outcome (Thread n) :=
  if t.R sourceReg2 = 0 ∨ (t.R sourceReg1 = BitVec.intMin 32 ∧ t.R sourceReg2 = -1) then
    throw .arith
  else
    return exBinary BitVec.sdiv t targetReg sourceReg1 sourceReg2

/-- Reference: `__ex_logic_and` (`src/executor_s.c:157`). -/
def exLogicAnd (t : Thread n) : Fin 16 → Fin 16 → Fin 16 → Thread n := exBinary (· &&& ·) t

/-- Reference: `__ex_logic_or` (`src/executor_s.c:161`). -/
def exLogicOr (t : Thread n) : Fin 16 → Fin 16 → Fin 16 → Thread n := exBinary (· ||| ·) t

/-- Reference: `__ex_logic_xor` (`src/executor_s.c:165`). -/
def exLogicXor (t : Thread n) : Fin 16 → Fin 16 → Fin 16 → Thread n := exBinary (· ^^^ ·) t

/-- Reference: `__ex_mov` (`src/executor_s.c:169`). -/
def exMov (t : Thread n) (targetReg sourceReg1 : Fin 16) : Thread n :=
  t.setR targetReg (t.R sourceReg1)

/-- Reference: `__ex_cmp` (`src/executor_s.c:173`). -/
def exCmp (t : Thread n) (sourceReg1 sourceReg2 : Fin 16) : Thread n :=
  { t with cc := t.R sourceReg1 - t.R sourceReg2 }

/-- Reference: `__ex_ALU` (`src/executor_s.c:103`). -/
def exALU (t : Thread n) (plainCommand : Word) : Outcome (Thread n) :=
  let targetReg := reg plainCommand 6
  let sourceReg1 := reg plainCommand 5
  let sourceReg2 := reg plainCommand 4
  match command plainCommand with
  | some .ADD => return exArithmAdd t targetReg sourceReg1 sourceReg2
  | some .SUB => return exArithmSub t targetReg sourceReg1 sourceReg2
  | some .MUL => return exArithmMul t targetReg sourceReg1 sourceReg2
  | some .DIV => exArithmDiv t targetReg sourceReg1 sourceReg2
  | some .AND => return exLogicAnd t targetReg sourceReg1 sourceReg2
  | some .OR => return exLogicOr t targetReg sourceReg1 sourceReg2
  | some .XOR => return exLogicXor t targetReg sourceReg1 sourceReg2
  | some .MOV => return exMov t targetReg sourceReg1
  | some .CMP => return exCmp t sourceReg1 sourceReg2
  | _ => return t

/-! ## Branches -/

/-- Reference: `__ex_b` (`src/executor_s.c:201`). -/
def exB (t : Thread n) (address : Word) : Thread n := { t with PC := address }

/-- Reference: `__ex_beq` (`src/executor_s.c:205`). -/
def exBeq (t : Thread n) (address : Word) : Thread n :=
  if t.cc = 0 then { t with PC := address } else t

/-- Reference: `__ex_bgt` (`src/executor_s.c:211`). -/
def exBgt (t : Thread n) (address : Word) : Thread n :=
  if t.cc.toInt > 0 then { t with PC := address } else t

/-- Reference: `__ex_blt` (`src/executor_s.c:217`). -/
def exBlt (t : Thread n) (address : Word) : Thread n :=
  if t.cc.toInt < 0 then { t with PC := address } else t

/-- Reference: `__ex_exit` (`src/executor_s.c:223`). -/
def exExit (t : Thread n) (address : Word) : Thread n := { t with PC := address }

/-- Reference: `__ex_CU` (`src/executor_s.c:177`). -/
def exCU (t : Thread n) (plainCommand : Word) : Thread n :=
  let address := getNibbleRange plainCommand 5 0
  match command plainCommand with
  | some .B => exB t address
  | some .BEQ => exBeq t address
  | some .BGT => exBgt t address
  | some .BLT => exBlt t address
  | some .EXIT => exExit t address
  | _ => t

/-! ## Loads and stores -/

variable [NeZero n]

/-- Reference: `__ex_LD` (`src/executor_s.c:76`). -/
def exLD (t : Thread n) (memory : Memory) (reg : Fin 16) (address : Word) : Outcome (Thread n) := do
  let (physicalAddress, mmu) ← mmuResolve t.memManagUnit memory t.PTBR address
  return { t with memManagUnit := mmu }.setR reg (pmReadWord memory physicalAddress)

/-- Reference: `__ex_ST` (`src/executor_s.c:82`). -/
def exST (t : Thread n) (memory : Memory) (reg : Fin 16) (virtualAddress : Word) :
    Outcome (Thread n × Memory) := do
  let (physicalAddress, mmu) ← mmuResolve t.memManagUnit memory t.PTBR virtualAddress
  return ({ t with memManagUnit := mmu }, pmWriteWord memory physicalAddress (t.R reg))

/-- Reference: `__ex_MEM` (`src/executor_s.c:87`). -/
def exMEM (t : Thread n) (memory : Memory) (plainCommand : Word) : Outcome (Thread n × Memory) :=
  let targetReg := reg plainCommand 6
  let address := getNibbleRange plainCommand 5 0
  match command plainCommand with
  | some .LD => do
    let t ← exLD t memory targetReg address
    return (t, memory)
  | some .ST => exST t memory targetReg address
  | _ => return (t, memory)

/-! ## One instruction -/

/-- `cpu_context->PC += PC_INCREMENT`. -/
def Thread.incPC (t : Thread n) : Thread n := { t with PC := t.PC + pcIncrement }

omit [NeZero n] in
@[simp] theorem Thread.incPC_memManagUnit (t : Thread n) :
    t.incPC.memManagUnit = t.memManagUnit := rfl

omit [NeZero n] in
@[simp] theorem Thread.incPC_PTBR (t : Thread n) : t.incPC.PTBR = t.PTBR := rfl

/-- The return value, the thread and the memory. Reference: `__execute` (`src/executor_s.c:42`). -/
def execute (t : Thread n) (memory : Memory) (plainCommand : Word) :
    Outcome (Int × Thread n × Memory) :=
  match command plainCommand with
  | some .LD | some .ST => do
    let (t, memory) ← exMEM t.incPC memory plainCommand
    return (0, t, memory)
  | some .ADD | some .SUB | some .MUL | some .DIV | some .AND | some .OR | some .XOR | some .MOV
  | some .CMP => do
    let t ← exALU t.incPC plainCommand
    return (0, t, memory)
  | some .B | some .BEQ | some .BGT | some .BLT => return (0, exCU t.incPC plainCommand, memory)
  | some .EXIT => return (0, exCU t plainCommand, memory)
  | none => return (-1, t, memory)

/-- Reference: `execute_current` (`src/executor_s.c:35`). -/
def executeCurrent (t : Thread n) (memory : Memory) : Outcome (Int × Thread n × Memory) := do
  let (plainCommandAddress, mmu) ← mmuResolve t.memManagUnit memory t.PTBR t.PC
  let plainCommand := pmReadWord memory plainCommandAddress
  execute { t with memManagUnit := mmu, IR := plainCommand } memory plainCommand

end

end SeKernel
