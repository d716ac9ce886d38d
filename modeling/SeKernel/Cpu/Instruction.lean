import SeKernel.Cpu.Effects

/-!
# The instruction format

An instruction word is an operation, a target and then either an address of 24 bits or two source
registers (`headers/executor.h`). Every word is an instruction (`decode`), every instruction has a
word (`Instruction.encode`), and `__execute` reads nothing from a word but the instruction it is
(`execute_eq_exec`): the bits that its operation does not use do not matter.
-/

namespace SeKernel

/-- The operations that set a register from two. -/
inductive BinaryOp
  | ADD | SUB | MUL | DIV | AND | OR | XOR
  deriving DecidableEq, Repr

/-- The operations that may set the program counter. -/
inductive BranchOp
  | B | BEQ | BGT | BLT | EXIT
  deriving DecidableEq, Repr

/-- An instruction, with the fields that its operation uses. -/
inductive Instruction
  | LD (targetReg : Fin 16) (address : BitVec 24)
  | ST (reg : Fin 16) (virtualAddress : BitVec 24)
  | binary (op : BinaryOp) (targetReg sourceReg1 sourceReg2 : Fin 16)
  | MOV (targetReg sourceReg1 : Fin 16)
  | CMP (sourceReg1 sourceReg2 : Fin 16)
  | branch (op : BranchOp) (address : BitVec 24)
  deriving DecidableEq, Repr

/-! ## From words -/

/-- The operation of an instruction word. -/
def operation (plainCommand : Word) : Op :=
  (command plainCommand).get (Option.isSome_iff_exists.2 (command_eq_some plainCommand))

theorem command_eq_operation (c : Word) : command c = some (operation c) :=
  (Option.some_get _).symm

/-- The instruction of an operation with the fields of a word. -/
def Instruction.ofFields (targetReg sourceReg1 sourceReg2 : Fin 16) (address : BitVec 24) :
    Op → Instruction
  | .LD => .LD targetReg address
  | .ST => .ST targetReg address
  | .ADD => .binary .ADD targetReg sourceReg1 sourceReg2
  | .SUB => .binary .SUB targetReg sourceReg1 sourceReg2
  | .MUL => .binary .MUL targetReg sourceReg1 sourceReg2
  | .DIV => .binary .DIV targetReg sourceReg1 sourceReg2
  | .AND => .binary .AND targetReg sourceReg1 sourceReg2
  | .OR => .binary .OR targetReg sourceReg1 sourceReg2
  | .XOR => .binary .XOR targetReg sourceReg1 sourceReg2
  | .MOV => .MOV targetReg sourceReg1
  | .CMP => .CMP sourceReg1 sourceReg2
  | .B => .branch .B address
  | .BEQ => .branch .BEQ address
  | .BGT => .branch .BGT address
  | .BLT => .branch .BLT address
  | .EXIT => .branch .EXIT address

/-- The instruction that a word is. Reference: `__execute` (`src/executor_s.c:42`), `__ex_MEM`
(`src/executor_s.c:87`), `__ex_ALU` (`src/executor_s.c:103`), `__ex_CU` (`src/executor_s.c:177`). -/
def decode (plainCommand : Word) : Instruction :=
  Instruction.ofFields (reg plainCommand 6) (reg plainCommand 5) (reg plainCommand 4)
    (plainCommand.setWidth 24) (operation plainCommand)

/-! ## To words -/

/-- The code of an operation. Reference: the `OP_` constants (`headers/executor.h:7`). -/
def Op.code : Op → Nat
  | .LD => 0
  | .ST => 1
  | .ADD => 2
  | .SUB => 3
  | .MUL => 4
  | .DIV => 5
  | .AND => 6
  | .OR => 7
  | .XOR => 8
  | .MOV => 9
  | .CMP => 10
  | .B => 11
  | .BEQ => 12
  | .BGT => 13
  | .BLT => 14
  | .EXIT => 15

theorem Op.ofCode_code (op : Op) : Op.ofCode op.code = some op := by cases op <;> rfl

theorem Op.code_lt (op : Op) : op.code < 16 := by cases op <;> decide

/-- The operation of an instruction. -/
def Instruction.op : Instruction → Op
  | .LD .. => .LD
  | .ST .. => .ST
  | .binary .ADD .. => .ADD
  | .binary .SUB .. => .SUB
  | .binary .MUL .. => .MUL
  | .binary .DIV .. => .DIV
  | .binary .AND .. => .AND
  | .binary .OR .. => .OR
  | .binary .XOR .. => .XOR
  | .MOV .. => .MOV
  | .CMP .. => .CMP
  | .branch .B _ => .B
  | .branch .BEQ _ => .BEQ
  | .branch .BGT _ => .BGT
  | .branch .BLT _ => .BLT
  | .branch .EXIT _ => .EXIT

/-- What an instruction puts in bits 27..0, as a number; bits that it does not use are 0. -/
def Instruction.fields : Instruction → Nat
  | .LD r a | .ST r a => r.val * 0x1000000 + a.toNat
  | .binary _ r s₁ s₂ => r.val * 0x1000000 + s₁.val * 0x100000 + s₂.val * 0x10000
  | .MOV r s₁ => r.val * 0x1000000 + s₁.val * 0x100000
  | .CMP s₁ s₂ => s₁.val * 0x100000 + s₂.val * 0x10000
  | .branch _ a => a.toNat

/-- The word of an instruction. -/
def Instruction.encode (i : Instruction) : Word :=
  BitVec.ofNat 32 (i.op.code * 0x10000000 + i.fields)

/-! ## The fields of a word -/

variable {c c' : Word}

/-- A nibble, as a number. Reference: `get_nibble_range` (`src/executor_s.c:6`). -/
theorem getNibbleRange_toNat (c : Word) (k : Nat) :
    (getNibbleRange c k k).toNat = c.toNat / 2 ^ (k * 4) % 16 := by
  unfold getNibbleRange
  rw [Nat.sub_self, Masks.toNat_and_mask (k := 0) (m := 4) _ (by decide) (by decide),
    BitVec.toNat_ushiftRight, Nat.shiftRight_eq_div_pow]
  simp

/-- The address field is bits 23..0. -/
theorem getNibbleRange_address_eq (c : Word) :
    getNibbleRange c 5 0 = (c.setWidth 24).setWidth 32 := by
  refine BitVec.eq_of_toNat_eq ?_
  rw [getNibbleRange_address, addressField,
    Masks.toNat_and_mask (k := 0) (m := 24) _ (by decide) (by decide), BitVec.toNat_setWidth,
    BitVec.toNat_setWidth]
  omega

theorem command_eq_some_iff {op : Op} : command c = some op ↔ operation c = op := by
  rw [command_eq_operation, Option.some.injEq]

/-- The operation is the leftmost nibble. -/
theorem operation_eq {op : Op} (h : c.toNat / 0x10000000 = op.code) : operation c = op := by
  rw [← command_eq_some_iff, command, getNibbleRange_toNat, Nat.mod_eq_of_lt (by omega)]
  exact (congrArg Op.ofCode h).trans op.ofCode_code

theorem reg_eq {r : Fin cpuRegisters} {k : Nat} (h : c.toNat / 2 ^ (k * 4) % 16 = r.val) :
    reg c k = r := by
  refine Fin.ext ?_
  rw [(reg_val_lt c k).1, getNibbleRange_toNat, h]

theorem setWidth_eq {a : BitVec 24} (h : c.toNat % 0x1000000 = a.toNat) : c.setWidth 24 = a :=
  BitVec.eq_of_toNat_eq (by rw [BitVec.toNat_setWidth]; exact h)

theorem Instruction.fields_lt (i : Instruction) : i.fields < 0x10000000 := by
  cases i with
  | LD r a | ST r a | branch _ a =>
    have ha := a.isLt
    simp only [fields]
    omega
  | binary _ r s₁ s₂ | MOV r s₁ | CMP s₁ s₂ =>
    simp only [fields]
    omega

theorem Instruction.encode_toNat (i : Instruction) :
    i.encode.toNat = i.op.code * 0x10000000 + i.fields := by
  have hcode := i.op.code_lt
  have hfields := i.fields_lt
  rw [encode, BitVec.toNat_ofNat, Nat.mod_eq_of_lt (by omega)]

theorem Instruction.operation_encode (i : Instruction) : operation i.encode = i.op := by
  have hfields := i.fields_lt
  refine operation_eq ?_
  rw [encode_toNat]
  omega

/-- Every instruction is the instruction of its word. -/
theorem Instruction.decode_encode (i : Instruction) : SeKernel.decode i.encode = i := by
  have hword := i.encode_toNat
  unfold SeKernel.decode
  rw [i.operation_encode]
  cases i with
  | LD r a | ST r a =>
    have ha := a.isLt
    simp only [fields] at hword
    rw [reg_eq (k := 6) (r := r) (by rw [hword]; omega),
      setWidth_eq (a := a) (by rw [hword]; omega)]
    rfl
  | binary op r s₁ s₂ =>
    simp only [fields] at hword
    rw [reg_eq (k := 6) (r := r) (by rw [hword]; omega),
      reg_eq (k := 5) (r := s₁) (by rw [hword]; omega),
      reg_eq (k := 4) (r := s₂) (by rw [hword]; omega)]
    cases op <;> rfl
  | MOV r s₁ =>
    simp only [fields] at hword
    rw [reg_eq (k := 6) (r := r) (by rw [hword]; omega),
      reg_eq (k := 5) (r := s₁) (by rw [hword]; omega)]
    rfl
  | CMP s₁ s₂ =>
    simp only [fields] at hword
    rw [reg_eq (k := 5) (r := s₁) (by rw [hword]; omega),
      reg_eq (k := 4) (r := s₂) (by rw [hword]; omega)]
    rfl
  | branch op a =>
    have ha := a.isLt
    simp only [fields] at hword
    rw [setWidth_eq (a := a) (by rw [hword]; omega)]
    cases op <;> rfl

/-! ## What an instruction does to a thread -/

section

variable {n : Nat}

/-- An operation of two registers. Reference: `__ex_ALU` (`src/executor_s.c:103`). -/
def BinaryOp.exec (t : Thread n) (targetReg sourceReg1 sourceReg2 : Fin 16) :
    BinaryOp → Outcome (Thread n)
  | .ADD => return exArithmAdd t targetReg sourceReg1 sourceReg2
  | .SUB => return exArithmSub t targetReg sourceReg1 sourceReg2
  | .MUL => return exArithmMul t targetReg sourceReg1 sourceReg2
  | .DIV => exArithmDiv t targetReg sourceReg1 sourceReg2
  | .AND => return exLogicAnd t targetReg sourceReg1 sourceReg2
  | .OR => return exLogicOr t targetReg sourceReg1 sourceReg2
  | .XOR => return exLogicXor t targetReg sourceReg1 sourceReg2

/-- A branch. `OP_EXIT` is one that leaves the old program counter out. Reference: `__ex_CU`
(`src/executor_s.c:177`). -/
def BranchOp.exec (t : Thread n) (address : Word) : BranchOp → Thread n
  | .B => exB t.incPC address
  | .BEQ => exBeq t.incPC address
  | .BGT => exBgt t.incPC address
  | .BLT => exBlt t.incPC address
  | .EXIT => exExit t address

variable [NeZero n]

/-- What an instruction does to a thread and the memory. -/
def Instruction.exec (t : Thread n) (memory : Memory) :
    Instruction → Outcome (Int × Thread n × Memory)
  | .LD targetReg address => do
    let t ← exLD t.incPC memory targetReg (address.setWidth 32)
    return (0, t, memory)
  | .ST reg virtualAddress => do
    let (t, memory) ← exST t.incPC memory reg (virtualAddress.setWidth 32)
    return (0, t, memory)
  | .binary op targetReg sourceReg1 sourceReg2 => do
    let t ← op.exec t.incPC targetReg sourceReg1 sourceReg2
    return (0, t, memory)
  | .MOV targetReg sourceReg1 => return (0, exMov t.incPC targetReg sourceReg1, memory)
  | .CMP sourceReg1 sourceReg2 => return (0, exCmp t.incPC sourceReg1 sourceReg2, memory)
  | .branch op address => return (0, op.exec t (address.setWidth 32), memory)

/-- `__execute` decodes the word and does what the instruction does. Reference: `__execute`
(`src/executor_s.c:42`). -/
theorem execute_eq_exec (t : Thread n) (m : Memory) (c : Word) :
    execute t m c = (decode c).exec t m := by
  have hop := command_eq_operation c
  unfold execute exMEM exALU exCU decode
  rw [hop]
  cases operation c with
  | LD =>
    simp only [getNibbleRange_address_eq, Instruction.ofFields, Instruction.exec]
    cases exLD t.incPC m (reg c 6) ((c.setWidth 24).setWidth 32) <;> rfl
  | ST | B | BEQ | BGT | BLT | EXIT =>
    simp only [getNibbleRange_address_eq, Instruction.ofFields, Instruction.exec, BranchOp.exec]
  | DIV => simp only [Instruction.ofFields, Instruction.exec, BinaryOp.exec]
  | ADD | SUB | MUL | AND | OR | XOR | MOV | CMP => rfl

/-- The instruction format is a round trip, and `__execute` reads nothing from a word but the
instruction that it is: the bits that the operation does not use do not matter. Reference:
`__execute` (`src/executor_s.c:42`), `get_nibble_range` (`src/executor_s.c:6`). -/
theorem execute_reads_instruction :
    (∀ i : Instruction, decode i.encode = i) ∧
    ∀ (t : Thread n) (m : Memory) (c : Word), execute t m c = execute t m (decode c).encode := by
  refine ⟨Instruction.decode_encode, fun t m c => ?_⟩
  rw [execute_eq_exec, execute_eq_exec, Instruction.decode_encode]

/-- An `OP_ADD` with bits set that it does not use. -/
theorem execute_reads_instruction_one :
    execute (⟨0, 0, 0, fun _ => 1, 0, tlbFlush 1⟩ : Thread 1) (fun _ => 0) 0x2123abcd =
      execute (⟨0, 0, 0, fun _ => 1, 0, tlbFlush 1⟩ : Thread 1) (fun _ => 0) 0x21230000 := by
  have hword : (decode 0x2123abcd).encode = 0x21230000 := rfl
  rw [execute_reads_instruction.2, hword]

end

end SeKernel
