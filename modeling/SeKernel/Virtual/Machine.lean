import SeKernel.Cpu.Instruction
import SeKernel.Lib.Iterate
import SeKernel.Cpu.Steps
import SeKernel.Process.Pcb

/-!
# The virtual machine of a process

What a process is meant to run on: a CPU of its own and `pages` pages of memory of its own, 64 words
each. There is no TLB, no page table and no other process, and an address outside the pages leaves
the program. The machine fetches from its own memory, so a program may change itself.
-/

namespace SeKernel

/-- A CPU and the words of its memory. -/
@[ext]
structure VirtualMachine (pages : Nat) where
  cpu : CpuSnapshot
  words : Fin (64 * pages) → Word

/-- What ends the program at an address outside the pages of a process. Reference:
`mmu_resolve_frame_root_address_from_mem` (`src/memory_s.c:276`). -/
def invalidPage : Fault := .err 1 "mmu_resolve_frame_root_address_from_mem: invalid page number"

/-- The value of an operation on two registers; a division by zero and `INT32_MIN / -1` have
none. -/
def BinaryOp.eval (a b : Word) : BinaryOp → Outcome Word
  | .ADD => return a + b
  | .SUB => return a - b
  | .MUL => return a * b
  | .DIV => if b = 0 ∨ (a = BitVec.intMin 32 ∧ b = -1) then throw .arith else return a.sdiv b
  | .AND => return a &&& b
  | .OR => return a ||| b
  | .XOR => return a ^^^ b

/-- The branch is taken under the condition code `cc`. -/
def BranchOp.taken (cc : Word) : BranchOp → Bool
  | .B | .EXIT => true
  | .BEQ => cc = 0
  | .BGT => cc.toInt > 0
  | .BLT => cc.toInt < 0

namespace VirtualMachine

variable {pages : Nat}

/-- The word at a virtual address. -/
def load (s : VirtualMachine pages) (v : Word) : Outcome Word :=
  if h : v.toNat / 4 < 64 * pages then return s.words ⟨v.toNat / 4, h⟩ else throw invalidPage

/-- Change the word at a virtual address. -/
def store (s : VirtualMachine pages) (v word : Word) : Outcome (VirtualMachine pages) :=
  if h : v.toNat / 4 < 64 * pages then
    return { s with words := Function.update s.words ⟨v.toNat / 4, h⟩ word }
  else
    throw invalidPage

/-- Set a register. -/
def setR (s : VirtualMachine pages) (reg : Fin 16) (word : Word) : VirtualMachine pages :=
  { s with cpu := { s.cpu with R := Function.update s.cpu.R reg word } }

/-- Set the program counter. -/
def setPC (s : VirtualMachine pages) (PC : Word) : VirtualMachine pages :=
  { s with cpu := { s.cpu with PC } }

/-- Set the condition code. -/
def setCc (s : VirtualMachine pages) (cc : Word) : VirtualMachine pages :=
  { s with cpu := { s.cpu with cc } }

/-- Move on to the next instruction. -/
def next (s : VirtualMachine pages) : VirtualMachine pages := s.setPC (s.cpu.PC + pcIncrement)

/-- What an instruction does. -/
def exec (s : VirtualMachine pages) : Instruction → Outcome (VirtualMachine pages)
  | .LD targetReg address => do
    let word ← s.load (address.setWidth 32)
    return s.next.setR targetReg word
  | .ST reg virtualAddress => s.next.store (virtualAddress.setWidth 32) (s.cpu.R reg)
  | .binary op targetReg sourceReg1 sourceReg2 => do
    let word ← op.eval (s.cpu.R sourceReg1) (s.cpu.R sourceReg2)
    return s.next.setR targetReg word
  | .MOV targetReg sourceReg1 => return s.next.setR targetReg (s.cpu.R sourceReg1)
  | .CMP sourceReg1 sourceReg2 =>
    return s.next.setCc (s.cpu.R sourceReg1 - s.cpu.R sourceReg2)
  | .branch op address =>
    return if op.taken s.cpu.cc then s.setPC (address.setWidth 32) else s.next

/-- The instruction register holds the word that was fetched. -/
def fetched (s : VirtualMachine pages) (word : Word) : VirtualMachine pages :=
  { s with cpu := { s.cpu with IR := word } }

/-- Fetch a word and execute it. -/
def step (s : VirtualMachine pages) : Outcome (VirtualMachine pages) := do
  let word ← s.load s.cpu.PC
  (s.fetched word).exec (decode word)

/-- The first `k` instructions. -/
abbrev run (k : Nat) (s : VirtualMachine pages) : Outcome (VirtualMachine pages) :=
  Iterate.iter step k s

/-- The virtual addresses that a step looks at: the instruction's and, once it is fetched, its
operand's. -/
def addresses (s : VirtualMachine pages) : List Word :=
  s.cpu.PC :: match s.load s.cpu.PC with
    | .ok word => (operandAddress word).toList
    | .error _ => []

end VirtualMachine

end SeKernel
