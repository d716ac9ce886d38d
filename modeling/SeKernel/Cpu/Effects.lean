import SeKernel.Cpu.Executor
import SeKernel.Memory.Alloc
import SeKernel.Memory.Walk

/-!
# The effects of one instruction

Each instruction belongs to one of three units, `__ex_MEM`, `__ex_ALU` and `__ex_CU`, and what a
unit does to the thread is one lemma (`exMEM_cases`, `exALU_cases`, `exCU_eq`). From these
`execute_effects` collects all that an instruction may change.
-/

namespace SeKernel

/-! ## Decoding -/

/-- The function that `__execute` hands an operation to. -/
inductive OpUnit
  | MEM | ALU | CU
  deriving DecidableEq, Repr

/-- Reference: the `switch` of `__execute` (`src/executor_s.c:44`). -/
def Op.unit : Op → OpUnit
  | .LD | .ST => .MEM
  | .ADD | .SUB | .MUL | .DIV | .AND | .OR | .XOR | .MOV | .CMP => .ALU
  | .B | .BEQ | .BGT | .BLT | .EXIT => .CU

/-- The operation moves the program counter to its address field under the condition code `cc`. -/
def Op.Jumps (cc : Word) : Op → Prop
  | .B | .EXIT => True
  | .BEQ => cc = 0
  | .BGT => cc.toInt > 0
  | .BLT => cc.toInt < 0
  | _ => False

instance (cc : Word) : (op : Op) → Decidable (op.Jumps cc)
  | .B | .EXIT => isTrue trivial
  | .BEQ => inferInstanceAs (Decidable (cc = 0))
  | .BGT => inferInstanceAs (Decidable (cc.toInt > 0))
  | .BLT => inferInstanceAs (Decidable (cc.toInt < 0))
  | .LD | .ST | .ADD | .SUB | .MUL | .DIV | .AND | .OR | .XOR | .MOV | .CMP => isFalse id

theorem Op.not_jumps {op : Op} (cc : Word) (hunit : op.unit ≠ .CU) : ¬ op.Jumps cc := by
  cases op with
  | B | BEQ | BGT | BLT | EXIT => exact absurd rfl hunit
  | _ => exact id

/-- Bits 23..0 of an instruction word. -/
def addressField (plainCommand : Word) : Word := plainCommand &&& 0xFFFFFF

/-- Bits 27..24 of an instruction word. -/
def targetField (plainCommand : Word) : Word := plainCommand >>> 24 &&& 0xF

theorem getNibbleRange_address (c : Word) : getNibbleRange c 5 0 = addressField c :=
  congrArg (· &&& 0xFFFFFF) (BitVec.ushiftRight_zero c)

/-- A nibble is below 16. Reference: `get_nibble_range` (`src/executor_s.c:6`). -/
theorem getNibbleRange_lt (c : Word) (nibble : Nat) :
    (getNibbleRange c nibble nibble).toNat < 16 := by
  unfold getNibbleRange
  rw [Nat.sub_self, Masks.toNat_and_mask (k := 0) (m := 4) _ (by decide) (by decide)]
  omega

/-- A register index is the nibble it is read from, which needs no reduction. -/
theorem reg_val_lt (c : Word) (nibble : Nat) :
    (reg c nibble).val = (getNibbleRange c nibble nibble).toNat ∧
      (getNibbleRange c nibble nibble).toNat < cpuRegisters :=
  ⟨Nat.mod_eq_of_lt (getNibbleRange_lt c nibble), getNibbleRange_lt c nibble⟩

/-- Every nibble is the code of an operation. Reference: the `OP_` constants
(`headers/executor.h:7`). -/
theorem command_eq_some (c : Word) : ∃ op, command c = some op := by
  have hcode : ∀ k < 16, (Op.ofCode k).isSome := by decide
  exact Option.isSome_iff_exists.1 (hcode _ (getNibbleRange_lt c 7))

section

variable {n : Nat} {t t' : Thread n} {c : Word} {op : Op}

/-! ## The three units -/

/-- A comparison sets the condition code, another operation of the unit sets its target register.
Reference: `__ex_ALU` (`src/executor_s.c:103`). -/
theorem exALU_cases (hop : command c = some op) (hunit : op.unit = .ALU) (h : exALU t c = .ok t') :
    (op = .CMP ∧ t' = { t with cc := t.R (reg c 5) - t.R (reg c 4) }) ∨
    (op ≠ .CMP ∧ ∃ word, t' = t.setR (reg c 6) word) := by
  unfold exALU at h
  simp only [hop] at h
  cases op with
  | CMP =>
    cases h
    exact .inl ⟨rfl, rfl⟩
  | DIV =>
    simp only [exArithmDiv] at h
    split at h
    · cases h
    · cases h
      exact .inr ⟨nofun, _, rfl⟩
  | ADD | SUB | MUL | AND | OR | XOR | MOV =>
    cases h
    exact .inr ⟨nofun, _, rfl⟩
  | LD | ST | B | BEQ | BGT | BLT | EXIT => cases hunit

/-- Reference: `__ex_CU` (`src/executor_s.c:177`). -/
theorem exCU_eq (t : Thread n) (hop : command c = some op) (hunit : op.unit = .CU) :
    exCU t c = if op.Jumps t.cc then { t with PC := addressField c } else t := by
  unfold exCU
  simp only [hop, getNibbleRange_address]
  cases op with
  | B | EXIT | BEQ | BGT | BLT => rfl
  | _ => cases hunit

variable [NeZero n] {m m' : Memory} {ret : Int}

/-- A load and a store translate the address field; a load sets the target register, a store writes
it to memory. Reference: `__ex_MEM` (`src/executor_s.c:87`). -/
theorem exMEM_cases (hop : command c = some op) (hunit : op.unit = .MEM)
    (h : exMEM t m c = .ok (t', m')) :
    ∃ p mmu, mmuResolve t.memManagUnit m t.PTBR (addressField c) = .ok (p, mmu) ∧
      ((op = .LD ∧ t' = { t with memManagUnit := mmu }.setR (reg c 6) (pmReadWord m p) ∧ m' = m) ∨
      (op = .ST ∧ t' = { t with memManagUnit := mmu } ∧ m' = pmWriteWord m p (t.R (reg c 6)))) := by
  unfold exMEM at h
  simp only [hop, getNibbleRange_address] at h
  cases op with
  | LD =>
    obtain ⟨t₁, hld, hret⟩ := Outcome.bind_eq_ok.1 h
    obtain ⟨⟨p, mmu⟩, hres, ht₁⟩ := Outcome.bind_eq_ok.1 hld
    cases hret
    cases ht₁
    exact ⟨p, mmu, hres, .inl ⟨rfl, rfl, rfl⟩⟩
  | ST =>
    obtain ⟨⟨p, mmu⟩, hres, hret⟩ := Outcome.bind_eq_ok.1 h
    cases hret
    exact ⟨p, mmu, hres, .inr ⟨rfl, rfl, rfl⟩⟩
  | _ => cases hunit

/-- `__execute` by units: the program counter moves on first, except before `OP_EXIT`. Reference:
`__execute` (`src/executor_s.c:42`). -/
theorem execute_eq (t : Thread n) (m : Memory) (hop : command c = some op) :
    execute t m c = match op.unit with
      | .MEM => (exMEM t.incPC m c).map fun (t, m) => (0, t, m)
      | .ALU => (exALU t.incPC c).map fun t => (0, t, m)
      | .CU => .ok (0, exCU (if op = .EXIT then t else t.incPC) c, m) := by
  unfold execute
  simp only [hop]
  cases op with
  | LD | ST => cases exMEM t.incPC m c <;> rfl
  | ADD | SUB | MUL | DIV | AND | OR | XOR | MOV | CMP => cases exALU t.incPC c <;> rfl
  | B | BEQ | BGT | BLT | EXIT => rfl

/-- What an instruction that returns has done: its unit has returned, and a unit other than
`__ex_MEM` leaves the memory as it is. Reference: `__execute` (`src/executor_s.c:42`). -/
theorem execute_cases (hop : command c = some op) (h : execute t m c = .ok (ret, t', m')) :
    ret = 0 ∧ ((op.unit = .MEM ∧ exMEM t.incPC m c = .ok (t', m')) ∨
      (op.unit = .ALU ∧ exALU t.incPC c = .ok t' ∧ m' = m) ∨
      (op.unit = .CU ∧ t' = exCU (if op = .EXIT then t else t.incPC) c ∧ m' = m)) := by
  rw [execute_eq t m hop] at h
  cases hunit : op.unit with
  | MEM =>
    simp only [hunit] at h
    cases hmem : exMEM t.incPC m c with
    | error e =>
      rw [hmem] at h
      cases h
    | ok r =>
      rw [hmem] at h
      cases h
      exact ⟨rfl, .inl ⟨rfl, rfl⟩⟩
  | ALU =>
    simp only [hunit] at h
    cases halu : exALU t.incPC c with
    | error e =>
      rw [halu] at h
      cases h
    | ok t₁ =>
      rw [halu] at h
      cases h
      exact ⟨rfl, .inr (.inl ⟨rfl, rfl, rfl⟩)⟩
  | CU =>
    simp only [hunit] at h
    cases h
    exact ⟨rfl, .inr (.inr ⟨rfl, rfl, rfl⟩)⟩

/-- Reference: `__ex_cmp` (`src/executor_s.c:173`). -/
theorem execute_cmp (t : Thread n) (m : Memory) (hop : command c = some .CMP) :
    execute t m c = .ok (0, { t.incPC with cc := t.R (reg c 5) - t.R (reg c 4) }, m) := by
  unfold execute exALU
  simp only [hop]
  rfl

/-- A translation changes the slot of its page only. Reference: `mmu_resolve`
(`src/memory_s.c:258`). -/
theorem mmuResolve_slots {mmu mmu' : Mmu n} {ptbr va p : Word}
    (h : mmuResolve mmu m ptbr va = .ok (p, mmu')) {k : Fin n} (hk : k ≠ tlbHash n va) :
    mmu'.tlbHashArr k = mmu.tlbHashArr k := by
  cases hmatch : tlbGetMatch mmu va with
  | some e =>
    rw [mmuResolve_of_match hmatch] at h
    cases h
    rfl
  | none =>
    rw [mmuResolve_of_none _ _ hmatch] at h
    split at h
    · cases h
    · cases h
      exact Function.update_of_ne hk _ _

end

/-! ## One instruction -/

section

variable {n : Nat} [NeZero n]

/-- `__execute` on the physical memory that `mem_manag_unit.ps` points to, of which it reads and
writes `memory` only. Reference: `__execute` (`src/executor_s.c:42`). -/
def executePs (t : Thread n) (ps : PhysicalMemory) (plainCommand : Word) :
    Outcome (Int × Thread n × PhysicalMemory) := do
  let (ret, t, memory) ← execute t ps.memory plainCommand
  return (ret, t, { ps with memory })

/-- All that an instruction `c` may change. -/
structure Effects (t : Thread n) (ps : PhysicalMemory) (c : Word) (op : Op) (ret : Int)
    (t' : Thread n) (ps' : PhysicalMemory) : Prop where
  ret : ret = 0
  PTBR : t'.PTBR = t.PTBR
  IR : t'.IR = t.IR
  R : ∀ r, t'.R r ≠ t.R r →
    r.val = (targetField c).toNat ∧ (op = .LD ∨ op.unit = .ALU ∧ op ≠ .CMP)
  cc : t'.cc ≠ t.cc → op = .CMP
  memory : ∀ x, ps'.memory x ≠ ps.memory x → op = .ST ∧
    ∃ p mmu, mmuResolve t.memManagUnit ps.memory t.PTBR (addressField c) = .ok (p, mmu) ∧
      ∃ i < busDataBytesSize, x = wordStartAddress p + BitVec.ofNat 32 i
  tlb : ∀ k, t'.memManagUnit.tlbHashArr k ≠ t.memManagUnit.tlbHashArr k →
    (op = .LD ∨ op = .ST) ∧ k = tlbHash n (addressField c)
  freeBlocks : ps'.freeBlocks = ps.freeBlocks
  PC : t'.PC = if op.Jumps t.cc then addressField c else t.PC + pcIncrement
  registers : ∀ nibble, (reg c nibble).val = (getNibbleRange c nibble nibble).toNat ∧
    (getNibbleRange c nibble nibble).toNat < cpuRegisters

variable {t t' : Thread n} {ps ps' : PhysicalMemory} {c : Word} {op : Op} {ret : Int}

/-- A changed register is the target register. -/
theorem targetField_of_ne {R : Fin cpuRegisters → Word} {word : Word} {r : Fin cpuRegisters}
    (h : Function.update R (reg c 6) word r ≠ R r) : r.val = (targetField c).toNat := by
  by_cases hr : r = reg c 6
  · rw [hr, (reg_val_lt c 6).1]
    rfl
  · exact absurd (Function.update_of_ne hr _ _) h

/-- Reference: `__ex_MEM` (`src/executor_s.c:87`). -/
theorem exMEM_effects {m' : Memory} (hop : command c = some op) (hunit : op.unit = .MEM)
    (h : exMEM t.incPC ps.memory c = .ok (t', m')) :
    Effects t ps c op 0 t' { ps with memory := m' } := by
  have hjump : ¬ op.Jumps t.cc := Op.not_jumps t.cc (by rw [hunit]; decide)
  obtain ⟨p, mmu, hres, hcases⟩ := exMEM_cases hop hunit h
  have hslots (k : Fin n) (hk : mmu.tlbHashArr k ≠ t.memManagUnit.tlbHashArr k) :
      k = tlbHash n (addressField c) := by
    by_contra hne
    exact hk (mmuResolve_slots hres hne)
  rcases hcases with ⟨rfl, rfl, rfl⟩ | ⟨rfl, rfl, rfl⟩
  · exact {
      ret := rfl
      PTBR := rfl
      IR := rfl
      R := fun r hr => ⟨targetField_of_ne hr, .inl rfl⟩
      cc := fun hcc => absurd rfl hcc
      memory := fun x hx => absurd rfl hx
      tlb := fun k hk => ⟨.inl rfl, hslots k hk⟩
      freeBlocks := rfl
      PC := (if_neg hjump).symm
      registers := reg_val_lt c }
  · exact {
      ret := rfl
      PTBR := rfl
      IR := rfl
      R := fun r hr => absurd rfl hr
      cc := fun hcc => absurd rfl hcc
      memory := fun x hx => by
        refine ⟨rfl, p, mmu, hres, ?_⟩
        by_contra hout
        exact hx (pmWriteWord_of_ne _ _ _ fun i hi he => hout ⟨i, hi, he⟩)
      tlb := fun k hk => ⟨.inr rfl, hslots k hk⟩
      freeBlocks := rfl
      PC := (if_neg hjump).symm
      registers := reg_val_lt c }

/-- An instruction that changes nothing but registers, condition code and program counter. -/
theorem Effects.of_registers (hPTBR : t'.PTBR = t.PTBR) (hIR : t'.IR = t.IR)
    (hmmu : t'.memManagUnit = t.memManagUnit)
    (hR : ∀ r, t'.R r ≠ t.R r → r.val = (targetField c).toNat ∧ op.unit = .ALU ∧ op ≠ .CMP)
    (hcc : t'.cc ≠ t.cc → op = .CMP)
    (hPC : t'.PC = if op.Jumps t.cc then addressField c else t.PC + pcIncrement) :
    Effects t ps c op 0 t' ps where
  ret := rfl
  PTBR := hPTBR
  IR := hIR
  R r hr := ⟨(hR r hr).1, .inr (hR r hr).2⟩
  cc := hcc
  memory _ hx := absurd rfl hx
  tlb k hk := absurd (by rw [hmmu]) hk
  freeBlocks := rfl
  PC := hPC
  registers := reg_val_lt c

/-- Reference: `__ex_ALU` (`src/executor_s.c:103`). -/
theorem exALU_effects (hop : command c = some op) (hunit : op.unit = .ALU)
    (h : exALU t.incPC c = .ok t') : Effects t ps c op 0 t' ps := by
  have hjump : ¬ op.Jumps t.cc := Op.not_jumps t.cc (by rw [hunit]; decide)
  rcases exALU_cases hop hunit h with ⟨rfl, rfl⟩ | ⟨hcmp, word, rfl⟩
  · exact .of_registers rfl rfl rfl (fun r hr => absurd rfl hr) (fun _ => rfl) (if_neg hjump).symm
  · exact .of_registers rfl rfl rfl (fun r hr => ⟨targetField_of_ne hr, hunit, hcmp⟩)
      (fun hcc => absurd rfl hcc) (if_neg hjump).symm

/-- Reference: `__ex_CU` (`src/executor_s.c:177`). -/
theorem exCU_effects (hop : command c = some op) (hunit : op.unit = .CU) :
    Effects t ps c op 0 (exCU (if op = .EXIT then t else t.incPC) c) ps := by
  have hstart : ∃ pc, (if op = .EXIT then t else t.incPC) = { t with PC := pc } ∧
      (op ≠ .EXIT → pc = t.PC + pcIncrement) := by
    split
    · next hexit => exact ⟨t.PC, rfl, fun hne => absurd hexit hne⟩
    · exact ⟨t.PC + pcIncrement, rfl, fun _ => rfl⟩
  obtain ⟨pc, hpc, hinc⟩ := hstart
  rw [exCU_eq _ hop hunit, hpc]
  by_cases hjump : op.Jumps t.cc
  · rw [if_pos hjump]
    exact .of_registers rfl rfl rfl (fun r hr => absurd rfl hr) (fun hcc => absurd rfl hcc)
      (if_pos hjump).symm
  · have hexit : op ≠ .EXIT := by
      rintro rfl
      exact hjump trivial
    rw [if_neg hjump, hinc hexit]
    exact .of_registers rfl rfl rfl (fun r hr => absurd rfl hr) (fun hcc => absurd rfl hcc)
      (if_neg hjump).symm

/-- Every instruction that does not fault returns 0, has an operation, and changes what that
operation may change. Reference: `__execute` (`src/executor_s.c:42`). -/
theorem execute_effects (h : executePs t ps c = .ok (ret, t', ps')) :
    ∃ op, command c = some op ∧ Effects t ps c op ret t' ps' := by
  obtain ⟨op, hop⟩ := command_eq_some c
  refine ⟨op, hop, ?_⟩
  obtain ⟨⟨r, t₁, m₁⟩, hex, hret⟩ := Outcome.bind_eq_ok.1 h
  cases hret
  rcases execute_cases hop hex with ⟨rfl, ⟨hunit, hmem⟩ | ⟨hunit, halu, rfl⟩ | ⟨hunit, rfl, rfl⟩⟩
  · exact exMEM_effects hop hunit hmem
  · exact exALU_effects hop hunit halu
  · exact exCU_effects hop hunit

/-- A store of the value 7 at address 8 of a page. -/
theorem execute_effects_store : ∃ t' ps',
    executePs (n := 1) ⟨0, 0, 0, fun _ => 7, 0, tlbFlush 1⟩ ⟨twoTables, []⟩ 0x10000008 =
      .ok (0, t', ps') ∧
    ∃ op, command 0x10000008 = some op ∧
      Effects ⟨0, 0, 0, fun _ => 7, 0, tlbFlush 1⟩ ⟨twoTables, []⟩ 0x10000008 op 0 t' ps' :=
  ⟨_, _, rfl, execute_effects rfl⟩

/-! ## Fetching it -/

/-- The instruction word that a step fetches. Reference: `execute_current`
(`src/executor_s.c:36`). -/
def plainCommand (t : Thread n) (m : Memory) : Outcome Word :=
  (mmuResolve t.memManagUnit m t.PTBR t.PC).map fun r => pmReadWord m r.1

/-- A step executes the word that it fetches. -/
theorem executeCurrent_eq {m : Memory} (h : plainCommand t m = .ok c) :
    ∃ mmu, executeCurrent t m = execute { t with memManagUnit := mmu, IR := c } m c := by
  unfold plainCommand at h
  unfold executeCurrent
  cases hres : mmuResolve t.memManagUnit m t.PTBR t.PC with
  | error e =>
    rw [hres] at h
    cases h
  | ok r =>
    rw [hres] at h
    cases h
    exact ⟨r.2, rfl⟩

/-- A step whose fetch faults does. -/
theorem executeCurrent_error {m : Memory} {e : Fault} (h : plainCommand t m = .error e) :
    executeCurrent t m = .error e := by
  unfold plainCommand at h
  unfold executeCurrent
  cases hres : mmuResolve t.memManagUnit m t.PTBR t.PC with
  | error e' =>
    rw [hres] at h
    cases h
    rfl
  | ok r =>
    rw [hres] at h
    cases h

end

end SeKernel
