import SeKernel.Virtual.View

/-!
# A thread runs a virtual machine

One call of `execute_current` is one step of the virtual machine that the thread shows, faults
included, whenever the translations of the step are those of its page table
(`executeCurrent_shows`). From a flushed TLB they always are, apart from the one page right after
the table, which the walk takes for one of its pages: so whole runs of a thread are runs of a
virtual machine (`thread_runs_virtualMachine`).
-/

namespace SeKernel

variable {pages n : Nat} [NeZero n] {m : Memory} {ptbr v : Word}

/-! ## One instruction -/

/-- `mmu_resolve` answers what the table says: the address in the frame of its page, and the exit
for a page that the table does not have. -/
def ResolvesByTable (mmu : Mmu n) (m : Memory) (ptbr v : Word) : Prop :=
  (mmuResolve mmu m ptbr v).map (·.1) =
    if pageNumber v < pmReadWord m ptbr then .ok (physicalAddress m ptbr v) else .error invalidPage

/-- The translations of a step are those of the thread's table. -/
structure ByTable (t : Thread n) (m : Memory) : Prop where
  fetch : ResolvesByTable t.memManagUnit m t.PTBR t.PC
  operand : ∀ p mmu va, mmuResolve t.memManagUnit m t.PTBR t.PC = .ok (p, mmu) →
    operandAddress (pmReadWord m p) = some va → ResolvesByTable mmu m t.PTBR va

/-- The result of an instruction shows a virtual machine through the table at `ptbr`, and only the
table's frames have changed. -/
structure Shows (pages : Nat) (m : Memory) (ptbr : Word) (r : Int × Thread n × Memory)
    (s : VirtualMachine pages) : Prop where
  ret : r.1 = 0
  PTBR : r.2.1.PTBR = ptbr
  agree : AgreeOn (listedFrames m ptbr)ᶜ m r.2.2
  view : view pages r.2.2 ptbr r.2.1.context = s

/-- A translation that the table gives leads to the word that the virtual machine loads, or leaves
the program as it does. -/
theorem ResolvesByTable.load {mmu : Mmu n} (h : ResolvesByTable mmu m ptbr v)
    (htable : PageTable m ptbr pages) (cpu : CpuSnapshot) :
    Outcome.Rel (fun r word => mmuResolve mmu m ptbr v = .ok r ∧
        r.1 = physicalAddress m ptbr v ∧ pageNumber v < pmReadWord m ptbr ∧
        pmReadWord m r.1 = word)
      (mmuResolve mmu m ptbr v) ((view pages m ptbr cpu).load v) := by
  unfold ResolvesByTable at h
  rw [htable.view_load]
  cases hres : mmuResolve mmu m ptbr v with
  | error e =>
    rw [hres] at h
    split at h
    · cases h
    · next hv =>
      rw [if_neg hv]
      exact Except.error.inj h
  | ok r =>
    rw [hres] at h
    split at h
    · next hv =>
      have hp : r.1 = physicalAddress m ptbr v := Except.ok.inj h
      rw [if_pos hv]
      exact ⟨rfl, hp, hv, congrArg (pmReadWord m) hp⟩
    · cases h

/-- Without a stale entry a page of the table translates as the table says. -/
theorem NotStale.resolvesByTable {mmu : Mmu n} (h : NotStale mmu m ptbr v)
    (hv : pageNumber v < pmReadWord m ptbr) : ResolvesByTable mmu m ptbr v := by
  unfold ResolvesByTable
  rw [mmuResolve_of_notStale h hv, if_pos hv]
  rfl

/-- A step that stays on its table and meets no stale entry is translated by its table. -/
theorem OnTable.byTable {t : Thread n} (h : OnTable t m) : ByTable t m := by
  refine ⟨h.fetch.resolvesByTable h.fetchPage, fun p mmu va hres hva => ?_⟩
  rw [fetch_of_notStale h.fetchPage h.fetch] at hres
  cases hres
  exact (h.operand va hva).resolvesByTable (h.operandPage va hva)

/-- The virtual address that an instruction loads from or stores to. -/
def Instruction.operand : Instruction → Option Word
  | .LD _ address | .ST _ address => some (address.setWidth 32)
  | .binary .. | .MOV .. | .CMP .. | .branch .. => none

theorem operandAddress_eq (c : Word) : operandAddress c = (decode c).operand := by
  unfold operandAddress decode
  rw [command_eq_operation]
  cases operation c with
  | LD | ST => exact congrArg some (getNibbleRange_address_eq c)
  | _ => rfl

omit [NeZero n] in
/-- Reference: `__ex_ALU` (`src/executor_s.c:103`). -/
theorem BinaryOp.exec_eq (op : BinaryOp) (t : Thread n) (r s₁ s₂ : Fin 16) :
    op.exec t r s₁ s₂ = (op.eval (t.R s₁) (t.R s₂)).map (t.setR r) := by
  cases op with
  | DIV =>
    simp only [BinaryOp.exec, BinaryOp.eval, exArithmDiv]
    split <;> rfl
  | _ => rfl

omit [NeZero n] in
/-- Reference: `__ex_CU` (`src/executor_s.c:177`). -/
theorem BranchOp.exec_eq (op : BranchOp) (t : Thread n) (a : Word) :
    op.exec t a = if op.taken t.cc then { t with PC := a } else t.incPC := by
  cases op with
  | B | EXIT => rfl
  | BEQ | BGT | BLT =>
    simp only [BranchOp.exec, BranchOp.taken, exBeq, exBgt, exBlt, decide_eq_true_eq]
    rfl

variable {t : Thread n}

/-- An instruction does to the thread and the memory what it does to the virtual machine that they
show. Reference: `__execute` (`src/executor_s.c:42`). -/
theorem Instruction.exec_shows (htable : PageTable m t.PTBR pages) (i : Instruction)
    (hop : ∀ va, i.operand = some va → ResolvesByTable t.memManagUnit m t.PTBR va) :
    Outcome.Rel (Shows pages m t.PTBR) (i.exec t m)
      ((view pages m t.PTBR t.context).exec i) := by
  have hsame : AgreeOn (listedFrames m t.PTBR)ᶜ m m := .refl _ _
  cases i with
  | LD r a =>
    have hload := (hop _ rfl).load htable t.context
    simp only [Instruction.exec, exLD, VirtualMachine.exec, bind_assoc]
    refine hload.bind fun r word hres => ?_
    obtain ⟨p, mmu⟩ := r
    obtain ⟨-, -, -, rfl⟩ := hres
    exact ⟨rfl, rfl, hsame, rfl⟩
  | ST r a =>
    have hload := (hop _ rfl).load htable t.context
    have hres : exST t.incPC m r (a.setWidth 32) =
        (mmuResolve t.memManagUnit m t.PTBR (a.setWidth 32)).map
          fun x => ({ t.incPC with memManagUnit := x.2 }, pmWriteWord m x.1 (t.R r)) := by
      unfold exST
      rw [Thread.incPC_memManagUnit, Thread.incPC_PTBR]
      cases mmuResolve t.memManagUnit m t.PTBR (a.setWidth 32) <;> rfl
    simp only [Instruction.exec, hres, VirtualMachine.exec]
    by_cases ha : pageNumber (a.setWidth 32) < pmReadWord m t.PTBR
    · rw [htable.view_load, if_pos ha] at hload
      obtain ⟨⟨p, mmu⟩, hok, -, hp, -⟩ := hload.of_ok
      have hstore : (view pages m t.PTBR t.context).next.store (a.setWidth 32) (t.R r) = _ :=
        htable.view_store ha t.incPC.context (t.R r)
      rw [hok, show (view pages m t.PTBR t.context).cpu.R r = t.R r from rfl, hstore]
      dsimp only at hp
      subst hp
      exact ⟨rfl, rfl, PageTable.agree_pmWriteWord ha (t.R r), rfl⟩
    · rw [htable.view_load, if_neg ha] at hload
      have hstore : (view pages m t.PTBR t.context).next.store (a.setWidth 32) (t.R r) =
          .error invalidPage := dif_neg (mt (htable.pageNumber_lt_iff _).2 ha)
      rw [hload.of_error, show (view pages m t.PTBR t.context).cpu.R r = t.R r from rfl, hstore]
      exact rfl
  | binary op r s₁ s₂ =>
    simp only [Instruction.exec, BinaryOp.exec_eq, VirtualMachine.exec]
    have hview : ∀ o, op.eval (t.R s₁) (t.R s₂) = o →
        op.eval ((view pages m t.PTBR t.context).cpu.R s₁)
          ((view pages m t.PTBR t.context).cpu.R s₂) = o := fun _ h => h
    cases hword : op.eval (t.R s₁) (t.R s₂) with
    | error e =>
      rw [hview _ hword, show op.eval (t.incPC.R s₁) (t.incPC.R s₂) = _ from hword]
      exact rfl
    | ok word =>
      rw [hview _ hword, show op.eval (t.incPC.R s₁) (t.incPC.R s₂) = _ from hword]
      exact ⟨rfl, rfl, hsame, rfl⟩
  | MOV r s₁ => exact ⟨rfl, rfl, hsame, rfl⟩
  | CMP s₁ s₂ => exact ⟨rfl, rfl, hsame, rfl⟩
  | branch op a =>
    simp only [Instruction.exec, BranchOp.exec_eq, VirtualMachine.exec]
    by_cases htaken : op.taken t.cc
    · rw [if_pos htaken, if_pos (show op.taken (view pages m t.PTBR t.context).cpu.cc from htaken)]
      exact ⟨rfl, rfl, hsame, rfl⟩
    · rw [if_neg htaken,
        if_neg (show ¬ op.taken (view pages m t.PTBR t.context).cpu.cc from htaken)]
      exact ⟨rfl, rfl, hsame, rfl⟩

/-- A step whose translations are those of the thread's table is a step of the virtual machine that
the thread shows. Reference: `execute_current` (`src/executor_s.c:35`). -/
theorem executeCurrent_shows (htable : PageTable m t.PTBR pages) (h : ByTable t m) :
    Outcome.Rel (Shows pages m t.PTBR) (executeCurrent t m)
      (view pages m t.PTBR t.context).step := by
  refine (h.fetch.load htable t.context).bind fun ⟨p, mmu⟩ word hfetch => ?_
  obtain ⟨hres, -, -, rfl⟩ := hfetch
  dsimp only
  rw [execute_eq_exec]
  refine Instruction.exec_shows (t := { t with memManagUnit := mmu, IR := pmReadWord m p }) htable _
    fun va hva => h.operand p mmu va hres ?_
  rw [operandAddress_eq]
  exact hva

/-! ## Runs from a flushed TLB -/

/-- The MMU after a step is the one after the translation of the instruction's address or of the
operand's. -/
theorem executeCurrent_mmu {t' : Thread n} {m' : Memory} {ret : Int}
    (h : executeCurrent t m = .ok (ret, t', m')) :
    ∃ p mmu, mmuResolve t.memManagUnit m t.PTBR t.PC = .ok (p, mmu) ∧
      (t'.memManagUnit = mmu ∨ ∃ va p', operandAddress (pmReadWord m p) = some va ∧
        mmuResolve mmu m t.PTBR va = .ok (p', t'.memManagUnit)) := by
  obtain ⟨⟨p, mmu⟩, hfetch, hex⟩ := Outcome.bind_eq_ok.1 h
  refine ⟨p, mmu, hfetch, ?_⟩
  cases hop : operandAddress (pmReadWord m p) with
  | none => exact .inl (execute_local hop hex).2.1
  | some va =>
    cases hres : mmuResolve mmu m t.PTBR va with
    | error e =>
      dsimp only at hex
      rw [execute_memory_error hop hres] at hex
      cases hex
    | ok r =>
      obtain ⟨t₁, store, hmmu, -, hsame⟩ := execute_memory (t := { t with
        memManagUnit := mmu, IR := pmReadWord m p }) m r.1 r.2 hop
      dsimp only at hex
      rw [hsame m hres rfl] at hex
      cases hex
      refine .inr ⟨va, r.1, rfl, ?_⟩
      rw [hmmu]
      exact hres

/-- The addresses outside the page right after the last one, which the walk takes for a page. -/
def offBoundary (pages : Nat) : Set Word := {v | v.toNat / 256 ≠ pages}

/-- The TLB holds what the table gives, but for the page right after its last one. -/
def TlbSound (pages : Nat) (m : Memory) (ptbr : Word) (mmu : Mmu n) : Prop :=
  Cache.Sound (tlbCache n) (mmuResolveFrameRootAddressFromMem m ptbr) (offBoundary pages) mmu

/-- The walk gives the frame of a page of the table and leaves the program for any other page but
one. -/
theorem PageTable.walk_eq (h : PageTable m ptbr pages) (hv : v ∈ offBoundary pages) :
    mmuResolveFrameRootAddressFromMem m ptbr v =
      if pageNumber v < pmReadWord m ptbr then .ok (pageFrame m ptbr (pageNumber v))
      else .error invalidPage := by
  have hne : v.toNat / 256 ≠ pages := hv
  have hflip : pmReadWord m ptbr < pageNumber v ↔ ¬ pageNumber v < pmReadWord m ptbr := by
    rw [BitVec.lt_def, BitVec.lt_def, pageNumber_toNat, h.count]
    omega
  rw [mmuResolveFrameRootAddressFromMem_eq]
  by_cases hlt : pageNumber v < pmReadWord m ptbr
  · rw [if_pos hlt, if_neg fun hgt => hflip.1 hgt hlt]
  · rw [if_neg hlt, if_pos (hflip.2 hlt)]
    rfl

theorem TlbSound.congr {m' : Memory} {mmu : Mmu n} (h : TlbSound pages m ptbr mmu)
    (htable : PageTable m ptbr pages) (hm : AgreeOn (tableFrames m ptbr) m m') :
    TlbSound pages m' ptbr mmu := by
  refine Cache.Sound.congr h fun v hv => ?_
  rw [htable.walk_eq hv, (htable.congr hm).walk_eq hv, entryCount_congr hm]
  by_cases hlt : pageNumber v < pmReadWord m ptbr
  · rw [if_pos hlt, if_pos hlt, pageFrame_congr hm hlt]
  · rw [if_neg hlt, if_neg hlt]

/-- With such a TLB an address translates as the table says, and the TLB stays so. -/
theorem TlbSound.resolves {mmu : Mmu n} (h : TlbSound pages m ptbr mmu)
    (htable : PageTable m ptbr pages) (hv : v ∈ offBoundary pages) :
    ResolvesByTable mmu m ptbr v ∧
      ∀ p mmu', mmuResolve mmu m ptbr v = .ok (p, mmu') → TlbSound pages m ptbr mmu' := by
  have hfst := Cache.Sound.readThrough_fst h hv
  rw [htable.walk_eq hv] at hfst
  unfold ResolvesByTable
  rw [mmuResolve_eq_readThrough]
  cases hread : Cache.readThrough (tlbCache n) (mmuResolveFrameRootAddressFromMem m ptbr) v mmu with
  | error e =>
    rw [hread] at hfst
    refine ⟨?_, fun p mmu' hres => by cases hres⟩
    split at hfst
    · cases hfst
    · next hlt =>
      rw [if_neg hlt]
      exact congrArg Except.error (Except.error.inj hfst)
  | ok r =>
    rw [hread] at hfst
    constructor
    · split at hfst
      · next hlt =>
        rw [if_pos hlt]
        have hframe : r.1 = pageFrame m ptbr (pageNumber v) := Except.ok.inj hfst
        simp only [Except.map, hframe]
        rfl
      · cases hfst
    · intro p mmu' hres
      cases hres
      exact Cache.Sound.readThrough h (tlbCache_faithful m ptbr _) hv hread

/-- No address that the step looks at lies in the page right after the last one. -/
def VirtualMachine.SparesBoundary (s : VirtualMachine pages) : Prop :=
  ∀ v ∈ s.addresses, v ∈ offBoundary pages

/-- A thread on the table at `ptbr`, with a TLB that holds what the table gives. -/
structure Running (pages : Nat) (ptbr : Word) (t : Thread n) (m : Memory) : Prop where
  PTBR : t.PTBR = ptbr
  table : PageTable m ptbr pages
  tlb : TlbSound pages m ptbr t.memManagUnit

/-- The translations of such a thread's next step are those of its table, and its TLB stays sound
through them. -/
theorem Running.byTable (h : Running pages ptbr t m)
    (hspares : (view pages m ptbr t.context).SparesBoundary) :
    ByTable t m ∧ ∀ ret t' m', executeCurrent t m = .ok (ret, t', m') →
      TlbSound pages m ptbr t'.memManagUnit := by
  obtain ⟨rfl, htable, htlb⟩ := h
  obtain ⟨hfetch, hkeep⟩ := htlb.resolves htable (v := t.PC) (hspares t.PC List.mem_cons_self)
  have hoperand : ∀ p mmu va, mmuResolve t.memManagUnit m t.PTBR t.PC = .ok (p, mmu) →
      operandAddress (pmReadWord m p) = some va → va ∈ offBoundary pages := by
    intro p mmu va hres hva
    have hload := hfetch.load htable t.context
    rw [hres] at hload
    obtain ⟨word, hword, -, -, -, rfl⟩ := hload.of_ok_left
    refine hspares va (List.mem_cons_of_mem _ ?_)
    rw [show (view pages m t.PTBR t.context).load
      (view pages m t.PTBR t.context).cpu.PC = _ from hword]
    exact Option.mem_toList.2 hva
  refine ⟨⟨hfetch, fun p mmu va hres hva => ?_⟩, fun ret t' m' hex => ?_⟩
  · exact ((hkeep p mmu hres).resolves htable (hoperand p mmu va hres hva)).1
  · obtain ⟨p, mmu, hres, hmmu | ⟨va, p', hva, hres'⟩⟩ := executeCurrent_mmu hex
    · rw [hmmu]
      exact hkeep p mmu hres
    · exact ((hkeep p mmu hres).resolves htable (hoperand p mmu va hres hva)).2 p' _ hres'

/-- A thread's turn, without the return value, which no caller looks at. Reference: `execute_all`
(`src/executor_s.c:29`). -/
def threadStep (s : Thread n × Memory) : Outcome (Thread n × Memory) := do
  let (_, t, memory) ← executeCurrent s.1 s.2
  return (t, memory)

/-- A step of a running thread is one of the virtual machine that it shows; the thread runs on, and
only frames of its table have changed. -/
theorem Running.step (h : Running pages ptbr t m)
    (hspares : (view pages m ptbr t.context).SparesBoundary) :
    Outcome.Rel (fun x s => Running pages ptbr x.1 x.2 ∧
        AgreeOn (listedFrames m ptbr)ᶜ m x.2 ∧ view pages x.2 ptbr x.1.context = s)
      (threadStep (t, m)) (view pages m ptbr t.context).step := by
  obtain ⟨hby, htlb⟩ := h.byTable hspares
  obtain ⟨rfl, htable, -⟩ := h
  have hshows := executeCurrent_shows htable hby
  unfold threadStep
  cases hex : executeCurrent t m with
  | error e =>
    rw [hex] at hshows
    cases hstep : (view pages m t.PTBR t.context).step with
    | error e' =>
      rw [hstep] at hshows
      exact hshows
    | ok s =>
      rw [hstep] at hshows
      exact hshows.elim
  | ok r =>
    obtain ⟨ret, t', m'⟩ := r
    rw [hex] at hshows
    obtain ⟨s, hs, hr⟩ := hshows.of_ok_left
    rw [hs]
    have hm := htable.agree_table hr.agree
    exact ⟨⟨hr.PTBR, htable.congr hm, (htlb ret t' m' hex).congr htable hm⟩, hr.agree, hr.view⟩

/-- From a flushed TLB, the run of a thread on a table of distinct frames is the run of the virtual
machine that it shows at the start: the same faults after the same instructions, the same registers
and words, however the program changes itself, as long as it keeps away from the page right after
its last one; and no frame outside the table changes. Reference: `execute_current`
(`src/executor_s.c:35`). -/
theorem thread_runs_virtualMachine {k : Nat} (htable : PageTable m t.PTBR pages)
    (hinactive : ∀ i, (t.memManagUnit.tlbHashArr i).active = false)
    (hspares : Iterate.Along VirtualMachine.step VirtualMachine.SparesBoundary k
      (view pages m t.PTBR t.context)) :
    Outcome.Rel (fun x s => x.1.PTBR = t.PTBR ∧ AgreeOn (listedFrames m t.PTBR)ᶜ m x.2 ∧
        view pages x.2 t.PTBR x.1.context = s)
      (Iterate.iter threadStep k (t, m)) ((view pages m t.PTBR t.context).run k) := by
  have hrun : Running pages t.PTBR t m :=
    ⟨rfl, htable, tlbCache_sound_of_inactive hinactive m t.PTBR _⟩
  let R (x : Thread n × Memory) (s : VirtualMachine pages) : Prop :=
    Running pages t.PTBR x.1 x.2 ∧ AgreeOn (listedFrames m t.PTBR)ᶜ m x.2 ∧
      view pages x.2 t.PTBR x.1.context = s
  have hstep : ∀ x s, R x s → s.SparesBoundary → Outcome.Rel R (threadStep x) s.step := by
    rintro ⟨t', m'⟩ s ⟨hrun', hm, rfl⟩ hs
    refine (hrun'.step hs).mono fun x s' hx => ⟨hx.1, hm.trans ?_, hx.2.2⟩
    rw [listedFrames_congr (htable.agree_table hm)] at hx
    exact hx.2.1
  have hinit : R (t, m) (view pages m t.PTBR t.context) := ⟨hrun, .refl _ _, rfl⟩
  exact (Outcome.Rel.iter hstep hinit hspares).mono fun x s hx => ⟨hx.1.PTBR, hx.2⟩

/-- A thread on the first of the two tables, whose `R0` holds a `DIV`. -/
def selfModifying : Thread 1 :=
  ⟨0, 0, 0, fun r => if r.val = 0 then 0x55110000 else 0, 0, tlbFlush 1⟩

/-- What the thread's virtual machine is after its first `k` steps, of which there are two. -/
def selfModified (k : Nat) : VirtualMachine 1 :=
  let words := (view 1 twoTables 0 selfModifying.context).words
  match k with
  | 0 => ⟨selfModifying.context, words⟩
  | 1 => ⟨⟨4, 0x10000008, selfModifying.R, 0⟩, Function.update words 2 0x55110000⟩
  | _ => ⟨⟨8, 0, Function.update selfModifying.R (reg 0 0) 0x10000008, 0⟩,
      Function.update words 2 0x55110000⟩

theorem twoTables_pageTable (x : Bool) : PageTable twoTables (twoPgb x) 1 := by
  have hone : pmReadWord twoTables (twoPgb x) = 1 := by
    cases x <;> decide
  have hzero : ∀ q : Word, q < 1 → q = 0 := fun q hq => by bv_omega
  refine ⟨⟨?_, ?_, twoTables_apart.tables x x⟩, congrArg BitVec.toNat hone⟩
  · intro q hq q' hq' _
    rw [hzero q (hone ▸ hq), hzero q' (hone ▸ hq')]
  · intro q hq
    obtain rfl := hzero q (hone ▸ hq)
    cases x <;> decide

/-- The first instruction stores the `DIV` over the third one, which then divides by zero. -/
theorem thread_runs_virtualMachine_three :
    Iterate.iter threadStep 3 (selfModifying, twoTables) = .error .arith := by
  have hfirst : (selfModified 0).step = .ok (selfModified 1) := rfl
  have hsecond : (selfModified 1).step = .ok (selfModified 2) := rfl
  have hthird : (selfModified 2).step = .error .arith := rfl
  have hspares : Iterate.Along VirtualMachine.step VirtualMachine.SparesBoundary 3
      (selfModified 0) := by
    refine .cons ?_ hfirst <| .cons ?_ hsecond ⟨?_, fun s hs => nomatch hthird.symm.trans hs⟩
    · rw [VirtualMachine.SparesBoundary, show (selfModified 0).addresses = [0, 8] from rfl]
      simp [offBoundary]
    · rw [VirtualMachine.SparesBoundary, show (selfModified 1).addresses = [4, 0] from rfl]
      simp [offBoundary]
    · rw [VirtualMachine.SparesBoundary, show (selfModified 2).addresses = [8] from rfl]
      simp [offBoundary]
  have hrun := thread_runs_virtualMachine (t := selfModifying) (twoTables_pageTable false)
    (fun _ => rfl) hspares
  have herror : (selfModified 0).run 3 = .error .arith := by
    simp only [VirtualMachine.run, Iterate.iter, hfirst, hsecond, hthird, Outcome.ok_bind,
      Outcome.error_bind]
  rw [show view 1 twoTables selfModifying.PTBR selfModifying.context = selfModified 0 from rfl,
    herror] at hrun
  exact hrun.of_error

end SeKernel
