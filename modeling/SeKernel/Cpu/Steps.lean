import SeKernel.Cpu.Executor
import SeKernel.Memory.Translation

/-!
# What one instruction can do

A step of a hardware thread translates the address it fetches from and, for a load or a store, the
operand address (`translations`). Where both translations follow the thread's own page table
(`OnTable`), the step writes at most one word, into a frame that the table lists, and it depends on
these frames and the table's words only (`executeCurrent_onTable`).
-/

namespace SeKernel

/-- The virtual address that an instruction loads from or stores to. -/
def operandAddress (plainCommand : Word) : Option Word :=
  match command plainCommand with
  | some .LD | some .ST => some (getNibbleRange plainCommand 5 0)
  | _ => none

theorem operandAddress_eq_some {c va : Word} : operandAddress c = some va ↔
    (command c = some .LD ∨ command c = some .ST) ∧ getNibbleRange c 5 0 = va := by
  unfold operandAddress
  cases command c with
  | none => simp
  | some op => cases op <;> simp

/-- A store of at most one word. -/
def storeWord (p : Word) : Option Word → Memory → Memory
  | none, m => m
  | some w, m => pmWriteWord m p w

section

variable {F : Set Nat} {m m' : Memory} {p : Word}

theorem storeWord_agree (store : Option Word) (hp : busFrame p ∉ F) :
    AgreeOn F m (storeWord p store m) := by
  cases store with
  | none => exact .refl F m
  | some w => exact pmWriteWord_agree hp

theorem AgreeOn.storeWord (h : AgreeOn F m m') (p : Word) (store : Option Word) :
    AgreeOn F (storeWord p store m) (storeWord p store m') := by
  cases store with
  | none => exact h
  | some w => exact h.pmWriteWord p w

end

/-! ## Instructions -/

section

variable {n : Nat} {t t' : Thread n} {c : Word}

/-- Reference: `__ex_ALU` (`src/executor_s.c:103`). -/
theorem exALU_frame (h : exALU t c = .ok t') :
    t'.memManagUnit = t.memManagUnit ∧ t'.PTBR = t.PTBR := by
  unfold exALU at h
  dsimp only at h
  split at h
  case h_4 =>
    unfold exArithmDiv at h
    split at h
    · cases h
    · cases h
      exact ⟨rfl, rfl⟩
  all_goals
    cases h
    exact ⟨rfl, rfl⟩

/-- Reference: `__ex_CU` (`src/executor_s.c:177`). -/
theorem exCU_frame (t : Thread n) (c : Word) :
    (exCU t c).memManagUnit = t.memManagUnit ∧ (exCU t c).PTBR = t.PTBR := by
  unfold exCU exB exBeq exBgt exBlt exExit
  dsimp only
  split
  case h_6 => exact ⟨rfl, rfl⟩
  all_goals
    try split
    all_goals exact ⟨rfl, rfl⟩

variable [NeZero n] {m m' : Memory} {ret : Int} {va : Word}

/-- An instruction without an operand in memory leaves the memory and the MMU alone and does not
look at the memory. Reference: `__execute` (`src/executor_s.c:42`). -/
theorem execute_local (hop : operandAddress c = none) (h : execute t m c = .ok (ret, t', m')) :
    m' = m ∧ t'.memManagUnit = t.memManagUnit ∧ t'.PTBR = t.PTBR ∧
      ∀ m₂, execute t m₂ c = .ok (ret, t', m₂) := by
  unfold operandAddress at hop
  unfold execute at h ⊢
  cases hc : command c with
  | none =>
    simp only [hc] at h ⊢
    cases h
    exact ⟨rfl, rfl, rfl, fun _ => rfl⟩
  | some op =>
    cases op with
    | LD | ST => simp [hc] at hop
    | B | BEQ | BGT | BLT | EXIT =>
      simp only [hc] at h ⊢
      cases h
      exact ⟨rfl, (exCU_frame _ c).1, (exCU_frame _ c).2, fun _ => rfl⟩
    | ADD | SUB | MUL | DIV | AND | OR | XOR | MOV | CMP =>
      simp only [hc] at h ⊢
      obtain ⟨t₁, halu, hret⟩ := Outcome.bind_eq_ok.1 h
      cases hret
      refine ⟨rfl, (exALU_frame halu).1, (exALU_frame halu).2, fun m₂ => ?_⟩
      rw [halu]
      rfl

/-- An instruction whose operand translates to `p` takes the MMU of that translation and stores at
most one word, at `p`; it depends on the memory through that translation and the word at `p`.
Reference: `__execute` (`src/executor_s.c:42`). -/
theorem execute_memory (m : Memory) (p : Word) (mmu : Mmu n) (hop : operandAddress c = some va) :
    ∃ t' store, t'.memManagUnit = mmu ∧ t'.PTBR = t.PTBR ∧
      ∀ m₂, mmuResolve t.memManagUnit m₂ t.PTBR va = .ok (p, mmu) →
        pmReadWord m₂ p = pmReadWord m p → execute t m₂ c = .ok (0, t', storeWord p store m₂) := by
  obtain ⟨hc | hc, rfl⟩ := operandAddress_eq_some.1 hop
  · refine ⟨({ t.incPC with memManagUnit := mmu } : Thread n).setR (reg c 6) (pmReadWord m p),
      none, rfl, rfl, fun m₂ hres₂ hread => ?_⟩
    have hld : exLD t.incPC m₂ (reg c 6) (getNibbleRange c 5 0) =
        .ok (({ t.incPC with memManagUnit := mmu } : Thread n).setR (reg c 6)
          (pmReadWord m p)) := by
      unfold exLD
      rw [Thread.incPC_memManagUnit, Thread.incPC_PTBR, hres₂, ← hread]
      rfl
    simp [execute, exMEM, hc, hld, storeWord]
  · refine ⟨{ t.incPC with memManagUnit := mmu }, some (t.R (reg c 6)), rfl, rfl,
      fun m₂ hres₂ _ => ?_⟩
    have hst : exST t.incPC m₂ (reg c 6) (getNibbleRange c 5 0) =
        .ok ({ t.incPC with memManagUnit := mmu }, pmWriteWord m₂ p (t.R (reg c 6))) := by
      unfold exST
      rw [Thread.incPC_memManagUnit, Thread.incPC_PTBR, hres₂]
      rfl
    simp [execute, exMEM, hc, hst, storeWord]

/-- An instruction whose operand does not translate does not return. -/
theorem execute_memory_error {e : Fault} (hop : operandAddress c = some va)
    (hres : mmuResolve t.memManagUnit m t.PTBR va = .error e) : execute t m c = .error e := by
  obtain ⟨hc | hc, rfl⟩ := operandAddress_eq_some.1 hop
  · simp [execute, exMEM, exLD, hc, hres]
  · simp [execute, exMEM, exST, hc, hres]

end

/-! ## Steps -/

section

variable {n : Nat} [NeZero n]

/-- The virtual addresses that a step translates, with what `mmu_resolve` answers: the instruction's
and, once it is fetched, its operand's. -/
def translations (t : Thread n) (m : Memory) : List (Word × Outcome Word) :=
  match mmuResolve t.memManagUnit m t.PTBR t.PC with
  | .error e => [(t.PC, .error e)]
  | .ok (p, mmu) =>
    (t.PC, .ok p) :: (operandAddress (pmReadWord m p)).toList.map
      fun va => (va, (mmuResolve mmu m t.PTBR va).map (·.1))

/-- The instruction word that the thread's own table leads to. -/
def fetched (t : Thread n) (m : Memory) : Word := pmReadWord m (physicalAddress m t.PTBR t.PC)

/-- The MMU after the instruction fetch. -/
def fetchMmu (t : Thread n) (m : Memory) : Mmu n :=
  t.memManagUnit.fill t.PC (pageFrame m t.PTBR (pageNumber t.PC))

/-- The step's virtual pages are pages of its table. -/
def PagesInTable (t : Thread n) (m : Memory) : Prop :=
  ∀ x ∈ translations t m, pageNumber x.1 < pmReadWord m t.PTBR

instance (t : Thread n) (m : Memory) : Decidable (PagesInTable t m) :=
  inferInstanceAs (Decidable (∀ x ∈ translations t m, pageNumber x.1 < pmReadWord m t.PTBR))

/-- The step's translations follow the thread's own page table. -/
structure OnTable (t : Thread n) (m : Memory) : Prop where
  fetchPage : pageNumber t.PC < pmReadWord m t.PTBR
  fetch : NotStale t.memManagUnit m t.PTBR t.PC
  operandPage : ∀ va, operandAddress (fetched t m) = some va → pageNumber va < pmReadWord m t.PTBR
  operand : ∀ va, operandAddress (fetched t m) = some va → NotStale (fetchMmu t m) m t.PTBR va

variable {t t' : Thread n} {m m' m₂ : Memory} {ret : Int}

theorem fetch_of_notStale (hpage : pageNumber t.PC < pmReadWord m t.PTBR)
    (h : NotStale t.memManagUnit m t.PTBR t.PC) :
    mmuResolve t.memManagUnit m t.PTBR t.PC =
      .ok (physicalAddress m t.PTBR t.PC, fetchMmu t m) :=
  mmuResolve_of_notStale h hpage

/-- When the fetch follows the thread's own table, the step translates the operand of the
instruction there. -/
theorem translations_of_notStale (hpage : pageNumber t.PC < pmReadWord m t.PTBR)
    (h : NotStale t.memManagUnit m t.PTBR t.PC) :
    translations t m = (t.PC, .ok (physicalAddress m t.PTBR t.PC)) ::
      (operandAddress (fetched t m)).toList.map
        fun va => (va, (mmuResolve (fetchMmu t m) m t.PTBR va).map (·.1)) := by
  unfold translations
  rw [fetch_of_notStale hpage h]
  rfl

/-- The instruction fetch fills its page's slot only: it evicts an entry of another page there. -/
theorem notStale_fetchMmu_iff (h : NotStale t.memManagUnit m t.PTBR t.PC) (va : Word) :
    NotStale (fetchMmu t m) m t.PTBR va ↔
      (tlbHash n va ≠ tlbHash n t.PC → NotStale t.memManagUnit m t.PTBR va) := by
  unfold fetchMmu Mmu.fill
  cases hmatch : tlbGetMatch t.memManagUnit t.PC with
  | some e =>
    constructor
    · intro hva _
      exact hva
    · intro hva e' he'
      by_cases hslot : tlbHash n va = tlbHash n t.PC
      · have hpage := pageNumber_eq_of_match hslot he' hmatch
        rw [hpage]
        exact h e' (tlbGetMatch_congr t.memManagUnit hpage ▸ he')
      · exact hva hslot e' he'
  | none =>
    by_cases hslot : tlbHash n va = tlbHash n t.PC
    · refine iff_of_true ?_ fun hne => absurd hslot hne
      intro e he
      rw [tlbGetMatch_tlbAddEntry, if_pos hslot] at he
      split at he
      · next hpage =>
        cases he
        rw [hpage]
        exact and_not_frameOffsetMask_idem _
      · cases he
    · unfold NotStale
      dsimp only
      simp only [tlbGetMatch_tlbAddEntry, if_neg hslot]
      exact ⟨fun hva _ => hva, fun hva => hva hslot⟩

/-- A TLB entry for the fetched page answers the fetch. -/
theorem exists_mem_translations_of_match {e : Pte} (he : tlbGetMatch t.memManagUnit t.PC = some e) :
    ∃ p, (t.PC, .ok p) ∈ translations t m ∧ busFrame p = busFrame e.physicalAddress := by
  unfold translations
  rw [mmuResolve_of_match he]
  exact ⟨_, List.mem_cons_self, busFrame_join _ _⟩

/-- A TLB entry in another slot than the fetched page's answers the operand. -/
theorem translation_of_match {e : Pte} (hpage : pageNumber t.PC < pmReadWord m t.PTBR)
    (h : NotStale t.memManagUnit m t.PTBR t.PC) {x : Word × Outcome Word}
    (hx : x ∈ translations t m) (hslot : tlbHash n x.1 ≠ tlbHash n t.PC)
    (he : tlbGetMatch t.memManagUnit x.1 = some e) :
    ∃ p, x.2 = .ok p ∧ busFrame p = busFrame e.physicalAddress := by
  rw [translations_of_notStale hpage h] at hx
  rcases List.mem_cons.1 hx with rfl | hx
  · exact absurd rfl hslot
  · obtain ⟨va, -, rfl⟩ := List.mem_map.1 hx
    rw [← tlbGetMatch_fill_of_ne hslot] at he
    refine ⟨_, ?_, busFrame_join e.physicalAddress va⟩
    unfold fetchMmu
    rw [mmuResolve_of_match he]
    rfl

/-- No page that the step translates has a stale TLB entry when it is translated: the fetched page
has none, and neither has the operand's unless the fetch evicts it. -/
def Fresh (t : Thread n) (m : Memory) : Prop :=
  NotStale t.memManagUnit m t.PTBR t.PC ∧
    ∀ x ∈ translations t m, tlbHash n x.1 ≠ tlbHash n t.PC →
      NotStale t.memManagUnit m t.PTBR x.1

instance (t : Thread n) (m : Memory) : Decidable (Fresh t m) :=
  inferInstanceAs (Decidable (_ ∧ ∀ x ∈ translations t m, _ → NotStale _ _ _ x.1))

theorem exists_mem_translations (t : Thread n) (m : Memory) :
    ∃ o, (t.PC, o) ∈ translations t m := by
  unfold translations
  split
  · next e _ => exact ⟨.error e, List.mem_singleton_self _⟩
  · next p _ _ => exact ⟨.ok p, List.mem_cons_self⟩

theorem PagesInTable.fetchPage (h : PagesInTable t m) : pageNumber t.PC < pmReadWord m t.PTBR := by
  obtain ⟨o, ho⟩ := exists_mem_translations t m
  exact h (t.PC, o) ho

/-- A step that meets no stale entry is on its own table. -/
theorem PagesInTable.onTable (h : PagesInTable t m) (hfresh : Fresh t m) : OnTable t m := by
  have htrans := translations_of_notStale h.fetchPage hfresh.1
  have hmem (va : Word) (hop : operandAddress (fetched t m) = some va) :
      ∃ o, (va, o) ∈ translations t m := by
    rw [htrans, hop]
    exact ⟨_, List.mem_cons_of_mem _ (List.mem_singleton_self _)⟩
  refine ⟨h.fetchPage, hfresh.1, ?_, ?_⟩
  · intro va hop
    obtain ⟨o, ho⟩ := hmem va hop
    exact h (va, o) ho
  · intro va hop
    obtain ⟨o, ho⟩ := hmem va hop
    exact (notStale_fetchMmu_iff hfresh.1 va).2 (hfresh.2 (va, o) ho)

/-- Every address that a step on its own table translates lies in a frame of that table. -/
theorem OnTable.confined (h : OnTable t m) {x : Word × Outcome Word} (hx : x ∈ translations t m) :
    ∃ p, x.2 = .ok p ∧ busFrame p ∈ listedFrames m t.PTBR := by
  rw [translations_of_notStale h.fetchPage h.fetch] at hx
  rcases List.mem_cons.1 hx with rfl | hx
  · exact ⟨_, rfl, busFrame_physicalAddress_mem h.fetchPage⟩
  · obtain ⟨va, hop, rfl⟩ := List.mem_map.1 hx
    rw [Option.mem_toList] at hop
    rw [mmuResolve_of_notStale (h.operand va hop) (h.operandPage va hop)]
    exact ⟨_, rfl, busFrame_physicalAddress_mem (h.operandPage va hop)⟩

/-- What a step on its own table does: it stores at most one word, in a frame of its table, adds TLB
entries of its table only, and does the same on any memory with the same frames and table.
Reference: `execute_current` (`src/executor_s.c:35`). -/
theorem executeCurrent_onTable (h : OnTable t m) (hex : executeCurrent t m = .ok (ret, t', m')) :
    ∃ p store, busFrame p ∈ listedFrames m t.PTBR ∧ m' = storeWord p store m ∧ t'.PTBR = t.PTBR ∧
      (∀ va e, tlbGetMatch t'.memManagUnit va = some e →
        tlbGetMatch t.memManagUnit va = some e ∨ (pageNumber va < pmReadWord m t.PTBR ∧
          e.physicalAddress = pageFrame m t.PTBR (pageNumber va))) ∧
      ∀ m₂, AgreeOn (listedFrames m t.PTBR ∪ tableFrames m t.PTBR) m m₂ →
        executeCurrent t m₂ = .ok (ret, t', storeWord p store m₂) := by
  have hfetch := fetch_of_notStale h.fetchPage h.fetch
  -- on a memory with the same frames and table the fetch gives the same instruction
  have hfetch₂ (m₂ : Memory)
      (hm : AgreeOn (listedFrames m t.PTBR ∪ tableFrames m t.PTBR) m m₂) :
      executeCurrent t m₂ =
        execute { t with memManagUnit := fetchMmu t m, IR := fetched t m } m₂ (fetched t m) := by
    unfold executeCurrent
    rw [mmuResolve_congr h.fetch h.fetchPage (hm.mono Set.subset_union_right), hfetch]
    have hread := pmReadWord_congr hm (.inl (busFrame_physicalAddress_mem h.fetchPage))
    simp only [Outcome.ok_bind, ← hread]
    rfl
  rw [hfetch₂ m (.refl _ _)] at hex
  cases hop : operandAddress (fetched t m) with
  | none =>
    obtain ⟨hm', hmmu, hptbr, hsame⟩ := execute_local hop hex
    refine ⟨_, none, busFrame_physicalAddress_mem h.fetchPage, hm', hptbr, ?_, fun m₂ hm => ?_⟩
    · intro va e he
      rw [hmmu] at he
      exact tlbGetMatch_fill h.fetchPage he
    · rw [hfetch₂ m₂ hm, hsame m₂]
      rfl
  | some va =>
    have hva := h.operandPage va hop
    have hres := mmuResolve_of_notStale (h.operand va hop) hva
    obtain ⟨t₁, store, hmmu, hptbr, hsame⟩ := execute_memory (t := { t with
      memManagUnit := fetchMmu t m, IR := fetched t m }) m (physicalAddress m t.PTBR va)
      ((fetchMmu t m).fill va (pageFrame m t.PTBR (pageNumber va))) hop
    rw [hsame m hres rfl] at hex
    cases hex
    refine ⟨_, store, busFrame_physicalAddress_mem hva, rfl, hptbr, ?_, fun m₂ hm => ?_⟩
    · intro va' e he
      rw [hmmu] at he
      rcases tlbGetMatch_fill hva he with he | he
      · exact tlbGetMatch_fill h.fetchPage he
      · exact .inr he
    · rw [hfetch₂ m₂ hm]
      refine hsame m₂ ?_ ?_
      · rw [← hres]
        exact mmuResolve_congr (h.operand va hop) hva (hm.mono Set.subset_union_right)
      · exact (pmReadWord_congr hm (.inl (busFrame_physicalAddress_mem hva))).symm

end

end SeKernel
