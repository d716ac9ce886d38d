import SeKernel.Cpu.Steps
import SeKernel.Lib.Machine

/-!
# Threads do not interfere

A family of hardware threads shares one memory and each steps when it likes. If the frames that
their page tables list are disjoint, from each other and from all the tables' words, a thread cannot
tell its share of the run from a run alone: same registers, same TLB, same bytes in its frames.
-/

namespace SeKernel

variable {ι : Type} {n : ι → Nat}

/-- Threads and the memory they share. Reference: `execute_all` (`src/executor_s.c:22`). -/
structure Threads (n : ι → Nat) where
  thread : (x : ι) → Thread (n x)
  memory : Memory

/-- The frames that thread `x`'s page table lists. -/
def Threads.listed (s : Threads n) (x : ι) : Set Nat := listedFrames s.memory (s.thread x).PTBR

/-- The frames that hold thread `x`'s page table. -/
def Threads.table (s : Threads n) (x : ι) : Set Nat := tableFrames s.memory (s.thread x).PTBR

/-- Inactive TLBs and page tables whose frames are kept apart from each other and from the tables'
own words. -/
structure Threads.Separate (s : Threads n) : Prop where
  inactive : ∀ x i, ((s.thread x).memManagUnit.tlbHashArr i).active = false
  apart : TablesApart s.memory fun x => (s.thread x).PTBR

variable [∀ x, NeZero (n x)]

/-- Thread `x` takes one instruction. -/
def Threads.step [DecidableEq ι] (x : ι) (s : Threads n) : Outcome (Int × Threads n) := do
  let (ret, t, memory) ← executeCurrent (s.thread x) s.memory
  return (ret, ⟨Function.update s.thread x t, memory⟩)

/-- A thread alone takes one instruction. -/
def soloStep {k : Nat} [NeZero k] (_ : Unit) (s : Thread k × Memory) :
    Outcome (Int × Thread k × Memory) := executeCurrent s.1 s.2

/-! ## The invariant -/

/-- What a run from `s₀` keeps: each thread's table, its base register, and a TLB with entries of
that table only. -/
structure Threads.Inv (s₀ s : Threads n) : Prop where
  ptbr : ∀ x, (s.thread x).PTBR = (s₀.thread x).PTBR
  table : ∀ x, AgreeOn (s₀.table x) s₀.memory s.memory
  tlb : ∀ x va e, tlbGetMatch (s.thread x).memManagUnit va = some e →
    pageNumber va < pmReadWord s₀.memory (s₀.thread x).PTBR →
    e.physicalAddress = pageFrame s₀.memory (s₀.thread x).PTBR (pageNumber va)

variable {s₀ s s' : Threads n} {x : ι} {ret : Int}

theorem Threads.Separate.inv (h : s₀.Separate) : Threads.Inv s₀ s₀ where
  ptbr _ := rfl
  table _ := .refl _ _
  tlb x va e he := by
    unfold tlbGetMatch at he
    simp [h.inactive x] at he

theorem Threads.Inv.listed_eq (h : Threads.Inv s₀ s) (x : ι) : s.listed x = s₀.listed x := by
  unfold Threads.listed
  rw [h.ptbr x]
  exact listedFrames_congr (h.table x)

theorem Threads.Inv.table_eq (h : Threads.Inv s₀ s) (x : ι) : s.table x = s₀.table x := by
  unfold Threads.table
  rw [h.ptbr x]
  exact tableFrames_congr (h.table x)

/-- The TLB agrees with the table for every page of the table. -/
theorem Threads.Inv.notStale (h : Threads.Inv s₀ s) {va : Word}
    (hva : pageNumber va < pmReadWord s.memory (s.thread x).PTBR) :
    NotStale (s.thread x).memManagUnit s.memory (s.thread x).PTBR va := by
  intro e he
  rw [h.ptbr x] at hva ⊢
  rw [entryCount_congr (h.table x)] at hva
  rw [pageFrame_congr (h.table x) hva]
  exact h.tlb x va e he hva

theorem Threads.Inv.onTable (h : Threads.Inv s₀ s)
    (hpages : PagesInTable (s.thread x) s.memory) : OnTable (s.thread x) s.memory :=
  hpages.onTable ⟨h.notStale hpages.fetchPage, fun y hy _ => h.notStale (hpages y hy)⟩

variable [DecidableEq ι]

/-- A step of thread `x` stores at most one word, in a frame of `x`, and does the same on any memory
with the frames and the table of `x`. -/
theorem Threads.Inv.step_cases (h : Threads.Inv s₀ s) (hpages : PagesInTable (s.thread x) s.memory)
    (hstep : s.step x = .ok (ret, s')) :
    ∃ t p store, busFrame p ∈ s₀.listed x ∧
      s' = ⟨Function.update s.thread x t, storeWord p store s.memory⟩ ∧
      t.PTBR = (s.thread x).PTBR ∧
      (∀ va e, tlbGetMatch t.memManagUnit va = some e →
        tlbGetMatch (s.thread x).memManagUnit va = some e ∨
          e.physicalAddress = pageFrame s₀.memory (s₀.thread x).PTBR (pageNumber va)) ∧
      ∀ m₂, AgreeOn (s₀.listed x ∪ s₀.table x) s.memory m₂ →
        executeCurrent (s.thread x) m₂ = .ok (ret, t, storeWord p store m₂) := by
  unfold Threads.step at hstep
  obtain ⟨⟨r, t, m'⟩, hex, hret⟩ := Outcome.bind_eq_ok.1 hstep
  obtain ⟨p, store, hp, rfl, hptbr, htlb, hsame⟩ := executeCurrent_onTable (h.onTable hpages) hex
  cases hret
  rw [← h.listed_eq x, ← h.table_eq x]
  refine ⟨t, p, store, hp, rfl, hptbr, ?_, hsame⟩
  intro va e he
  rcases htlb va e he with hold | ⟨hva, hframe⟩
  · exact .inl hold
  · rw [h.ptbr x, entryCount_congr (h.table x)] at hva
    rw [h.ptbr x, pageFrame_congr (h.table x) hva] at hframe
    exact .inr hframe

/-- A step of any thread keeps the invariant. -/
theorem Threads.Inv.step (hsep : s₀.Separate) (h : Threads.Inv s₀ s)
    (hpages : PagesInTable (s.thread x) s.memory) (hstep : s.step x = .ok (ret, s')) :
    Threads.Inv s₀ s' := by
  obtain ⟨t, p, store, hp, rfl, hptbr, htlb, -⟩ := h.step_cases hpages hstep
  refine ⟨?_, ?_, ?_⟩
  · intro y
    by_cases hyx : y = x
    · subst hyx
      simpa [hptbr] using h.ptbr y
    · simpa [hyx] using h.ptbr y
  · intro y
    have hout : busFrame p ∉ s₀.table y := Set.disjoint_left.1 (hsep.apart.tables x y) hp
    exact (h.table y).trans (storeWord_agree store hout)
  · intro y va e he hva
    by_cases hyx : y = x
    · subst hyx
      simp only [Function.update_self] at he
      rcases htlb va e he with hold | hframe
      · exact h.tlb y va e hold hva
      · exact hframe
    · simp only [Function.update_of_ne hyx] at he
      exact h.tlb y va e he hva

/-! ## The run of one thread -/

/-- Thread `x` of the shared state and a thread alone are in step: same registers and TLB, same
bytes in the thread's frames and table. -/
def Threads.InStep (s₀ : Threads n) (x : ι) (s : Threads n) (solo : Thread (n x) × Memory) : Prop :=
  Threads.Inv s₀ s ∧ s.thread x = solo.1 ∧
    AgreeOn (s₀.listed x ∪ s₀.table x) s.memory solo.2

/-- The steps of `x` among those of all threads. -/
def ownSteps (x y : ι) : List Unit := if y = x then [()] else []

/-- A step of `x` is a step of the thread alone; a step of another thread is none. -/
theorem Threads.InStep.step (hsep : s₀.Separate) {y : ι} {solo : Thread (n x) × Memory}
    (h : Threads.InStep s₀ x s solo) (hpages : PagesInTable (s.thread y) s.memory)
    (hstep : s.step y = .ok (ret, s')) :
    ∃ rets solo', Machine.run soloStep (ownSteps x y) solo = .ok (rets, solo') ∧
      Threads.InStep s₀ x s' solo' := by
  obtain ⟨solo, m₂⟩ := solo
  obtain ⟨hinv, hthread, hagree⟩ := h
  dsimp only at hthread hagree
  subst hthread
  have hinv' := hinv.step hsep hpages hstep
  obtain ⟨t, p, store, hp, rfl, -, -, hsame⟩ := hinv.step_cases hpages hstep
  by_cases hyx : y = x
  · subst hyx
    refine ⟨[ret], (t, storeWord p store m₂), ?_, hinv', by simp, hagree.storeWord p store⟩
    rw [ownSteps, if_pos rfl]
    simp [Machine.run, soloStep, hsame m₂ hagree]
  · refine ⟨[], (s.thread x, m₂), by rw [ownSteps, if_neg hyx]; rfl, hinv', ?_, ?_⟩
    · simp [Ne.symm hyx]
    · have hout : busFrame p ∉ s₀.listed x ∪ s₀.table x := by
        intro hmem
        rcases hmem with hmem | hmem
        · exact Set.disjoint_left.1 (hsep.apart.frames y x hyx) hp hmem
        · exact Set.disjoint_left.1 (hsep.apart.tables y x) hp hmem
      exact (storeWord_agree store hout).symm.trans hagree

omit [∀ x, NeZero (n x)] in
theorem flatMap_ownSteps (x : ι) (xs : List ι) :
    xs.flatMap (ownSteps x) = List.replicate (xs.count x) () := by
  induction xs with
  | nil => rfl
  | cons y xs ih =>
    rw [List.flatMap_cons, ih, List.count_cons, ownSteps]
    by_cases hyx : y = x
    · simp [hyx, List.replicate_succ]
    · simp [hyx]

/-- In every interleaving without faults, each step inside its own page table, every thread has the
registers and the TLB, and its frames the bytes, that its own steps alone would give. Reference:
`execute_current` (`src/executor_s.c:35`). -/
theorem threads_do_not_interfere {s₀ s : Threads n} (hsep : s₀.Separate) {xs : List ι}
    {rets : List Int}
    (hpages : Machine.Meets Threads.step (fun x s => PagesInTable (s.thread x) s.memory) xs s₀)
    (hrun : Machine.run Threads.step xs s₀ = .ok (rets, s)) (x : ι) :
    ∃ rets' m, Machine.run soloStep (List.replicate (xs.count x) ()) (s₀.thread x, s₀.memory) =
        .ok (rets', s.thread x, m) ∧
      AgreeOn (s₀.listed x) s.memory m := by
  have hinit : Threads.InStep s₀ x s₀ (s₀.thread x, s₀.memory) := ⟨hsep.inv, rfl, .refl _ _⟩
  obtain ⟨rets', ⟨t, m⟩, hsolo, -, rfl, hagree⟩ := Machine.run_projects
    (fun y s o s' solo h hpages hstep => h.step hsep hpages hstep) hinit hpages hrun
  rw [flatMap_ownSteps] at hsolo
  exact ⟨rets', m, hsolo, hagree.mono Set.subset_union_left⟩

/-- A thread on each of two page tables of one page, with 7 in `R0` and 9 in the other registers. -/
def twoThreads : Threads (fun _ : Bool => 1) where
  thread x := ⟨0, 0, twoPgb x, fun r => if r.val = 0 then 7 else 9, 0, tlbFlush 1⟩
  memory := twoTables

theorem twoThreads_separate : twoThreads.Separate := ⟨fun _ _ => rfl, twoTables_apart⟩

/-- The first thread stores 7 at virtual address 8, then the second one loads from there into `R15`:
it loads the 0 of its own frame, as it would have alone. -/
theorem threads_do_not_interfere_two : ∃ rets s rets' m,
    Machine.run Threads.step [false, true] twoThreads = .ok (rets, s) ∧
    Machine.run soloStep [()] (twoThreads.thread true, twoTables) = .ok (rets', s.thread true, m) ∧
    AgreeOn (twoThreads.listed true) s.memory m ∧
    pmReadWord s.memory 0x400008 = 7 ∧ (s.thread true).PC = 4 ∧ (s.thread true).R 15 = 0 := by
  have hpages : Machine.Meets Threads.step (fun x s => PagesInTable (s.thread x) s.memory)
      [false, true] twoThreads :=
    .cons (by decide) rfl <| .cons (by decide) rfl trivial
  obtain ⟨rets', m, hsolo, hagree⟩ := threads_do_not_interfere twoThreads_separate hpages rfl true
  exact ⟨_, _, rets', m, rfl, hsolo, hagree, by decide, by decide, by decide⟩

end SeKernel
