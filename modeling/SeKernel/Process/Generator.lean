import SeKernel.Loader.Runs
import SeKernel.Scheduler.Identity

/-!
# The process generator

The generator queues processes without a program, under pids that count up from 0. `MIN_PID` and
`MAX_PID` are kept and never read. In every run of the generator and the scheduler a process that
lives is the one of one call, and has the pid, the priority and the memory map that this call gave
it (`prgenerator_run_processes`).
-/

namespace SeKernel

open Ledger

/-- The scheduler is an argument of its own. Reference: `struct pr_generator_s`
(`headers/processgenerator.h:6`). -/
structure PrGenerator where
  maxPid : Int
  minPid : Int
  maxPrio : Int
  currentCounter : Int

/-- Reference: `process_generator_init` (`src/processgenerator.c:6`). -/
def processGeneratorInit (maxPid minPid maxPrio : Int) : PrGenerator where
  maxPid := maxPid
  minPid := minPid
  maxPrio := maxPrio
  currentCounter := 0

/-- Reference: `prgen_get_valid_pid` (`src/processgenerator.c:14`). -/
def prgenGetValidPid (prGen : PrGenerator) : Int × PrGenerator :=
  let currentCounter := (BitVec.ofInt 32 (prGen.currentCounter + 1)).toInt
  (prGen.currentCounter,
    { prGen with currentCounter := if currentCounter < 0 then 1 else currentCounter })

/-- Reference: `prgen_get_valid_priority` (`src/processgenerator.c:23`). -/
def prgenGetValidPriority (prGen : PrGenerator) (rand : Int) : Outcome Int :=
  if prGen.maxPrio = 0 then throw .arith else return rand.tmod prGen.maxPrio

/-- What a call of `prgenerator_generate_process` is answered: the pointer from `malloc`, if it is
not `NULL`, what is in that memory, and the number from `rand`. -/
structure GenerateCall (ι : Type) where
  newPcb : Option ι
  uninitialised : Pcb
  rand : Int

/-- What `prgenerator_generate_process` prints before `exit(1)`. -/
def generateFailed : Fault :=
  .err 1 "Error: malloc failed in prgenerator_generate_process\n"

variable {ι τ : Type} [DecidableEq ι] {k n : Nat}

/-- Reference: `prgenerator_generate_process` (`src/processgenerator.c:27`). -/
def prgeneratorGenerateProcess (call : GenerateCall ι) (prGen : PrGenerator)
    (sched : Sched ι τ k n) : Outcome (PrGenerator × Sched ι τ k n) := do
  let (newPid, prGen) := prgenGetValidPid prGen
  let newPrio ← prgenGetValidPriority prGen call.rand
  match call.newPcb with
  | none => throw generateFailed
  | some i =>
    if (sched.pcbs (.pcb i)).isSome then
      throw .mallocInUse
    else do
      let pcb := pcbInit call.uninitialised newPid newPrio
      let sched ← schedAddToProcessQueue
        { sched with pcbs := sched.pcbs.write (.pcb i) pcb } (.pcb i)
      return (prGen, sched)

/-- A call of the generator, or a pass of the scheduler. -/
inductive GeneratorStep (ι : Type)
  | generate (call : GenerateCall ι)
  | execute

def GeneratorStep.exec [DecidableEq τ] (s : PrGenerator × Sched ι τ k n) :
    GeneratorStep ι → Outcome (PrGenerator × Sched ι τ k n)
  | .generate call => prgeneratorGenerateProcess call s.1 s.2
  | .execute => do
    let sched ← schedExecute s.2
    return (s.1, sched)

/-- The calls of the generator among the steps. -/
def generateCalls (steps : List (GeneratorStep ι)) : List (GenerateCall ι) :=
  steps.filterMap fun
    | .generate call => some call
    | .execute => none

/-! ## Pids -/

/-- The pid of the `q`-th call: after the greatest `int` the pids start again at 1, not at 0. -/
def generatorPid (q : Nat) : Int := if q = 0 then 0 else pidAfter 0 q

theorem generatorPid_of_lt {q : Nat} (hq : q < 2 ^ 31) : generatorPid q = q := by
  unfold generatorPid pidAfter
  split <;> omega

/-- Reference: `prgen_get_valid_pid` (`src/processgenerator.c:14`). -/
theorem prgenGetValidPid_eq {prGen : PrGenerator} {q : Nat}
    (h : prGen.currentCounter = generatorPid q) :
    prgenGetValidPid prGen = (generatorPid q,
      { prGen with currentCounter := generatorPid (q + 1) }) := by
  unfold prgenGetValidPid
  rw [h]
  have hbounds : 0 ≤ generatorPid q ∧ generatorPid q ≤ 0x7FFFFFFF := by
    unfold generatorPid pidAfter
    split <;> omega
  have hnext : (if (BitVec.ofInt 32 (generatorPid q + 1)).toInt < 0 then 1
      else (BitVec.ofInt 32 (generatorPid q + 1)).toInt) = generatorPid (q + 1) := by
    by_cases hlast : generatorPid q = 0x7FFFFFFF
    · have hwrap : generatorPid (q + 1) = 1 := by
        unfold generatorPid pidAfter at hlast ⊢
        split at hlast <;> simp <;> omega
      rw [hlast, hwrap]
      rfl
    · rw [BitVec.toInt_ofInt, Int.bmod_eq_of_le (by omega) (by omega), if_neg (by omega)]
      unfold generatorPid pidAfter at hlast ⊢
      split at hlast <;> simp <;> omega
  dsimp only
  rw [hnext]

/-! ## Runs -/

/-- What steps make of the processes: the `q`-th call has entered its process with the `q`-th
pid. -/
structure PrGenerator.Generates (start : PrGenerator) (calls : List (GenerateCall ι))
    (sched : Sched ι τ k n) (entries : List (ι × Identity)) (prGen : PrGenerator)
    (sched' : Sched ι τ k n) : Prop where
  entered : Entered Pcb.identity sched.processes entries sched'.processes
  length : entries.length = calls.length
  counter : prGen.currentCounter = generatorPid calls.length
  maxPrio : prGen.maxPrio = start.maxPrio
  entry : ∀ (q : Nat) e, entries[q]? = some e → ∃ call, calls[q]? = some call ∧
    call.newPcb = some e.1 ∧ e.2 = ⟨generatorPid q, call.rand.tmod start.maxPrio,
      call.uninitialised.memoryMap⟩

variable {start prGen prGen' : PrGenerator} {sched sched' t : Sched ι τ k n}
  {calls : List (GenerateCall ι)} {entries : List (ι × Identity)} {call : GenerateCall ι}

/-- A call of the generator. -/
theorem PrGenerator.Generates.generate (h : start.Generates calls sched entries prGen t)
    (hcall : prgeneratorGenerateProcess call prGen t = .ok (prGen', sched')) :
    ∃ e, start.Generates (calls ++ [call]) sched (entries ++ [e]) prGen' sched' := by
  unfold prgeneratorGenerateProcess at hcall
  rw [prgenGetValidPid_eq h.counter] at hcall
  obtain ⟨priority, hpriority, hcall⟩ := Outcome.bind_eq_ok.1 hcall
  have hrand : priority = call.rand.tmod start.maxPrio := by
    unfold prgenGetValidPriority at hpriority
    split at hpriority
    · cases hpriority
    · cases hpriority
      rw [← h.maxPrio]
  cases hpcb : call.newPcb with
  | none =>
    rw [hpcb] at hcall
    cases hcall
  | some i =>
    rw [hpcb] at hcall
    dsimp only at hcall
    split at hcall
    · cases hcall
    · obtain ⟨u, hadd, hret⟩ := Outcome.bind_eq_ok.1 hcall
      cases hret
      let pcb := pcbInit call.uninitialised (generatorPid calls.length) priority
      have hwritten : Entered Pcb.identity t.processes [(i, pcb.identity)]
          (Function.update t.processes i (some pcb)) := .of_update _ _ _ _
      have hprocesses : Function.update t.processes i (some pcb) =
          ({ t with pcbs := t.pcbs.write (.pcb i) pcb } : Sched ι τ k n).processes :=
        (Function.update_comp_eq_of_injective _ (fun _ _ => PcbPtr.pcb.inj) _ _).symm
      rw [hprocesses] at hwritten
      have hadded := (schedAddToProcessQueue_keepsIdentity hadd).processes
      refine ⟨(i, pcb.identity), h.entered.trans (hwritten.trans hadded), ?_, ?_, h.maxPrio, ?_⟩
      · rw [List.length_append, List.length_append, h.length]
        rfl
      · rw [List.length_append]
        rfl
      · intro q e hq
        rcases getElem?_concat_eq_some.1 hq with hq | ⟨rfl, rfl⟩
        · obtain ⟨call', hcall', hrest⟩ := h.entry q e hq
          exact ⟨call', getElem?_concat_eq_some.2 (.inl hcall'), hrest⟩
        · refine ⟨call, getElem?_concat_eq_some.2 (.inr ⟨h.length, rfl⟩), hpcb, ?_⟩
          rw [h.length, ← hrand]
          rfl

variable [DecidableEq τ]

/-- Any number of steps. -/
theorem PrGenerator.generates_of_run {steps : List (GeneratorStep ι)}
    {s' : PrGenerator × Sched ι τ k n} (hcounter : start.currentCounter = 0)
    (h : Lts.Steps (fun s step s' => GeneratorStep.exec s step = .ok s') (start, sched) steps s') :
    ∃ entries, start.Generates (generateCalls steps) sched entries s'.1 s'.2 := by
  induction h with
  | refl => exact ⟨[], .refl _ _, rfl, hcounter, rfl, by simp⟩
  | @tail steps u s' step _ hlast ih =>
    obtain ⟨entries, hentries⟩ := ih
    unfold generateCalls at hentries ⊢
    rw [List.filterMap_append]
    cases step with
    | generate call =>
      obtain ⟨e, he⟩ := hentries.generate hlast
      exact ⟨entries ++ [e], he⟩
    | execute =>
      obtain ⟨v, hpass, hret⟩ := Outcome.bind_eq_ok.1 hlast
      cases hret
      have hkept := hentries.entered.trans (schedExecute_keepsIdentity hpass).processes
      rw [List.append_nil] at hkept
      refine ⟨entries, hkept, ?_, ?_, hentries.maxPrio, ?_⟩
      · simpa using hentries.length
      · simpa using hentries.counter
      · simpa using hentries.entry

/-- A scheduler with one idle core and no processes. -/
def oneIdleCore : Sched Bool Unit 1 20 where
  currentPolicy := schedFifo
  schedulerQueueIObject := rqSimpleFifoISchedImplement ⟨0, []⟩
  timerTickFreq := 0
  coreControlArray _ := ⟨(), none, 0, nullProcessRun⟩
  pcbs
    | .nullProcess => some zeroPcb
    | .pcb _ => none
  threads _ := ⟨0, 0, 0, fun _ => 0, 0, tlbFlush 20⟩

end SeKernel
