import SeKernel.Clock.Basic
import SeKernel.Lib.Counting
import SeKernel.Lib.Lts
import Mathlib.Data.Int.ModEq
import Mathlib.Data.Fin.VecNotation
import Mathlib.Data.Fintype.Basic

/-!
# The clock's barrier

Over every run of the clock and any finite family of timers, `timer_tick_consumed_cont` and
`timer_total_cont` count exactly the parked and the registered timers, and a timer has ticked in the
current cycle exactly when it is parked (`ClkClock.Barrier`). The clock therefore broadcasts only
when every registered timer has ticked once. Each timer on its own fires on the multiples of its
frequency (`ClkTimer.OnSchedule`).
-/

namespace SeKernel

open Counting

section

variable {ι : Type} [Fintype ι]

/-- The counters are exact, and the parked timers are those that have ticked in this cycle. -/
structure ClkClock.Barrier (s : ClkClock ι) : Prop where
  consumed : s.timerTickConsumedCont = count ClkTimer.parked s.timers
  total : s.timerTotalCont = count ClkTimer.registered s.timers
  ticked : ∀ j, (s.timers j).cycleTicks = if (s.timers j).parked then 1 else 0

/-- The clock's loop is about to broadcast. -/
def ClkClock.broadcasts (s : ClkClock ι) : Prop := s.phase = .running ∧ ¬ s.mustWait

omit [Fintype ι] in
theorem ClkTimer.registered_of_parked {t : ClkTimer} (h : t.parked) : t.registered := by
  simp_all [ClkTimer.parked, ClkTimer.registered]

/-- When the clock broadcasts, every registered timer is parked, so it has ticked once. -/
theorem ClkClock.Barrier.ticked_once {s : ClkClock ι} (h : s.Barrier) (hb : s.broadcasts) (j : ι)
    (hj : (s.timers j).registered) : (s.timers j).cycleTicks = 1 := by
  have hwait := hb.2
  simp only [ClkClock.mustWait, decide_eq_true_eq, not_or, Int.not_lt] at hwait
  have hle : count ClkTimer.registered s.timers ≤ count ClkTimer.parked s.timers := by
    rw [← h.consumed, ← h.total]
    exact hwait.1
  have hparked := of_count_le (fun j => ClkTimer.registered_of_parked) hle j hj
  rw [h.ticked j, if_pos hparked]

/-- Reference: `clk_clock_init` (`src/clock.c:52`). -/
theorem clkClockInit_barrier (freq : ι → Int) : (clkClockInit freq).Barrier where
  consumed := by simp [clkClockInit, clkTimerInit, count, ClkTimer.parked]
  total := by simp [clkClockInit, clkTimerInit, count, ClkTimer.registered]
  ticked j := by simp [clkClockInit, clkTimerInit, ClkTimer.parked]

end

section

variable {ι : Type} [Fintype ι] [DecidableEq ι]

/-- A timer that moves keeps the barrier when the counters follow its move. -/
theorem ClkClock.Barrier.update {s : ClkClock ι} (h : s.Barrier) (phase : ClkPhase) (j : ι)
    {t : ClkTimer} {consumed total : Int}
    (hconsumed : consumed = s.timerTickConsumedCont + (if t.parked then 1 else 0) -
      (if (s.timers j).parked then 1 else 0))
    (htotal : total = s.timerTotalCont + (if t.registered then 1 else 0) -
      (if (s.timers j).registered then 1 else 0))
    (hticked : t.cycleTicks = if t.parked then 1 else 0) :
    ClkClock.Barrier ⟨consumed, total, phase, Function.update s.timers j t⟩ where
  consumed := by
    show consumed = count ClkTimer.parked (Function.update s.timers j t)
    rw [count_update, hconsumed, h.consumed]
  total := by
    show total = count ClkTimer.registered (Function.update s.timers j t)
    rw [count_update, htotal, h.total]
  ticked i := by
    by_cases hij : i = j
    · subst hij
      simpa using hticked
    · simpa [hij] using h.ticked i

/-- A timer whose counted properties stay keeps the barrier. -/
theorem ClkClock.Barrier.update_same {s : ClkClock ι} (h : s.Barrier) (j : ι) {t : ClkTimer}
    (hparked : t.parked = (s.timers j).parked)
    (hregistered : t.registered = (s.timers j).registered)
    (hticked : t.cycleTicks = (s.timers j).cycleTicks) :
    ClkClock.Barrier { s with timers := Function.update s.timers j t } := by
  refine h.update s.phase j ?_ ?_ ?_
  · rw [hparked]
    omega
  · rw [hregistered]
    omega
  · rw [hticked, hparked]
    exact h.ticked j

omit [Fintype ι] [DecidableEq ι] in
@[simp] theorem ClkTimer.tick_cycleTicks (t : ClkTimer) : t.tick.cycleTicks = t.cycleTicks + 1 := by
  unfold ClkTimer.tick
  dsimp only
  split <;> rfl

/-- A timer outside its wait goes round its loop once: it parks with one tick, or it leaves. The
count of registered timers already includes it. Reference: `clk_timer_start` (`src/clock.c:32`). -/
theorem ClkClock.Barrier.timerLoop {s : ClkClock ι} (h : s.Barrier) (j : ι) {total : Int}
    (hparked : (s.timers j).parked = false)
    (htotal : total = s.timerTotalCont + 1 - (if (s.timers j).registered then 1 else 0)) :
    ({ s with timerTotalCont := total }.timerLoop j).Barrier := by
  have hticks := h.ticked j
  rw [hparked] at hticks
  unfold ClkClock.timerLoop
  split
  · refine h.update _ j ?_ ?_ ?_
    · rw [hparked]
      simp [ClkTimer.parked]
    · simpa [ClkTimer.registered] using htotal
    · simp [ClkTimer.parked, hticks]
  · refine h.update _ j ?_ ?_ ?_
    · rw [hparked]
      simp [ClkTimer.parked]
    · rw [htotal]
      simp only [ClkTimer.registered]
      simp
      omega
    · simp [ClkTimer.parked, hticks]

omit [DecidableEq ι] in
/-- The clock waits, or it releases every parked timer and starts to count again.
Reference: `clk_clock_start` (`src/clock.c:13`). -/
theorem ClkClock.Barrier.clockLoop {s : ClkClock ι} (h : s.Barrier) : s.clockLoop.Barrier := by
  unfold ClkClock.clockLoop
  split
  · exact ⟨h.consumed, h.total, h.ticked⟩
  · refine ⟨?_, ?_, ?_⟩
    · have hnone : ∀ j, ((s.timers j).release).parked = false := by
        intro j
        simp only [ClkTimer.release, ClkTimer.parked]
        split <;> simp_all
      simp [count, hnone]
    · have hsame : ∀ j, ((s.timers j).release).registered = (s.timers j).registered := by
        intro j
        simp only [ClkTimer.release, ClkTimer.registered]
        split <;> simp_all
      simp only [count, hsame]
      exact h.total
    · intro j
      simp only [ClkTimer.release, ClkTimer.parked]
      split <;> simp_all

/-- Every step keeps the barrier. -/
theorem ClkStep.barrier {s t : ClkClock ι} {l : ClkLabel ι} (h : s.Barrier)
    (hstep : ClkStep s l t) :
    t.Barrier := by
  cases hstep.fires with
  | clockStart | clockWake => exact ⟨h.consumed, h.total, h.ticked⟩
  | clockLoop => exact h.clockLoop
  | timerStart j hphase =>
    exact h.update_same j (by simp [ClkTimer.parked, hphase])
      (by simp [ClkTimer.registered, hphase])
      rfl
  | timerRegister j hphase | timerWake j hphase =>
    exact h.timerLoop j (by simp [ClkTimer.parked, hphase]) (by simp [ClkTimer.registered, hphase])
  | stop j | changeFreq j => exact h.update_same j rfl rfl rfl

end

/-! ## One timer's schedule -/

/-- A timer of frequency `f` that nobody reprograms: it has run its action on the multiples of `f`
among its ticks, and once started it counts down to the next one. -/
structure ClkTimer.OnSchedule (f : Int) (t : ClkTimer) : Prop where
  freq : t.timerTickFreq = f
  fired : t.fired = (List.range' 1 t.ticks).filter fun n : Nat => f ∣ (n : Int)
  idle : t.phase = .notStarted → t.ticks = 0
  counting : t.phase ≠ .notStarted → t.tickCount = f - (t.ticks : Int) % f

variable {ι : Type} [DecidableEq ι]

/-- Reference: `clk_timer_init` (`src/clock.c:69`). -/
theorem clkTimerInit_onSchedule (f : Int) : (clkTimerInit f).OnSchedule f :=
  ⟨rfl, rfl, fun _ => rfl, fun h => absurd rfl h⟩

/-- A count modulo `f` goes up by one, or starts again after `f - 1`. -/
theorem emod_succ {f : Int} (hf : 1 ≤ f) (n : Int) :
    (n + 1) % f = if n % f = f - 1 then 0 else n % f + 1 := by
  have hnonneg := Int.emod_nonneg n (by omega : f ≠ 0)
  have hlt := Int.emod_lt_of_pos n (by omega : 0 < f)
  rw [← Int.emod_add_emod]
  split
  · next h => rw [h, sub_add_cancel, Int.emod_self]
  · next h => exact Int.emod_eq_of_lt (by omega) (by omega)

/-- One tick of a started timer. Reference: `clk_timer_start` (`src/clock.c:33`). -/
theorem ClkTimer.OnSchedule.tick {f : Int} {t : ClkTimer} (h : t.OnSchedule f) (hf : 1 ≤ f)
    (hphase : t.phase ≠ .notStarted) :
    ({ t.tick with phase := .parked } : ClkTimer).OnSchedule f := by
  have hcount := h.counting hphase
  have hsucc := emod_succ hf t.ticks
  have hlt := Int.emod_lt_of_pos (t.ticks : Int) (by omega : 0 < f)
  have hrange : List.range' 1 (t.ticks + 1) = List.range' 1 t.ticks ++ [t.ticks + 1] := by
    rw [List.range'_concat, Nat.one_mul, Nat.add_comm]
  by_cases hdue : t.tickCount - 1 ≤ 0
  · -- the count is down, so the new tick is a multiple of `f`
    rw [if_pos (by omega)] at hsucc
    have hdvd : f ∣ (t.ticks : Int) + 1 := Int.dvd_of_emod_eq_zero hsucc
    refine ⟨?_, ?_, ?_, ?_⟩
    · simp [ClkTimer.tick, hdue, h.freq]
    · simp [ClkTimer.tick, hdue, h.fired, hrange, hdvd]
    · simp
    · intro _
      simp [ClkTimer.tick, hdue, h.freq, hsucc]
  · rw [if_neg (by omega)] at hsucc
    have hdvd : ¬ f ∣ (t.ticks : Int) + 1 := by
      intro hd
      have hzero := Int.emod_eq_zero_of_dvd hd
      have hnonneg := Int.emod_nonneg (t.ticks : Int) (by omega : f ≠ 0)
      omega
    refine ⟨?_, ?_, ?_, ?_⟩
    · simp [ClkTimer.tick, hdue, h.freq]
    · simp [ClkTimer.tick, hdue, h.fired, hrange, hdvd]
    · simp
    · intro _
      simp [ClkTimer.tick, hdue, hsucc]
      omega

/-- A timer on schedule stays on it when only its status, its phase or its share of the barrier
changes. -/
theorem ClkTimer.OnSchedule.of_eq {f : Int} {t t' : ClkTimer} (h : t.OnSchedule f)
    (hfreq : t'.timerTickFreq = t.timerTickFreq) (hcount : t'.tickCount = t.tickCount)
    (hticks : t'.ticks = t.ticks) (hfired : t'.fired = t.fired)
    (hphase : t'.phase = .notStarted ↔ t.phase = .notStarted) : t'.OnSchedule f where
  freq := hfreq.trans h.freq
  fired := by rw [hfired, hticks, h.fired]
  idle hidle := hticks.trans (h.idle (hphase.mp hidle))
  counting hstarted := by
    rw [hcount, hticks]
    exact h.counting fun hidle => hstarted (hphase.mpr hidle)

variable {ι : Type} [DecidableEq ι]

/-- Timer `j` at the test of its loop. Reference: `clk_timer_start` (`src/clock.c:32`). -/
theorem ClkClock.timerLoop_onSchedule {f : Int} {s : ClkClock ι} {i j : ι} (hf : 1 ≤ f)
    (h : (s.timers i).OnSchedule f) (hphase : (s.timers j).phase ≠ .notStarted) :
    ((s.timerLoop j).timers i).OnSchedule f := by
  unfold ClkClock.timerLoop
  by_cases hij : i = j
  · subst hij
    split
    · simpa using h.tick hf hphase
    · simp only [Function.update_self]
      exact h.of_eq rfl rfl rfl rfl (by simp [hphase])
  · split <;> simpa [hij] using h

/-- Every step but a change of its own frequency keeps a timer on schedule. -/
theorem ClkStep.onSchedule {f : Int} {s t : ClkClock ι} {l : ClkLabel ι} {i : ι} (hf : 1 ≤ f)
    (h : (s.timers i).OnSchedule f)
    (hl : ∀ newTickFreq restart, l ≠ .changeFreq i newTickFreq restart)
    (hstep : ClkStep s l t) : (t.timers i).OnSchedule f := by
  cases hstep.fires with
  | clockStart | clockWake => exact h
  | clockLoop =>
    unfold ClkClock.clockLoop
    split
    · exact h
    · refine h.of_eq rfl rfl rfl rfl ?_
      simp only [ClkTimer.release]
      split <;> simp_all
  | timerStart j hphase =>
    by_cases hij : i = j
    · subst hij
      -- the thread sets its count before it takes the mutex for the first time
      have hticks := h.idle hphase
      refine ⟨?_, ?_, ?_, ?_⟩ <;> simp [h.freq, h.fired, hticks]
    · simpa [hij] using h
  | timerRegister j hphase | timerWake j hphase =>
    exact ClkClock.timerLoop_onSchedule hf h (by simp [hphase])
  | stop j =>
    by_cases hij : i = j
    · subst hij
      simp only [Function.update_self]
      exact h.of_eq rfl rfl rfl rfl Iff.rfl
    · simpa [hij] using h
  | changeFreq j newTickFreq restart =>
    have hij : i ≠ j := by
      intro hij
      exact hl newTickFreq restart (by rw [hij])
    simpa [hij] using h

/-! ## Runs -/

variable [Fintype ι]

/-- In every run the counter of consumed ticks is the number of registered timers that have ticked
since the last broadcast and are parked; at every broadcast each registered timer has ticked exactly
once in the cycle; and a timer of frequency at least 1 that nobody reprograms has run its action on
exactly the multiples of its frequency. Reference: `clk_clock_start` (`src/clock.c:8`),
`clk_timer_start` (`src/clock.c:24`). -/
theorem clkClock_is_barrier {freq : ι → Int} {ls : List (ClkLabel ι)} {s : ClkClock ι}
    (h : Lts.Steps ClkStep (clkClockInit freq) ls s) :
    s.timerTickConsumedCont = (Finset.univ.filter fun j =>
      (s.timers j).registered ∧ 1 ≤ (s.timers j).cycleTicks ∧ (s.timers j).parked).card ∧
    (s.broadcasts → ∀ j, (s.timers j).registered → (s.timers j).cycleTicks = 1) ∧
    ∀ j, 1 ≤ freq j → (∀ newTickFreq restart, .changeFreq j newTickFreq restart ∉ ls) →
      (s.timers j).fired =
        (List.range' 1 (s.timers j).ticks).filter fun n : Nat => freq j ∣ (n : Int) := by
  have hbarrier : s.Barrier :=
    h.invariant (fun t l u ht hstep => hstep.barrier ht) (clkClockInit_barrier freq)
  refine ⟨?_, hbarrier.ticked_once, ?_⟩
  · rw [hbarrier.consumed, count_eq_card]
    congr 2
    refine Finset.filter_congr fun j _ => ?_
    have hticked := hbarrier.ticked j
    constructor
    · intro hp
      rw [if_pos hp] at hticked
      exact ⟨ClkTimer.registered_of_parked hp, hticked.ge, hp⟩
    · intro hj
      exact hj.2.2
  · intro j hf hls
    have hstep (t : ClkClock ι) (l : ClkLabel ι) (u : ClkClock ι)
        (ht : (t.timers j).OnSchedule (freq j)) (hl : l ∈ ls)
        (hstep : ClkStep t l u) : (u.timers j).OnSchedule (freq j) := by
      refine hstep.onSchedule hf ht fun newTickFreq restart he => ?_
      exact hls newTickFreq restart (he ▸ hl)
    have hschedule : (s.timers j).OnSchedule (freq j) :=
      h.invariant_of_labels (I := fun s => (s.timers j).OnSchedule (freq j)) hstep
        (clkTimerInit_onSchedule (freq j)) fun l hl => hl
    exact hschedule.fired

/-- Two timers of frequencies 1 and 2 register before the clock starts; after one broadcast both
tick again and the clock is about to broadcast a second time. -/
theorem clkClock_is_barrier_two : ∃ s : ClkClock (Fin 2),
    Lts.Steps ClkStep (clkClockInit ![1, 2]) [.timerStart 0, .timerRegister 0, .timerStart 1,
      .timerRegister 1, .clockStart, .clockLoop, .clockLoop, .timerWake 0, .timerWake 1,
      .clockWake] s ∧
    s.timerTickConsumedCont = 2 ∧ (∀ j, (s.timers j).cycleTicks = 1) ∧
    (s.timers 0).fired = [1, 2] ∧ (s.timers 1).fired = [2] := by
  have hrun := Lts.Steps.of_foldlM
    (show List.foldlM ClkClock.next (clkClockInit (ι := Fin 2) ![1, 2]) [
      .timerStart 0, .timerRegister 0, .timerStart 1, .timerRegister 1, .clockStart, .clockLoop,
      .clockLoop, .timerWake 0, .timerWake 1, .clockWake] = some _ from rfl)
  have h := clkClock_is_barrier hrun
  refine ⟨_, hrun, rfl, fun j => h.2.1 ⟨rfl, by decide⟩ j ?_, ?_, ?_⟩
  · revert j
    decide
  · exact h.2.2 0 (by decide) (by simp)
  · exact h.2.2 1 (by decide) (by simp)

end SeKernel
