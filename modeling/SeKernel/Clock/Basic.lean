import Mathlib.Logic.Function.Basic
import Mathlib.Data.List.Basic

/-!
# The clock and its timers

`src/clock.c` as steps of its threads. One step of a timer thread is everything it does between two
acquisitions of `mutex_clk`; the clock thread's critical section is cut once more, at the head of
its outer loop, so that a broadcast is a step of its own, and while it is there (`running`) it holds
the mutex and no timer can move. A wait on a condition variable ends only after a signal or a
broadcast, and a signal that finds nobody waiting is lost. `TickAction` does not touch the clock.
The fields after the comment in `ClkTimer` are bookkeeping that no branch reads.
-/

namespace SeKernel

/-- Reference: `CLOCK_STATUS_RUNNING`, `CLOCK_STATUS_TERMINATE` (`headers/clock_s.h:6`). -/
inductive ClockStatus
  | running
  | terminate
  deriving DecidableEq, Repr

/-- Where the thread of `clk_clock_start` is: before its first lock, in its loop with the mutex
held, waiting on `cond_timer_attention`, or signalled and about to take the mutex again. -/
inductive ClkPhase
  | notStarted
  | running
  | parked
  | woken
  deriving DecidableEq, Repr

/-- Where the thread of `clk_timer_start` is: not created, before its lock, waiting on
`cond_clk_cycle`, released by a broadcast and about to take the mutex again, or returned. -/
inductive TmrPhase
  | notStarted
  | starting
  | parked
  | woken
  | ended
  deriving DecidableEq, Repr

/-- Reference: `struct clk_timer_s` (`headers/clock_s.h:10`). -/
structure ClkTimer where
  timerTickFreq : Int
  tickCount : Int
  timerStatus : ClockStatus
  phase : TmrPhase
  -- ticks so far, the ticks on which `TickAction` ran, ticks since the last broadcast
  ticks : Nat
  fired : List Nat
  cycleTicks : Nat
  deriving DecidableEq, Repr

/-- Reference: `struct clk_clock_s` (`headers/clock_s.h:22`), with the timers linked to it. -/
structure ClkClock (ι : Type) where
  timerTickConsumedCont : Int
  timerTotalCont : Int
  phase : ClkPhase
  timers : ι → ClkTimer

/-- A timer that has entered its critical section and has not returned. -/
def ClkTimer.registered (t : ClkTimer) : Bool := t.phase = .parked ∨ t.phase = .woken

/-- A timer that waits on `cond_clk_cycle`. -/
def ClkTimer.parked (t : ClkTimer) : Bool := t.phase = .parked

/-! ## Timers -/

/-- Reference: `clk_timer_init` (`src/clock.c:69`). -/
def clkTimerInit (timerTickFreq : Int) : ClkTimer where
  timerTickFreq := timerTickFreq
  tickCount := 0
  timerStatus := .running
  phase := .notStarted
  ticks := 0
  fired := []
  cycleTicks := 0

/-- Reference: `clk_stop_timer` (`src/clock.c:79`). -/
def clkStopTimer (t : ClkTimer) : ClkTimer := { t with timerStatus := .terminate }

/-- Reference: `clk_change_timer_tickFreq` (`src/clock.c:83`). -/
def clkChangeTimerTickFreq (t : ClkTimer) (newTickFreq : Int) (restart : Bool) : ClkTimer :=
  let tickCount :=
    if restart then
      t.timerTickFreq
    else
      let consumedTicks := t.timerTickFreq - t.tickCount
      let tickCount := newTickFreq - consumedTicks
      if tickCount ≤ 0 then 1 else tickCount
  { t with tickCount := tickCount, timerTickFreq := newTickFreq }

/-- The body of the timer's loop up to its wait (`src/clock.c:33`): one tick, and `TickAction` when
the count is down. -/
def ClkTimer.tick (t : ClkTimer) : ClkTimer :=
  let t := { t with
    tickCount := t.tickCount - 1
    ticks := t.ticks + 1
    cycleTicks := t.cycleTicks + 1 }
  if t.tickCount ≤ 0 then
    { t with tickCount := t.timerTickFreq, fired := t.fired ++ [t.ticks] }
  else
    t

/-! ## The threads -/

variable {ι : Type} [DecidableEq ι]

/-- Reference: `clk_clock_init` (`src/clock.c:52`), with every timer initialised. -/
def clkClockInit (timerTickFreq : ι → Int) : ClkClock ι where
  timerTickConsumedCont := 0
  timerTotalCont := 0
  phase := .notStarted
  timers j := clkTimerInit (timerTickFreq j)

/-- `pthread_cond_signal(cond_timer_attention)`; only the clock thread can wait there. -/
def ClkPhase.signal : ClkPhase → ClkPhase
  | .parked => .woken
  | phase => phase

/-- `pthread_cond_broadcast(cond_clk_cycle)` for one timer; a cycle begins. -/
def ClkTimer.release (t : ClkTimer) : ClkTimer :=
  { t with phase := if t.phase = .parked then .woken else t.phase, cycleTicks := 0 }

/-- The test of the clock's inner loop: the clock waits on. Reference: `clk_clock_start`
(`src/clock.c:15`). -/
def ClkClock.mustWait (s : ClkClock ι) : Bool :=
  s.timerTickConsumedCont < s.timerTotalCont ∨ s.timerTotalCont = 0

/-- The clock in its loop, holding the mutex: it waits, or it broadcasts and clears the count.
Reference: `clk_clock_start` (`src/clock.c:13`). -/
def ClkClock.clockLoop (s : ClkClock ι) : ClkClock ι :=
  if s.mustWait then
    { s with phase := .parked }
  else
    { s with timerTickConsumedCont := 0, timers := fun j => (s.timers j).release }

/-- Timer `j` at the test of its loop, holding the mutex: it ticks, signals the clock and waits, or
it returns. Reference: `clk_timer_start` (`src/clock.c:32`). -/
def ClkClock.timerLoop (s : ClkClock ι) (j : ι) : ClkClock ι :=
  if (s.timers j).timerStatus ≠ .terminate then
    { s with
      timerTickConsumedCont := s.timerTickConsumedCont + 1
      phase := s.phase.signal
      timers := Function.update s.timers j { (s.timers j).tick with phase := .parked } }
  else
    { s with
      timerTotalCont := s.timerTotalCont - 1
      timers := Function.update s.timers j { s.timers j with phase := .ended } }

/-- The steps: the clock thread is created, goes round its loop, takes the mutex again; timer `j` is
created, registers, takes the mutex again; somebody stops timer `j` or changes its frequency. -/
inductive ClkLabel (ι : Type)
  | clockStart
  | clockLoop
  | clockWake
  | timerStart (j : ι)
  | timerRegister (j : ι)
  | timerWake (j : ι)
  | stop (j : ι)
  | changeFreq (j : ι) (newTickFreq : Int) (restart : Bool)
  deriving DecidableEq

/-- What a step does, when it can be taken. -/
def ClkClock.next (s : ClkClock ι) : ClkLabel ι → Option (ClkClock ι)
  | .clockStart => if s.phase = .notStarted then some { s with phase := .running } else none
  | .clockLoop => if s.phase = .running then some s.clockLoop else none
  | .clockWake => if s.phase = .woken then some { s with phase := .running } else none
  | .timerStart j =>
    if (s.timers j).phase = .notStarted then
      some { s with
        timers := Function.update s.timers j { s.timers j with
          tickCount := (s.timers j).timerTickFreq, phase := .starting } }
    else none
  | .timerRegister j =>
    if (s.timers j).phase = .starting ∧ s.phase ≠ .running then
      some ({ s with timerTotalCont := s.timerTotalCont + 1 }.timerLoop j)
    else none
  | .timerWake j =>
    if (s.timers j).phase = .woken ∧ s.phase ≠ .running then some (s.timerLoop j) else none
  | .stop j => some { s with timers := Function.update s.timers j (clkStopTimer (s.timers j)) }
  | .changeFreq j newTickFreq restart =>
    some { s with
      timers := Function.update s.timers j
        (clkChangeTimerTickFreq (s.timers j) newTickFreq restart) }

/-- One step of the clock and its timers. -/
def ClkStep (s : ClkClock ι) (l : ClkLabel ι) (t : ClkClock ι) : Prop := s.next l = some t

/-- What a step with each label does, and the guards that later proofs need. -/
inductive ClkStep.Fires (s : ClkClock ι) : ClkLabel ι → ClkClock ι → Prop
  | clockStart : Fires s .clockStart { s with phase := .running }
  | clockLoop : Fires s .clockLoop s.clockLoop
  | clockWake : Fires s .clockWake { s with phase := .running }
  | timerStart (j : ι) (hphase : (s.timers j).phase = .notStarted) : Fires s (.timerStart j)
      { s with timers := Function.update s.timers j { s.timers j with
        tickCount := (s.timers j).timerTickFreq, phase := .starting } }
  | timerRegister (j : ι) (hphase : (s.timers j).phase = .starting) : Fires s (.timerRegister j)
      ({ s with timerTotalCont := s.timerTotalCont + 1 }.timerLoop j)
  | timerWake (j : ι) (hphase : (s.timers j).phase = .woken) :
      Fires s (.timerWake j) (s.timerLoop j)
  | stop (j : ι) :
      Fires s (.stop j) { s with timers := Function.update s.timers j (clkStopTimer (s.timers j)) }
  | changeFreq (j : ι) (newTickFreq : Int) (restart : Bool) :
      Fires s (.changeFreq j newTickFreq restart) { s with
        timers := Function.update s.timers j
          (clkChangeTimerTickFreq (s.timers j) newTickFreq restart) }

theorem ClkStep.fires {s t : ClkClock ι} {l : ClkLabel ι} (h : ClkStep s l t) :
    ClkStep.Fires s l t := by
  unfold ClkStep at h
  cases l with
  | clockStart | clockLoop | clockWake =>
    simp only [ClkClock.next, Option.ite_none_right_eq_some, Option.some.injEq] at h
    obtain ⟨-, rfl⟩ := h
    constructor
  | timerStart j =>
    simp only [ClkClock.next, Option.ite_none_right_eq_some, Option.some.injEq] at h
    obtain ⟨hphase, rfl⟩ := h
    exact .timerStart j hphase
  | timerRegister j =>
    simp only [ClkClock.next, Option.ite_none_right_eq_some, Option.some.injEq] at h
    obtain ⟨⟨hphase, -⟩, rfl⟩ := h
    exact .timerRegister j hphase
  | timerWake j =>
    simp only [ClkClock.next, Option.ite_none_right_eq_some, Option.some.injEq] at h
    obtain ⟨⟨hphase, -⟩, rfl⟩ := h
    exact .timerWake j hphase
  | stop j =>
    cases h
    exact .stop j
  | changeFreq j newTickFreq restart =>
    cases h
    exact .changeFreq j newTickFreq restart

end SeKernel
