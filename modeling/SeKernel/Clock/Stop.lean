import SeKernel.Clock.Barrier

/-!
# Stopping a timer

A stopped timer that leaves takes itself out of `timer_total_cont` without waking the clock. When it
is the last timer of the cycle, every other registered timer has already counted its tick and
signalled, so nobody wakes the clock any more (`ClkClock.Hung`). A run hangs exactly when one of its
steps is such a leave (`ClkClock.LastLeaves`): every other step that can make the clock's condition
true signals it, or leaves it running.
-/

namespace SeKernel

open Counting

variable {ι : Type}

/-- A registered timer is left, every registered timer waits with its tick of this cycle counted,
and the clock waits on `cond_timer_attention` with no wake-up pending. -/
structure ClkClock.Hung (s : ClkClock ι) : Prop where
  left : ∃ j, (s.timers j).registered
  parked : ∀ j, (s.timers j).registered → (s.timers j).parked
  total : 0 < s.timerTotalCont
  consumed : s.timerTotalCont ≤ s.timerTickConsumedCont
  clock : s.phase = .parked

/-- A stopped timer is about to leave while the clock waits, and it is the last of its cycle: some
timer has counted its tick, and only this one has not. Reference: `clk_timer_start`
(`src/clock.c:48`). -/
def ClkClock.LastLeaves (s : ClkClock ι) : ClkLabel ι → Prop
  | .timerWake j => s.phase = .parked ∧ (s.timers j).timerStatus = .terminate ∧
      0 < s.timerTickConsumedCont ∧ s.timerTickConsumedCont + 1 = s.timerTotalCont
  | _ => False

instance (s : ClkClock ι) (l : ClkLabel ι) : Decidable (s.LastLeaves l) :=
  match l with
  | .timerWake _ => inferInstanceAs (Decidable (_ ∧ _ ∧ _ ∧ _))
  | .clockStart | .clockLoop | .clockWake | .timerStart _ | .timerRegister _ | .stop _
  | .changeFreq _ _ _ => inferInstanceAs (Decidable False)

/-- A step leads to one state. -/
theorem ClkStep.unique [DecidableEq ι] {s t u : ClkClock ι} {l : ClkLabel ι} (ht : ClkStep s l t)
    (hu : ClkStep s l u) : t = u :=
  Option.some.inj (ht.symm.trans hu)

/-- A timer's signal ends the clock's wait. -/
theorem ClkPhase.signal_ne_parked (phase : ClkPhase) : phase.signal ≠ .parked := by
  cases phase <;> simp [ClkPhase.signal]

variable [Fintype ι]

/-- While the counters are exact, the clock hangs when it waits though its condition is true. -/
theorem ClkClock.Barrier.hung_iff {s : ClkClock ι} (h : s.Barrier) :
    s.Hung ↔ ¬ (s.phase = .parked → s.mustWait) := by
  simp only [ClkClock.mustWait, decide_eq_true_eq, Classical.not_imp, not_or, Int.not_lt]
  constructor
  · intro hhung
    exact ⟨hhung.clock, hhung.consumed, hhung.total.ne'⟩
  · rintro ⟨hclock, hconsumed, htotal⟩
    have hcard := count_eq_card ClkTimer.registered s.timers
    have hpos : 0 < s.timerTotalCont := by
      rw [h.total] at htotal ⊢
      omega
    have hle : count ClkTimer.registered s.timers ≤ count ClkTimer.parked s.timers := by
      rw [← h.consumed, ← h.total]
      exact hconsumed
    refine ⟨?_, of_count_le (fun j => ClkTimer.registered_of_parked) hle, hpos, hconsumed, hclock⟩
    rw [← h.total] at hcard
    obtain ⟨j, hj⟩ := Finset.card_pos.1 (show 0 < (Finset.univ.filter fun j =>
      (s.timers j).registered).card by omega)
    exact ⟨j, by simpa using hj⟩

variable [DecidableEq ι]

/-- Where the clock is not hung, it hangs exactly when the last timer of the cycle leaves.
Reference: `clk_clock_start` (`src/clock.c:15`), `clk_timer_start` (`src/clock.c:32`). -/
theorem ClkStep.hung_iff {s t : ClkClock ι} {l : ClkLabel ι} (h : s.Barrier) (hs : ¬ s.Hung)
    (hstep : ClkStep s l t) : t.Hung ↔ s.LastLeaves l := by
  rw [h.hung_iff, not_not] at hs
  rw [(hstep.barrier h).hung_iff]
  cases hstep.fires with
  | clockStart | clockWake => exact iff_of_false (by simp) id
  | clockLoop =>
    refine iff_of_false (not_not.2 ?_) id
    unfold ClkClock.clockLoop
    split
    · next hwait => exact fun _ => hwait
    · next hgo => exact fun hclock => absurd (hs hclock) hgo
  | timerStart j | stop j | changeFreq j => exact iff_of_false (not_not.2 hs) id
  | timerRegister j =>
    refine iff_of_false (not_not.2 ?_) id
    unfold ClkClock.timerLoop
    split
    · exact fun hclock => absurd hclock (ClkPhase.signal_ne_parked _)
    · -- a timer stopped before it registered leaves the total as it was
      simpa [ClkClock.mustWait] using hs
  | timerWake j hphase =>
    have htotal : 1 ≤ s.timerTotalCont := by
      rw [h.total]
      exact count_pos (j := j) (by simp [ClkTimer.registered, hphase])
    unfold ClkClock.timerLoop
    split
    · next hrun =>
      exact iff_of_false (by simp [ClkPhase.signal_ne_parked]) fun hlast => hrun hlast.2.1
    · next hstop =>
      simp only [ClkClock.mustWait, decide_eq_true_eq, Classical.not_imp, not_or] at hs ⊢
      constructor
      · rintro ⟨hclock, hgo⟩
        have hwait := hs hclock
        exact ⟨hclock, not_not.1 hstop, by omega, by omega⟩
      · rintro ⟨hclock, -, hpos, hlast⟩
        exact ⟨hclock, by omega, by omega⟩

/-- A run visits no hung state if and only if no step of it is a stopped timer that leaves as the
last of its cycle while the clock waits. Reference: `clk_timer_start` (`src/clock.c:48`),
`clk_clock_start` (`src/clock.c:15`), `clk_stop_timer` (`src/clock.c:79`). -/
theorem clkStopTimer_never_hangs_iff {freq : ι → Int} {ls : List (ClkLabel ι)} {s : ClkClock ι}
    (h : Lts.Steps ClkStep (clkClockInit freq) ls s) :
    Lts.Steps (fun t l u => ClkStep t l u ∧ ¬ t.LastLeaves l) (clkClockInit freq) ls s ↔
      ∀ ls' t, ls' <+: ls → Lts.Steps ClkStep (clkClockInit freq) ls' t → ¬ t.Hung := by
  refine h.visits_only_iff (fun _ _ _ _ => ClkStep.unique) (fun _ _ _ ht hstep => hstep.barrier ht)
    (fun t l u ht hnot hstep => not_congr (hstep.hung_iff ht hnot)) ⟨clkClockInit_barrier freq, ?_⟩
  intro hhung
  have hclock := hhung.clock
  simp [clkClockInit] at hclock

/-- Both timers wait to be woken when timer 1 is stopped and leaves before timer 0 has ticked: the
run visits no hung state. -/
theorem clkStopTimer_never_hangs_iff_two : ∃ s : ClkClock (Fin 2),
    Lts.Steps ClkStep (clkClockInit fun _ => 1) [.timerStart 0, .timerRegister 0, .timerStart 1,
      .timerRegister 1, .clockStart, .clockLoop, .clockLoop, .stop 1, .timerWake 1,
      .timerWake 0] s ∧
    s.timerTotalCont = 1 ∧ ¬ s.Hung := by
  have hrun := (Lts.Steps.of_foldlM (show List.foldlM
    (fun t l => if t.LastLeaves l then none else ClkClock.next t l)
    (clkClockInit (ι := Fin 2) fun _ => 1) [.timerStart 0, .timerRegister 0, .timerStart 1,
      .timerRegister 1, .clockStart, .clockLoop, .clockLoop, .stop 1, .timerWake 1,
      .timerWake 0] = some _ from rfl)).mono
    fun t l u h => (Option.ite_none_left_eq_some.1 h).symm
  have hsteps := hrun.mono fun _ _ _ h => h.1
  exact ⟨_, hsteps, rfl, (clkStopTimer_never_hangs_iff hsteps).1 hrun _ _ List.prefix_rfl hsteps⟩

/-- Timer 0 ticks and waits, the clock waits again for timer 1, and timer 1 is stopped and leaves:
the one registered timer has counted its tick and nobody wakes the clock. -/
theorem clkStopTimer_hangs : ∃ s : ClkClock (Fin 2),
    Lts.Steps ClkStep (clkClockInit fun _ => 1) [.timerStart 0, .timerRegister 0, .timerStart 1,
      .timerRegister 1, .clockStart, .clockLoop, .clockLoop, .timerWake 0, .clockWake, .clockLoop,
      .stop 1, .timerWake 1] s ∧
    s.Hung := by
  have hrun := Lts.Steps.of_foldlM (show List.foldlM ClkClock.next
    (clkClockInit (ι := Fin 2) fun _ => 1) [.timerStart 0, .timerRegister 0, .timerStart 1,
      .timerRegister 1, .clockStart, .clockLoop, .clockLoop, .timerWake 0, .clockWake, .clockLoop,
      .stop 1, .timerWake 1] = some _ from rfl)
  refine ⟨_, hrun, ⟨0, rfl⟩, ?_, by decide, by decide, rfl⟩
  decide

end SeKernel
