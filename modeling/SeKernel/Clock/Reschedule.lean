import Mathlib.Data.List.Infix
import SeKernel.Clock.Basic
import SeKernel.Lib.Machine

/-!
# Changing the frequency of a running timer

One running timer under its own ticks and the calls that change its frequency between two of them.
A timer whose count is `c ≥ 1` next runs its `TickAction` on its `c`-th tick (`nextFires_iff`), so
every question about when it fires is one about `tick_count`. `clk_change_timer_tickFreq` gets it
wrong in two places. A restart loads the old frequency, which is overwritten only afterwards; and
where a change without restart comes too late for the new frequency, the count is lifted to 1, so
that the fields no longer tell how many ticks have passed and a later slow-down counts too few. The
count is right along a run exactly while neither happens
(`clkChangeTimerTickFreq_reschedules_iff`).
-/

namespace SeKernel

/-! ## When a timer fires -/

theorem ClkTimer.tick_of_one_lt {t : ClkTimer} (h : 1 < t.tickCount) :
    t.tick = { t with
      tickCount := t.tickCount - 1, ticks := t.ticks + 1, cycleTicks := t.cycleTicks + 1 } := by
  simp only [ClkTimer.tick]
  rw [if_neg (by omega)]

theorem ClkTimer.tick_of_le_one {t : ClkTimer} (h : t.tickCount ≤ 1) :
    t.tick = { t with
      tickCount := t.timerTickFreq, ticks := t.ticks + 1, cycleTicks := t.cycleTicks + 1
      fired := t.fired ++ [t.ticks + 1] } := by
  simp only [ClkTimer.tick]
  rw [if_pos (by omega)]

/-- `TickAction` runs on the `n`-th tick from here and on none before it. -/
def ClkTimer.NextFires (t : ClkTimer) (n : Nat) : Prop :=
  (ClkTimer.tick^[n] t).fired = t.fired ++ [t.ticks + n]

instance (t : ClkTimer) (n : Nat) : Decidable (t.NextFires n) :=
  inferInstanceAs (Decidable (_ = _))

theorem ClkTimer.fired_prefix_tick (t : ClkTimer) : t.fired <+: t.tick.fired := by
  rcases Int.lt_or_le 1 t.tickCount with h | h
  · rw [ClkTimer.tick_of_one_lt h]
  · rw [ClkTimer.tick_of_le_one h]
    exact List.prefix_append _ _

theorem ClkTimer.fired_prefix_iterate (t : ClkTimer) (n : Nat) :
    t.fired <+: (ClkTimer.tick^[n] t).fired := by
  induction n with
  | zero => exact List.prefix_refl _
  | succ n ih =>
    rw [Function.iterate_succ_apply']
    exact ih.trans (ClkTimer.fired_prefix_tick _)

/-- Ticks that do not bring the count down to zero only count. -/
theorem ClkTimer.iterate_tick_of_lt {t : ClkTimer} {n : Nat} (h : (n : Int) < t.tickCount) :
    ClkTimer.tick^[n] t = { t with
      tickCount := t.tickCount - n, ticks := t.ticks + n, cycleTicks := t.cycleTicks + n } := by
  induction n with
  | zero => simp
  | succ n ih =>
    rw [Function.iterate_succ_apply', ih (by omega), ClkTimer.tick_of_one_lt (by dsimp only; omega)]
    congr 1
    dsimp only
    omega

/-- A timer fires when its count is used up. -/
theorem ClkTimer.nextFires_tickCount {t : ClkTimer} {n : Nat} (hn : 1 ≤ n)
    (h : (n : Int) = t.tickCount) : t.NextFires n := by
  obtain ⟨k, rfl⟩ := Nat.exists_eq_add_of_le' hn
  have hk : (k : Int) < t.tickCount := by omega
  rw [ClkTimer.NextFires, Function.iterate_succ_apply', ClkTimer.iterate_tick_of_lt hk,
    ClkTimer.tick_of_le_one (by dsimp only; omega), Nat.add_assoc]

/-- The count of a timer is the number of ticks to its next `TickAction`. -/
theorem ClkTimer.nextFires_iff {t : ClkTimer} (hcount : 1 ≤ t.tickCount) {n : Nat} :
    t.NextFires n ↔ (n : Int) = t.tickCount := by
  constructor
  · intro h
    obtain ⟨c, hc⟩ := Int.eq_ofNat_of_zero_le (show 0 ≤ t.tickCount by omega)
    rcases Nat.lt_or_ge n c with hlt | hle
    · rw [ClkTimer.NextFires, ClkTimer.iterate_tick_of_lt (by omega)] at h
      simp at h
    · -- it has fired on the `c`-th tick, and that entry stays where it is
      obtain ⟨d, rfl⟩ := Nat.exists_eq_add_of_le' hle
      have hfires : t.NextFires c := ClkTimer.nextFires_tickCount (by omega) hc.symm
      have hprefix := ClkTimer.fired_prefix_iterate (ClkTimer.tick^[c] t) d
      rw [← Function.iterate_add_apply, h, hfires] at hprefix
      have heq := hprefix.eq_of_length (by simp)
      simp only [List.append_cancel_left_eq, List.cons.injEq, and_true] at heq
      omega
  · intro h
    exact ClkTimer.nextFires_tickCount (by omega) h

/-! ## Ticks and changes -/

/-- What happens to a running timer between two waits: a tick, or a change of its frequency. -/
inductive TmrCmd
  | tick
  | change (newTickFreq : Int) (restart : Bool)
  deriving DecidableEq, Repr

namespace TmrCmd

/-- New frequencies are positive. -/
def Valid : TmrCmd → Prop
  | .tick => True
  | .change newTickFreq _ => 0 < newTickFreq

/-- Reference: `clk_timer_start`, `clk_change_timer_tickFreq` (`src/clock.c:33`,
`src/clock.c:83`). -/
def exec : TmrCmd → ClkTimer → ClkTimer
  | .tick, t => t.tick
  | .change newTickFreq restart, t => clkChangeTimerTickFreq t newTickFreq restart

/-- The ticks since the timer last fired or was restarted. -/
def elapsed : TmrCmd → ClkTimer → Nat → Nat
  | .tick, t, e => if t.tick.fired = t.fired then e + 1 else 0
  | .change _ restart, _, e => if restart then 0 else e

/-- A command acts on the timer and on the count of the ticks that have passed. -/
def step (cmd : TmrCmd) (s : ClkTimer × Nat) : Except Empty (Unit × ClkTimer × Nat) :=
  .ok ((), cmd.exec s.1, cmd.elapsed s.1 s.2)

/-- The tick after a change on which `TickAction` should run next: the new frequency counts from
the change, or from the last time the timer fired or was restarted. -/
def dueIn (newTickFreq : Int) (restart : Bool) (e : Nat) : Nat :=
  if restart then newTickFreq.toNat else (max 1 (newTickFreq - e)).toNat

/-- The timer comes out of a command with a count between 1 and its frequency, and after a change it
fires when it should. -/
def Reschedules (cmd : TmrCmd) (s : ClkTimer × Nat) : Prop :=
  (1 ≤ (cmd.exec s.1).tickCount ∧ (cmd.exec s.1).tickCount ≤ (cmd.exec s.1).timerTickFreq) ∧
    ∀ newTickFreq restart, cmd = .change newTickFreq restart →
      (cmd.exec s.1).NextFires (dueIn newTickFreq restart s.2)

/-- A restart keeps the frequency; without a restart the frequency grows only while fewer ticks have
passed than it has. -/
def InStep : TmrCmd → ClkTimer × Nat → Prop
  | .tick, _ => True
  | .change newTickFreq true, s => newTickFreq = s.1.timerTickFreq
  | .change newTickFreq false, s =>
    (s.2 : Int) < s.1.timerTickFreq ∨ newTickFreq ≤ s.1.timerTickFreq

end TmrCmd

/-! ## The timers of the clock -/

/-- The two timers count alike: they differ in status, phase and share of the barrier only. -/
structure ClkTimer.SameCount (t t' : ClkTimer) : Prop where
  freq : t'.timerTickFreq = t.timerTickFreq
  count : t'.tickCount = t.tickCount
  ticks : t'.ticks = t.ticks
  fired : t'.fired = t.fired

theorem ClkTimer.SameCount.refl (t : ClkTimer) : t.SameCount t := ⟨rfl, rfl, rfl, rfl⟩

/-- A step of the clock does to the count of a running timer what a command does, or nothing.
Reference: `clk_timer_start` (`src/clock.c:32`). -/
theorem ClkStep.sameCount {ι : Type} [DecidableEq ι] {s t : ClkClock ι} {l : ClkLabel ι} {i : ι}
    (hrunning : (s.timers i).registered) (hstep : ClkStep s l t) :
    (s.timers i).SameCount (t.timers i) ∨
      ∃ cmd : TmrCmd, (cmd.exec (s.timers i)).SameCount (t.timers i) := by
  simp only [ClkTimer.registered, decide_eq_true_eq] at hrunning
  cases hstep.fires with
  | clockStart | clockWake => exact .inl (.refl _)
  | clockLoop =>
    left
    unfold ClkClock.clockLoop
    split
    · exact .refl _
    · exact ⟨rfl, rfl, rfl, rfl⟩
  | timerStart j hphase =>
    -- a timer that runs has been created and is registered
    have hij : i ≠ j := by
      rintro rfl
      simp [hphase] at hrunning
    left
    simpa [hij] using ClkTimer.SameCount.refl _
  | timerRegister j hphase =>
    have hij : i ≠ j := by
      rintro rfl
      simp [hphase] at hrunning
    left
    unfold ClkClock.timerLoop
    split <;> simpa [hij] using ClkTimer.SameCount.refl _
  | timerWake j hphase =>
    unfold ClkClock.timerLoop
    by_cases hij : i = j
    · subst hij
      split
      · refine .inr ⟨.tick, ?_⟩
        simp only [Function.update_self]
        exact ⟨rfl, rfl, rfl, rfl⟩
      · refine .inl ?_
        simp only [Function.update_self]
        exact ⟨rfl, rfl, rfl, rfl⟩
    · left
      split <;> simpa [hij] using ClkTimer.SameCount.refl _
  | stop j =>
    left
    by_cases hij : i = j
    · subst hij
      simp only [Function.update_self]
      exact ⟨rfl, rfl, rfl, rfl⟩
    · simpa [hij] using ClkTimer.SameCount.refl _
  | changeFreq j newTickFreq restart =>
    by_cases hij : i = j
    · subst hij
      refine .inr ⟨.change newTickFreq restart, ?_⟩
      simpa [TmrCmd.exec] using ClkTimer.SameCount.refl _
    · left
      simpa [hij] using ClkTimer.SameCount.refl _

/-! ## Runs -/

/-- The count is in range, and tells how many ticks have passed unless it was lifted to 1 by a
change that came too late. -/
structure ClkTimer.Counts (t : ClkTimer) (e : Nat) : Prop where
  pos : 1 ≤ t.tickCount
  le : t.tickCount ≤ t.timerTickFreq
  elapsed : (e : Int) = t.timerTickFreq - t.tickCount ∨ t.tickCount = 1 ∧ t.timerTickFreq ≤ e

theorem ClkTimer.Counts.tick {t : ClkTimer} {e : Nat} (h : t.Counts e) :
    t.tick.Counts (TmrCmd.tick.elapsed t e) := by
  obtain ⟨hpos, hle, he⟩ := h
  rcases Int.lt_or_le 1 t.tickCount with hlt | hge
  · rw [TmrCmd.elapsed, ClkTimer.tick_of_one_lt hlt, if_pos rfl]
    constructor <;> dsimp only <;> omega
  · rw [TmrCmd.elapsed, ClkTimer.tick_of_le_one hge, if_neg (by simp)]
    constructor <;> dsimp only <;> omega

/-- A change without restart loads the difference, or 1 where there is none. Reference:
`clk_change_timer_tickFreq` (`src/clock.c:86`). -/
theorem clkChangeTimerTickFreq_tickCount (t : ClkTimer) (newTickFreq : Int) :
    (clkChangeTimerTickFreq t newTickFreq false).tickCount =
      max 1 (newTickFreq - (t.timerTickFreq - t.tickCount)) := by
  simp only [clkChangeTimerTickFreq, Bool.false_eq_true, if_false]
  split <;> omega

/-- A change reschedules the timer when it loads a count in range that is the number of ticks to the
next firing. -/
theorem TmrCmd.reschedules_change_iff {t : ClkTimer} {e : Nat} {newTickFreq : Int}
    {restart : Bool} :
    (TmrCmd.change newTickFreq restart).Reschedules (t, e) ↔
      1 ≤ (clkChangeTimerTickFreq t newTickFreq restart).tickCount ∧
        (clkChangeTimerTickFreq t newTickFreq restart).tickCount ≤ newTickFreq ∧
        (TmrCmd.dueIn newTickFreq restart e : Int) =
          (clkChangeTimerTickFreq t newTickFreq restart).tickCount := by
  constructor
  · rintro ⟨⟨hpos, hle⟩, hfires⟩
    exact ⟨hpos, hle, (ClkTimer.nextFires_iff hpos).1 (hfires _ _ rfl)⟩
  · rintro ⟨hpos, hle, hdue⟩
    refine ⟨⟨hpos, hle⟩, ?_⟩
    rintro _ _ ⟨⟩
    exact (ClkTimer.nextFires_iff hpos).2 hdue

/-- On a timer whose count is in order, a command reschedules it exactly when it is in step. -/
theorem TmrCmd.reschedules_iff {cmd : TmrCmd} {t : ClkTimer} {e : Nat} (h : t.Counts e)
    (hvalid : cmd.Valid) : cmd.Reschedules (t, e) ↔ cmd.InStep (t, e) := by
  cases cmd with
  | tick =>
    refine iff_of_true ⟨⟨h.tick.pos, h.tick.le⟩, ?_⟩ trivial
    intro newTickFreq restart hcmd
    cases hcmd
  | change newTickFreq restart =>
    obtain ⟨hpos, hle, he⟩ := h
    have hnew : 0 < newTickFreq := hvalid
    rw [TmrCmd.reschedules_change_iff]
    cases restart with
    | true =>
      have hcount : (clkChangeTimerTickFreq t newTickFreq true).tickCount = t.timerTickFreq := rfl
      have hdue : TmrCmd.dueIn newTickFreq true e = newTickFreq.toNat := rfl
      simp only [hcount, hdue, TmrCmd.InStep]
      omega
    | false =>
      have hdue : TmrCmd.dueIn newTickFreq false e = (max 1 (newTickFreq - e)).toNat := rfl
      simp only [clkChangeTimerTickFreq_tickCount, hdue, TmrCmd.InStep]
      omega

/-- A command that reschedules the timer keeps its count in order. -/
theorem TmrCmd.Reschedules.counts {cmd : TmrCmd} {t : ClkTimer} {e : Nat} (h : t.Counts e)
    (hr : cmd.Reschedules (t, e)) : (cmd.exec t).Counts (cmd.elapsed t e) := by
  cases cmd with
  | tick => exact h.tick
  | change newTickFreq restart =>
    obtain ⟨hpos, hle, hdue⟩ := TmrCmd.reschedules_change_iff.1 hr
    refine ⟨hpos, hle, ?_⟩
    cases restart with
    | true =>
      have hnew : TmrCmd.dueIn newTickFreq true e = newTickFreq.toNat := rfl
      have hfreq : (TmrCmd.exec (.change newTickFreq true) t).timerTickFreq = newTickFreq := rfl
      have hzero : TmrCmd.elapsed (.change newTickFreq true) t e = 0 := rfl
      rw [hnew] at hdue
      rw [hzero, hfreq, TmrCmd.exec]
      omega
    | false =>
      have hnew : TmrCmd.dueIn newTickFreq false e = (max 1 (newTickFreq - e)).toNat := rfl
      have hfreq : (TmrCmd.exec (.change newTickFreq false) t).timerTickFreq = newTickFreq := rfl
      have hsame : TmrCmd.elapsed (.change newTickFreq false) t e = e := rfl
      rw [hnew] at hdue
      rw [hsame, hfreq, TmrCmd.exec]
      omega

/-- The thread of a timer begins by loading its count. Reference: `clk_timer_start`
(`src/clock.c:29`). -/
def ClkTimer.start (t : ClkTimer) : ClkTimer := { t with tickCount := t.timerTickFreq }

theorem ClkTimer.start_counts {t : ClkTimer} (h : 0 < t.timerTickFreq) : t.start.Counts 0 where
  pos := h
  le := Int.le_refl _
  elapsed := .inl (Int.sub_self _).symm

/-- Every tick and every change of a run leaves the count between 1 and the frequency, and every
change makes the timer fire when it should, exactly when every restart keeps the frequency and no
change without restart raises it once that many ticks have passed. Reference:
`clk_change_timer_tickFreq` (`src/clock.c:83`), `clk_timer_start` (`src/clock.c:29`). -/
theorem clkChangeTimerTickFreq_reschedules_iff {t : ClkTimer} (hfreq : 0 < t.timerTickFreq)
    {cmds : List TmrCmd} (hvalid : ∀ cmd ∈ cmds, cmd.Valid) :
    Machine.Meets TmrCmd.step TmrCmd.Reschedules cmds (t.start, 0) ↔
      Machine.Meets TmrCmd.step TmrCmd.InStep cmds (t.start, 0) := by
  have hkeep : ∀ (cmd : TmrCmd) (s : ClkTimer × Nat) (o : Unit) (s' : ClkTimer × Nat),
      s.1.Counts s.2 → cmd.Valid → cmd.Reschedules s → cmd.step s = .ok (o, s') →
      s'.1.Counts s'.2 := by
    rintro cmd ⟨t, e⟩ _ _ hcounts - hr ⟨⟩
    exact hr.counts hcounts
  refine Machine.meets_congr_of_invariant ?_ hkeep (ClkTimer.start_counts hfreq)
    (Machine.Meets.of_forall hvalid _)
  rintro cmd ⟨t, e⟩ hcounts hcmd
  exact TmrCmd.reschedules_iff hcounts hcmd

/-- A timer of frequency 10 is slowed down to 12 on its third tick and sped up to 4 on its fifth,
which is due at once; it fires and is restarted. -/
theorem clkChangeTimerTickFreq_reschedules_iff_ten :
    Machine.Meets TmrCmd.step TmrCmd.Reschedules
      [.tick, .tick, .tick, .change 12 false, .tick, .tick, .change 4 false, .tick, .change 4 true]
      ((clkTimerInit 10).start, 0) := by
  refine (clkChangeTimerTickFreq_reschedules_iff (by decide) ?_).2 ?_
  · simp [TmrCmd.Valid]
  · refine .cons trivial rfl (.cons trivial rfl (.cons trivial rfl (.cons ?_ rfl (.cons trivial rfl
      (.cons trivial rfl (.cons ?_ rfl (.cons trivial rfl (.cons rfl rfl trivial))))))))
    · exact .inl (by decide)
    · exact .inl (by decide)

/-- Restarted with frequency 3, a timer of frequency 10 counts 10 ticks, more than its frequency,
and fires on the tenth. Five ticks into a frequency of 10, sped up to 3 and slowed down to 10 again,
it is due in 5 ticks and does not fire then. -/
theorem clkChangeTimerTickFreq_not_reschedules :
    (¬ Machine.Meets TmrCmd.step TmrCmd.Reschedules [.change 3 true]
        ((clkTimerInit 10).start, 0) ∧
      (clkChangeTimerTickFreq (clkTimerInit 10).start 3 true).NextFires 10) ∧
    ¬ Machine.Meets TmrCmd.step TmrCmd.Reschedules
      [.tick, .tick, .tick, .tick, .tick, .change 3 false, .change 10 false]
      ((clkTimerInit 10).start, 0) := by
  refine ⟨⟨?_, by decide⟩, ?_⟩
  · intro h
    exact absurd h.1.1.2 (by decide)
  · intro h
    have hrest := ((((h.2 _ _ rfl).2 _ _ rfl).2 _ _ rfl).2 _ _ rfl).2 _ _ rfl
    have hlast := (hrest.2 _ _ rfl).1.2 _ _ rfl
    exact absurd hlast (by decide)

end SeKernel
