import SeKernel.Clock.Barrier

/-!
# The actions of the timers

A timer calls its `TickAction` between two waits, with `mutex_clk` held: the actions act on the
system one after the other, each in a step of its own timer. Whatever the interleaving of the
threads, they come cycle by cycle, and a timer of frequency `f` acts exactly in every `f`-th cycle
since it registered (`clk_actions_on_time`). In one cycle the actions of different timers may come
in any order.
-/

namespace SeKernel

variable {ι σ : Type} [DecidableEq ι]

/-- The timer whose action runs in a step. Reference: `clk_timer_start` (`src/clock.c:36`). -/
def ClkClock.actionOf (s : ClkClock ι) : ClkLabel ι → Option ι
  | .timerRegister j | .timerWake j =>
    if (s.timers j).timerStatus ≠ .terminate ∧ (s.timers j).tickCount - 1 ≤ 0 then some j else none
  | _ => none

/-- The clock and the system that the actions act on. The other fields are bookkeeping. -/
structure Clocked (ι σ : Type) where
  clk : ClkClock ι
  system : σ
  -- broadcasts so far, the cycle in which a timer registered, the actions with their cycles
  cycles : Nat
  born : ι → Nat
  log : List (Nat × ι)

/-- Reference: `clk_clock_init` (`src/clock.c:52`). -/
def Clocked.init (freq : ι → Int) (system : σ) : Clocked ι σ :=
  ⟨clkClockInit freq, system, 0, fun _ => 0, []⟩

/-- A step of the clock. The action of a timer leads the system to a next state; a system without an
action stays. -/
structure Clocked.Step (act : σ → ι → σ → Prop) (s : Clocked ι σ) (l : ClkLabel ι)
    (t : Clocked ι σ) : Prop where
  clk : ClkStep s.clk l t.clk
  action : match s.clk.actionOf l with
    | none => t.system = s.system
    | some j => act s.system j t.system
  log : t.log = s.log ++ ((s.clk.actionOf l).map fun j => (s.cycles, j)).toList
  cycles : t.cycles = if l = .clockLoop ∧ ¬ s.clk.mustWait then s.cycles + 1 else s.cycles
  born : t.born = match l with
    | .timerRegister j => Function.update s.born j s.cycles
    | _ => s.born

/-- Nobody stops a timer or changes its frequency. -/
def ClkLabel.Undisturbed : ClkLabel ι → Prop
  | .stop _ | .changeFreq _ _ _ => False
  | _ => True

/-- A timer of frequency `f`: it has ticked in every cycle since it registered, and it has acted on
the multiples of `f` among its ticks. -/
structure Clocked.OnTime (f : Int) (j : ι) (s : Clocked ι σ) : Prop where
  schedule : (s.clk.timers j).OnSchedule f
  running : (s.clk.timers j).timerStatus = .running
  live : (s.clk.timers j).phase ≠ .ended
  registered : (s.clk.timers j).registered →
    s.born j + (s.clk.timers j).ticks = s.cycles + if (s.clk.timers j).parked then 1 else 0
  unregistered : ¬ (s.clk.timers j).registered → (s.clk.timers j).ticks = 0
  acted : ∀ c, (c, j) ∈ s.log ↔
    s.born j ≤ c ∧ c < s.born j + (s.clk.timers j).ticks ∧ f ∣ (c : Int) + 1 - s.born j
  count : (s.log.map Prod.snd).count j = (s.clk.timers j).ticks / f.toNat

variable {act : σ → ι → σ → Prop} {s t : Clocked ι σ} {l : ClkLabel ι} {f : Int} {i j : ι}

/-- The count is down when the next tick is a multiple of the frequency. -/
theorem ClkTimer.OnSchedule.due_iff {t : ClkTimer} (h : t.OnSchedule f) (hf : 1 ≤ f)
    (hphase : t.phase ≠ .notStarted) : t.tickCount - 1 ≤ 0 ↔ f ∣ (t.ticks : Int) + 1 := by
  have hsucc := emod_succ hf t.ticks
  have hlt := Int.emod_lt_of_pos (t.ticks : Int) (by omega : 0 < f)
  rw [h.counting hphase, Int.dvd_iff_emod_eq_zero, hsucc]
  have hnonneg := Int.emod_nonneg (t.ticks : Int) (by omega : f ≠ 0)
  split <;> omega

/-- Reference: `clk_timer_init` (`src/clock.c:69`). -/
theorem Clocked.init_onTime (freq : ι → Int) (system : σ) (j : ι) :
    (Clocked.init freq system).OnTime (freq j) j where
  schedule := clkTimerInit_onSchedule (freq j)
  running := rfl
  live := nofun
  registered := nofun
  unregistered _ := rfl
  acted c := by
    constructor
    · exact nofun
    · rintro ⟨-, hlt, -⟩
      exact absurd hlt (Nat.not_lt_zero c)
  count := (Nat.zero_div _).symm

theorem Clocked.Step.count_log (h : s.Step act l t) :
    (t.log.map Prod.snd).count j =
      (s.log.map Prod.snd).count j + if s.clk.actionOf l = some j then 1 else 0 := by
  rw [h.log, List.map_append, List.count_append]
  cases s.clk.actionOf l with
  | none => simp
  | some i => simp [List.count_singleton]

theorem Clocked.Step.mem_log (h : s.Step act l t) {c : Nat} :
    (c, j) ∈ t.log ↔ (c, j) ∈ s.log ∨ (c = s.cycles ∧ s.clk.actionOf l = some j) := by
  rw [h.log, List.mem_append]
  cases s.clk.actionOf l with
  | none => simp
  | some i => simp [eq_comm]

/-- A timer that a step leaves alone stays on time. -/
theorem Clocked.OnTime.of_same (h : s.OnTime f j) (hstep : s.Step act l t)
    (htimer : t.clk.timers j = s.clk.timers j) (hcycles : t.cycles = s.cycles)
    (hborn : t.born j = s.born j) (haction : s.clk.actionOf l ≠ some j) : t.OnTime f j where
  schedule := htimer ▸ h.schedule
  running := htimer ▸ h.running
  live := htimer ▸ h.live
  registered := by
    rw [htimer, hcycles, hborn]
    exact h.registered
  unregistered := by
    rw [htimer]
    exact h.unregistered
  acted c := by
    rw [hstep.mem_log, htimer, hborn, ← h.acted c]
    exact or_iff_left fun hc => haction hc.2
  count := by
    rw [hstep.count_log, htimer, if_neg haction]
    exact h.count

/-- A tick, which is the first one or comes in the cycle after the last one. Reference:
`clk_timer_start` (`src/clock.c:33`). -/
theorem Clocked.OnTime.tick (h : s.OnTime f j) (hf : 1 ≤ f) (hstep : s.Step act l t)
    (hphase : (s.clk.timers j).phase ≠ .notStarted)
    (htimer : t.clk.timers j = { (s.clk.timers j).tick with phase := .parked })
    (hcycles : t.cycles = s.cycles) (hborn : t.born j = s.born j ∨ (s.clk.timers j).ticks = 0)
    (hticks : t.born j + (s.clk.timers j).ticks = s.cycles)
    (haction : s.clk.actionOf l = some j ↔ f ∣ ((s.clk.timers j).ticks : Int) + 1) :
    t.OnTime f j := by
  have hkept : (s.clk.timers j).tick.ticks = (s.clk.timers j).ticks + 1 ∧
      (s.clk.timers j).tick.timerStatus = (s.clk.timers j).timerStatus := by
    unfold ClkTimer.tick
    dsimp only
    split <;> exact ⟨rfl, rfl⟩
  refine ⟨?_, ?_, ?_, fun _ => ?_, fun hno => ?_, fun c => ?_, ?_⟩
  · rw [htimer]
    exact h.schedule.tick hf hphase
  · rw [htimer]
    exact hkept.2.trans h.running
  · rw [htimer]
    exact nofun
  · rw [htimer, hcycles]
    simp only [hkept.1, ClkTimer.parked, decide_true, if_true]
    omega
  · rw [htimer] at hno
    simp [ClkTimer.registered] at hno
  · rw [hstep.mem_log, h.acted, htimer]
    simp only [hkept.1, haction]
    have hlast : c = s.cycles → (c : Int) + 1 - t.born j = (s.clk.timers j).ticks + 1 := by
      omega
    rcases hborn with hborn | hzero
    · rw [← hborn]
      constructor
      · rintro (⟨hge, hlt, hdvd⟩ | ⟨hc, hdvd⟩)
        · exact ⟨hge, by omega, hdvd⟩
        · exact ⟨by omega, by omega, hlast hc ▸ hdvd⟩
      · rintro ⟨hge, hlt, hdvd⟩
        by_cases hc : c = s.cycles
        · exact .inr ⟨hc, hlast hc ▸ hdvd⟩
        · exact .inl ⟨hge, by omega, hdvd⟩
    · constructor
      · rintro (⟨hge, hlt, -⟩ | ⟨hc, hdvd⟩)
        · omega
        · exact ⟨by omega, by omega, hlast hc ▸ hdvd⟩
      · rintro ⟨hge, hlt, hdvd⟩
        have hc : c = s.cycles := by omega
        exact .inr ⟨hc, hlast hc ▸ hdvd⟩
  · have hdvd : f ∣ ((s.clk.timers j).ticks : Int) + 1 ↔ f.toNat ∣ (s.clk.timers j).ticks + 1 := by
      rw [← Int.natCast_dvd_natCast, Int.toNat_of_nonneg (by omega)]
      push_cast
      rfl
    rw [hstep.count_log, h.count, htimer, hkept.1, Nat.succ_div]
    simp only [haction, hdvd]

/-- Timer `j` at the test of its loop. Reference: `clk_timer_start` (`src/clock.c:32`). -/
theorem ClkClock.timerLoop_self {clk : ClkClock ι}
    (hrunning : (clk.timers j).timerStatus = .running) :
    (clk.timerLoop j).timers j = { (clk.timers j).tick with phase := .parked } := by
  unfold ClkClock.timerLoop
  simp [hrunning]

theorem ClkClock.timerLoop_of_ne {clk : ClkClock ι} (hij : j ≠ i) :
    (clk.timerLoop i).timers j = clk.timers j := by
  unfold ClkClock.timerLoop
  split <;> simp [hij]

omit [DecidableEq ι] in
/-- Only a timer that goes round its loop acts. -/
theorem ClkClock.actionOf_ne {clk : ClkClock ι} (hij : j ≠ i) :
    clk.actionOf (.timerRegister i) ≠ some j ∧ clk.actionOf (.timerWake i) ≠ some j := by
  unfold ClkClock.actionOf
  dsimp only
  split <;> simp [hij.symm]

/-- It acts when the new tick is a multiple of the frequency. -/
theorem Clocked.OnTime.actionOf_iff (h : s.OnTime f j) (hf : 1 ≤ f)
    (hphase : (s.clk.timers j).phase ≠ .notStarted) :
    (s.clk.actionOf (.timerRegister j) = some j ↔ f ∣ ((s.clk.timers j).ticks : Int) + 1) ∧
    (s.clk.actionOf (.timerWake j) = some j ↔ f ∣ ((s.clk.timers j).ticks : Int) + 1) := by
  unfold ClkClock.actionOf
  dsimp only
  rw [h.running, ← h.schedule.due_iff hf hphase]
  simp

/-- A broadcast begins a cycle; a timer that has not ticked in the last one has not registered.
Reference: `clk_clock_start` (`src/clock.c:18`). -/
theorem Clocked.OnTime.broadcast [Fintype ι] (h : s.OnTime f j) (hbarrier : s.clk.Barrier)
    (hphase : s.clk.phase = .running) (hgo : ¬ s.clk.mustWait)
    (htimer : t.clk.timers j = (s.clk.timers j).release)
    (hschedule : (t.clk.timers j).OnSchedule f) (hcycles : t.cycles = s.cycles + 1)
    (hborn : t.born = s.born) (hlog : t.log = s.log) : t.OnTime f j := by
  have hkept : ((s.clk.timers j).release).registered = (s.clk.timers j).registered := by
    simp only [ClkTimer.release, ClkTimer.registered]
    split <;> simp_all
  have hparked : ((s.clk.timers j).release).parked = false := by
    simp only [ClkTimer.release, ClkTimer.parked]
    split <;> simp_all
  refine ⟨hschedule, ?_, ?_, fun hreg => ?_, ?_, fun c => ?_, ?_⟩
  · rw [htimer]
    exact h.running
  · rw [htimer]
    simp only [ClkTimer.release]
    split
    · intro hended
      cases hended
    · exact h.live
  · rw [htimer, hkept] at hreg
    have hticked := hbarrier.ticked_once ⟨hphase, hgo⟩ j hreg
    rw [hbarrier.ticked j] at hticked
    have hticks := h.registered hreg
    rw [htimer, hborn, hcycles, hparked]
    simp only [ClkTimer.release]
    split at hticked
    · next hp =>
      rw [if_pos hp] at hticks
      simpa using hticks
    · cases hticked
  · rw [htimer, hkept]
    exact h.unregistered
  · rw [hlog, hborn, htimer]
    exact h.acted c
  · rw [hlog, htimer]
    exact h.count

/-- Every step leaves a timer on time when nobody stops a timer or changes its frequency. -/
theorem Clocked.OnTime.step [Fintype ι] (h : s.OnTime f j) (hf : 1 ≤ f) (hbarrier : s.clk.Barrier)
    (hl : l.Undisturbed) (hstep : s.Step act l t) : t.OnTime f j := by
  have hschedule : (t.clk.timers j).OnSchedule f := by
    refine hstep.clk.onSchedule hf h.schedule fun newTickFreq restart he => ?_
    rw [he] at hl
    exact hl
  obtain ⟨clk, system, cycles, born, log⟩ := t
  have hcycles := hstep.cycles
  have hborn := hstep.born
  cases (show ClkStep.Fires s.clk l clk from hstep.clk.fires) with
  | clockStart | clockWake =>
    exact h.of_same hstep rfl (by simpa using hcycles) (congrFun hborn j)
      (by simp [ClkClock.actionOf])
  | clockLoop =>
    have hphase : s.clk.phase = .running := by
      have hnext := hstep.clk
      simp only [ClkStep, ClkClock.next, Option.ite_none_right_eq_some] at hnext
      exact hnext.1
    by_cases hgo : s.clk.mustWait
    · refine h.of_same hstep ?_ (by simpa [hgo] using hcycles) (congrFun hborn j)
        (by simp [ClkClock.actionOf])
      unfold ClkClock.clockLoop
      rw [if_pos hgo]
    · refine h.broadcast hbarrier hphase hgo ?_ hschedule (by simpa [hgo] using hcycles) hborn
        (by simpa [ClkClock.actionOf] using hstep.log)
      unfold ClkClock.clockLoop
      rw [if_neg hgo]
  | timerStart i hphase =>
    by_cases hij : j = i
    · subst hij
      have hno : ¬ (s.clk.timers j).registered := by simp [ClkTimer.registered, hphase]
      refine ⟨hschedule, ?_, ?_, fun hreg => ?_, fun _ => ?_, fun c => ?_, ?_⟩
      · simpa using h.running
      · simp
      · simp [ClkTimer.registered] at hreg
      · simpa using h.unregistered hno
      · rw [hstep.mem_log, h.acted, hborn]
        simp [ClkClock.actionOf]
      · rw [hstep.count_log, h.count]
        simp [ClkClock.actionOf]
    · exact h.of_same hstep (by simp [hij]) (by simpa using hcycles) (congrFun hborn j)
        (by simp [ClkClock.actionOf])
  | timerRegister i hphase =>
    by_cases hij : j = i
    · subst hij
      have hstarted : (s.clk.timers j).phase ≠ .notStarted := by simp [hphase]
      have hzero : (s.clk.timers j).ticks = 0 :=
        h.unregistered (by simp [ClkTimer.registered, hphase])
      refine h.tick hf hstep hstarted ?_ (by simpa using hcycles) (.inr hzero) ?_
        (h.actionOf_iff hf hstarted).1
      · exact ClkClock.timerLoop_self h.running
      · rw [hborn, hzero]
        simp
    · refine h.of_same hstep (ClkClock.timerLoop_of_ne hij) (by simpa using hcycles) ?_
        (ClkClock.actionOf_ne hij).1
      rw [hborn]
      exact Function.update_of_ne hij _ _
  | timerWake i hphase =>
    by_cases hij : j = i
    · subst hij
      have hstarted : (s.clk.timers j).phase ≠ .notStarted := by simp [hphase]
      have hticks := h.registered (by simp [ClkTimer.registered, hphase])
      refine h.tick hf hstep hstarted ?_ (by simpa using hcycles) (.inl (congrFun hborn j)) ?_
        (h.actionOf_iff hf hstarted).2
      · exact ClkClock.timerLoop_self h.running
      · rw [hborn]
        simpa [ClkTimer.parked, hphase] using hticks
    · exact h.of_same hstep (ClkClock.timerLoop_of_ne hij) (by simpa using hcycles)
        (congrFun hborn j) (ClkClock.actionOf_ne hij).2
  | stop i | changeFreq i => exact hl.elim

/-! ## Runs -/

/-- A timer does not act twice in a cycle. -/
theorem Clocked.OnTime.fresh (h : s.OnTime f j) (hstep : s.Step act l t)
    (haction : s.clk.actionOf l = some j) : (s.cycles, j) ∉ s.log := by
  have hcycle : s.born j + (s.clk.timers j).ticks = s.cycles ∨ (s.clk.timers j).ticks = 0 := by
    obtain ⟨clk, system, cycles, born, log⟩ := t
    cases (show ClkStep.Fires s.clk l clk from hstep.clk.fires) with
    | timerRegister i hphase =>
      by_cases hij : j = i
      · subst hij
        exact .inr (h.unregistered (by simp [ClkTimer.registered, hphase]))
      · exact absurd haction (ClkClock.actionOf_ne hij).1
    | timerWake i hphase =>
      by_cases hij : j = i
      · subst hij
        have hticks := h.registered (by simp [ClkTimer.registered, hphase])
        exact .inl (by simpa [ClkTimer.parked, hphase] using hticks)
      · exact absurd haction (ClkClock.actionOf_ne hij).2
    | clockStart | clockLoop | clockWake | timerStart | stop | changeFreq => cases haction
  rw [h.acted]
  omega

/-- What holds of every state of a run: the timers are on time, and the actions in their order lead
to the system. -/
structure Clocked.Good [Fintype ι] (act : σ → ι → σ → Prop) (freq : ι → Int) (x : σ)
    (s : Clocked ι σ) : Prop where
  barrier : s.clk.Barrier
  onTime : ∀ j, s.OnTime (freq j) j
  run : Lts.Steps act x (s.log.map Prod.snd) s.system
  past : ∀ a ∈ s.log, a.1 ≤ s.cycles
  ordered : s.log.Pairwise fun a b => a.1 ≤ b.1
  nodup : s.log.Nodup

variable [Fintype ι] {freq : ι → Int} {x : σ} {ls : List (ClkLabel ι)}

theorem Clocked.init_good (act : σ → ι → σ → Prop) (freq : ι → Int) (x : σ) :
    (Clocked.init freq x).Good act freq x where
  barrier := clkClockInit_barrier freq
  onTime := Clocked.init_onTime freq x
  run := .refl
  past := nofun
  ordered := .nil
  nodup := .nil

theorem Clocked.Good.step (h : s.Good act freq x) (hfreq : ∀ j, 1 ≤ freq j) (hl : l.Undisturbed)
    (hstep : s.Step act l t) : t.Good act freq x := by
  have haction := hstep.action
  have hlog := hstep.log
  have hpast : s.cycles ≤ t.cycles := by
    rw [hstep.cycles]
    split <;> omega
  have hbarrier := hstep.clk.barrier h.barrier
  have honTime := fun j => (h.onTime j).step (hfreq j) h.barrier hl hstep
  cases hacts : s.clk.actionOf l with
  | none =>
    rw [hacts] at haction hlog
    simp only [Option.map_none, Option.toList_none, List.append_nil] at hlog
    refine ⟨hbarrier, honTime, ?_, ?_, ?_, ?_⟩
    · rw [hlog, haction]
      exact h.run
    · rw [hlog]
      exact fun a ha => (h.past a ha).trans hpast
    · exact hlog ▸ h.ordered
    · exact hlog ▸ h.nodup
  | some j =>
    have hfresh := (h.onTime j).fresh hstep hacts
    rw [hacts] at haction hlog
    simp only [Option.map_some, Option.toList_some] at hlog
    refine ⟨hbarrier, honTime, ?_, ?_, ?_, ?_⟩ <;> rw [hlog]
    · rw [List.map_append]
      exact h.run.tail haction
    · intro a ha
      rcases List.mem_append.1 ha with ha | ha
      · exact (h.past a ha).trans hpast
      · rw [List.mem_singleton.1 ha]
        exact hpast
    · refine List.pairwise_append.2 ⟨h.ordered, List.pairwise_singleton _ _, fun a ha b hb => ?_⟩
      rw [List.mem_singleton.1 hb]
      exact h.past a ha
    · refine List.nodup_append.2 ⟨h.nodup, List.nodup_singleton _, fun a ha b hb hab => ?_⟩
      rw [List.mem_singleton.1 hb] at hab
      exact hfresh (hab ▸ ha)

theorem Clocked.Good.of_run (hfreq : ∀ j, 1 ≤ freq j) (hls : ∀ l ∈ ls, l.Undisturbed)
    (h : Lts.Steps (Clocked.Step act) (Clocked.init freq x) ls s) : s.Good act freq x :=
  h.invariant_of_labels (fun _ _ _ ht hl hstep => ht.step hfreq hl hstep)
    (Clocked.init_good act freq x) hls

/-- The cycles in which a timer has acted. -/
theorem Clocked.Good.mem_log (h : s.Good act freq x) (c : Nat) (j : ι) :
    (c, j) ∈ s.log ↔ (s.clk.timers j).registered ∧ s.born j ≤ c ∧
      (c < s.cycles ∨ c = s.cycles ∧ (s.clk.timers j).parked) ∧
      freq j ∣ (c : Int) + 1 - s.born j := by
  have hj := h.onTime j
  rw [hj.acted]
  by_cases hreg : (s.clk.timers j).registered
  · have hticks := hj.registered hreg
    split at hticks
    · next hp =>
      have hlast : c < s.born j + (s.clk.timers j).ticks ↔ c < s.cycles ∨ c = s.cycles := by omega
      simp only [hreg, hp, hlast, and_true, true_and]
    · next hp =>
      have hlast : c < s.born j + (s.clk.timers j).ticks ↔ c < s.cycles := by omega
      simp only [hreg, hp, hlast, Bool.false_eq_true, and_false, or_false, true_and]
  · have hticks := hj.unregistered hreg
    constructor
    · omega
    · exact fun hlog => absurd hlog.1 hreg

omit [Fintype ι] in
/-- How often it has acted. -/
theorem Clocked.OnTime.count_eq (h : s.OnTime f j) (hreg : (s.clk.timers j).registered) :
    (s.log.map Prod.snd).count j =
      (s.cycles + (if (s.clk.timers j).parked then 1 else 0) - s.born j) / f.toNat := by
  have hticks := h.registered hreg
  rw [h.count, ← hticks, Nat.add_sub_cancel_left]

/-- In every run of the clock and its timers in which nobody stops a timer or changes its frequency,
whatever the interleaving of the threads: the system is where the actions lead in the order in which
they came, which is cycle by cycle, and a registered timer has acted once in every cycle whose
number, counted from the one in which it registered, is a multiple of its frequency, and in no
other; so it has acted once for every `f` cycles. Reference: `clk_clock_start` (`src/clock.c:8`),
`clk_timer_start` (`src/clock.c:24`). -/
theorem clk_actions_on_time (hfreq : ∀ j, 1 ≤ freq j) (hls : ∀ l ∈ ls, l.Undisturbed)
    (h : Lts.Steps (Clocked.Step act) (Clocked.init freq x) ls s) :
    Lts.Steps ClkStep (clkClockInit freq) ls s.clk ∧
    Lts.Steps act x (s.log.map Prod.snd) s.system ∧
    s.log.Pairwise (fun a b => a.1 ≤ b.1) ∧ s.log.Nodup ∧
    (∀ c j, (c, j) ∈ s.log ↔ (s.clk.timers j).registered ∧ s.born j ≤ c ∧
      (c < s.cycles ∨ c = s.cycles ∧ (s.clk.timers j).parked) ∧
      freq j ∣ (c : Int) + 1 - s.born j) ∧
    ∀ j, (s.clk.timers j).registered → (s.log.map Prod.snd).count j =
      (s.cycles + (if (s.clk.timers j).parked then 1 else 0) - s.born j) / (freq j).toNat := by
  have hgood := Clocked.Good.of_run hfreq hls h
  have hclk : ∃ clk, Lts.Steps ClkStep (clkClockInit freq) ls clk ∧ s.clk = clk :=
    h.simulates (R := fun s clk => s.clk = clk) (fun s u l clk hs hstep =>
      ⟨u.clk, hs ▸ hstep.clk, rfl⟩) rfl
  obtain ⟨clk, hclk, rfl⟩ := hclk
  exact ⟨hclk, hgood.run, hgood.ordered, hgood.nodup, hgood.mem_log,
    fun j hreg => (hgood.onTime j).count_eq hreg⟩

/-- Two timers register before the clock starts, and one broadcast follows. -/
def twoTimers (i j : ι) : List (ClkLabel ι) :=
  [.timerStart i, .timerRegister i, .timerStart j, .timerRegister j, .clockStart, .clockLoop,
    .clockLoop, .timerWake j, .timerWake i]

/-- Their frequencies are 1 and 2, and the system records the actions. -/
theorem clk_actions_on_time_two : ∃ s : Clocked (Fin 2) (List (Fin 2)),
    Lts.Steps (Clocked.Step fun x j x' => x' = x ++ [j]) (Clocked.init ![1, 2] [])
      (twoTimers 0 1) s ∧
    s.system = [0, 1, 0] ∧ (0, 1) ∉ s.log ∧ (1, 1) ∈ s.log := by
  let Step := Clocked.Step (ι := Fin 2) fun (x : List (Fin 2)) j x' => x' = x ++ [j]
  let start : Clocked (Fin 2) (List (Fin 2)) := Clocked.init ![1, 2] []
  have h₁ : Lts.Steps Step start ((twoTimers 0 1).take 1) ⟨_, _, _, _, _⟩ :=
    Lts.Steps.refl.tail ⟨rfl, rfl, rfl, rfl, rfl⟩
  have h₂ : Lts.Steps Step start ((twoTimers 0 1).take 2) ⟨_, _, _, _, _⟩ :=
    h₁.tail ⟨rfl, rfl, rfl, rfl, rfl⟩
  have h₃ : Lts.Steps Step start ((twoTimers 0 1).take 3) ⟨_, _, _, _, _⟩ :=
    h₂.tail ⟨rfl, rfl, rfl, rfl, rfl⟩
  have h₄ : Lts.Steps Step start ((twoTimers 0 1).take 4) ⟨_, _, _, _, _⟩ :=
    h₃.tail ⟨rfl, rfl, rfl, rfl, rfl⟩
  have h₅ : Lts.Steps Step start ((twoTimers 0 1).take 5) ⟨_, _, _, _, _⟩ :=
    h₄.tail ⟨rfl, rfl, rfl, rfl, rfl⟩
  have h₆ : Lts.Steps Step start ((twoTimers 0 1).take 6) ⟨_, _, _, _, _⟩ :=
    h₅.tail ⟨rfl, rfl, rfl, rfl, rfl⟩
  have h₇ : Lts.Steps Step start ((twoTimers 0 1).take 7) ⟨_, _, _, _, _⟩ :=
    h₆.tail ⟨rfl, rfl, rfl, rfl, rfl⟩
  have h₈ : Lts.Steps Step start ((twoTimers 0 1).take 8) ⟨_, _, _, _, _⟩ :=
    h₇.tail ⟨rfl, rfl, rfl, rfl, rfl⟩
  have h₉ : Lts.Steps Step start (twoTimers 0 1) ⟨_, _, _, _, _⟩ :=
    h₈.tail ⟨rfl, rfl, rfl, rfl, rfl⟩
  obtain ⟨-, -, -, -, hlog, -⟩ :=
    clk_actions_on_time (by decide) (by simp [twoTimers, ClkLabel.Undisturbed]) h₉
  exact ⟨_, h₉, rfl, fun hmem => absurd ((hlog 0 1).1 hmem).2.2.2 (by decide),
    (hlog 1 1).2 (by decide)⟩

end SeKernel
