import SeKernel.Memory.PageTable

/-!
# Allocating frames in bulk

`pm_m_frame_malloc_bulk` over any functions in the place of `pm_m_frame_malloc` and
`pm_m_frame_free`, of which the model of Memory/PageTable is an instance (`pmMFrameMallocBulk_eq`).
`pm_m_frame_malloc` returns 0 when it has a frame, and the loop takes 0 for a failure: it leaves
through `err` at the first frame it gets and goes on after an allocation that failed, so the test of
the roll-back never holds. The call is all or nothing only when there is nothing
(`frameMallocBulk_allOrNothing_iff`).
-/

namespace SeKernel

/-- What stands in the place of `pm_m_frame_malloc`, with what it writes to `*address` if it writes
it, and of `pm_m_frame_free`. -/
structure FrameCalls (σ : Type) where
  frameMalloc : σ → Outcome (Int × Option Word × σ)
  frameFree : σ → Word → Outcome (Int × σ)

variable {σ : Type}

/-- The `for` loop of `pm_m_frame_malloc_bulk` (`src/memory_s.c:89`) with so many rounds to go. The
result has the final `current_entry`. -/
def mallocRounds (calls : FrameCalls σ) :
    Nat → Nat → σ → (Nat → Word) → Outcome (Nat × (Nat → Word) × σ)
  | 0, currentEntry, s, frameAddressArray => return (currentEntry, frameAddressArray, s)
  | rounds + 1, currentEntry, s, frameAddressArray => do
    let (ret, address, s) ← calls.frameMalloc s
    let frameAddressArray := match address with
      | none => frameAddressArray
      | some frameAddress => Function.update frameAddressArray currentEntry frameAddress
    if ret = 0 then
      throw (.err 1 "pm_m_frame_malloc_bulk: pm_m_frame_malloc failed")
    mallocRounds calls rounds (currentEntry + 1) s frameAddressArray

/-- The return value, the array and the state. Reference: `pm_m_frame_malloc_bulk`
(`src/memory_s.c:86`). -/
def frameMallocBulk (calls : FrameCalls σ) (s : σ) (frameAddressArray : Nat → Word)
    (frameCount : Int) : Outcome (Int × (Nat → Word) × σ) := do
  let (currentEntry, frameAddressArray, s) ←
    mallocRounds calls frameCount.toNat 0 s frameAddressArray
  if currentEntry ≠ frameCount then
    let s ← (List.range currentEntry).foldlM
      (fun s i => do
        let (_, s) ← calls.frameFree s (frameAddressArray i)
        return s)
      s
    return (0, frameAddressArray, s)
  return (0, frameAddressArray, s)

/-- What `pm_pt_page_table_malloc` takes for a failure. Reference: `pm_pt_page_table_malloc`
(`src/memory_s.c:116`). -/
def CallerFails (ret : Int) : Prop := ret = 0

/-! ## All or nothing -/

/-- The number of allocations so far and the frames freed. -/
structure BulkTrace where
  next : Nat
  freed : List Word

/-- Allocations with given outcomes, by the convention of `pm_m_frame_malloc`
(`src/memory_s.c:56`): 0 and a frame, or -1. -/
def outcomeCalls (outcomes : Nat → Option Word) : FrameCalls BulkTrace where
  frameMalloc s :=
    match outcomes s.next with
    | some frameAddress => return (0, some frameAddress, { s with next := s.next + 1 })
    | none => return (-1, none, { s with next := s.next + 1 })
  frameFree s frameAddress := return (0, { s with freed := s.freed ++ [frameAddress] })

/-- When all of the `n` allocations have a frame the call returns a success and the frames stand in
the array in order; when the `j`-th one is the first to have none it frees the `j` frames before it
and returns what the caller takes for a failure. -/
structure AllOrNothing (success : Int → Prop) (outcomes : Nat → Option Word) (n : Nat) : Prop where
  all : (∀ i < n, (outcomes i).isSome) → ∀ arr, ∃ ret arr' s,
    frameMallocBulk (outcomeCalls outcomes) ⟨0, []⟩ arr n = .ok (ret, arr', s) ∧ success ret ∧
    (∀ i < n, outcomes i = some (arr' i)) ∧ s.freed = []
  nothing : ∀ j < n, (∀ i < j, (outcomes i).isSome) → outcomes j = none → ∀ arr, ∃ ret arr' s,
    frameMallocBulk (outcomeCalls outcomes) ⟨0, []⟩ arr n = .ok (ret, arr', s) ∧ CallerFails ret ∧
    s.freed.Perm ((List.range j).filterMap outcomes)

section

variable {outcomes : Nat → Option Word} {n rounds : Nat} {s : BulkTrace} {arr : Nat → Word}

/-- A frame ends the program. Reference: `pm_m_frame_malloc_bulk` (`src/memory_s.c:90`). -/
theorem mallocRounds_error {i : Nat} (hi : i < rounds) (hframe : (outcomes (s.next + i)).isSome)
    (currentEntry : Nat) (arr : Nat → Word) :
    mallocRounds (outcomeCalls outcomes) rounds currentEntry s arr =
      .error (.err 1 "pm_m_frame_malloc_bulk: pm_m_frame_malloc failed") := by
  induction rounds generalizing i s currentEntry arr with
  | zero => omega
  | succ rounds ih =>
    cases hfirst : outcomes s.next with
    | some frameAddress => simp [mallocRounds, outcomeCalls, hfirst]
    | none =>
      have hpos : i ≠ 0 := by
        rintro rfl
        rw [Nat.add_zero, hfirst] at hframe
        cases hframe
      have hlater : (outcomes (s.next + 1 + (i - 1))).isSome := by
        rw [show s.next + 1 + (i - 1) = s.next + i by omega]
        exact hframe
      have hround := ih (s := { s with next := s.next + 1 }) (show i - 1 < rounds by omega) hlater
        (currentEntry + 1) arr
      simpa [mallocRounds, outcomeCalls, hfirst] using hround

/-- Allocations that fail are passed over. -/
theorem mallocRounds_ok (hnone : ∀ i < rounds, outcomes (s.next + i) = none) (currentEntry : Nat)
    (arr : Nat → Word) :
    mallocRounds (outcomeCalls outcomes) rounds currentEntry s arr =
      .ok (currentEntry + rounds, arr, { s with next := s.next + rounds }) := by
  induction rounds generalizing s currentEntry with
  | zero => rfl
  | succ rounds ih =>
    have hfirst : outcomes s.next = none := hnone 0 (Nat.succ_pos _)
    have hround := @ih { s with next := s.next + 1 } (fun i hi => by
      rw [show s.next + 1 + i = s.next + (i + 1) by omega]
      exact hnone (i + 1) (by omega)) (currentEntry + 1)
    rw [show currentEntry + 1 + rounds = currentEntry + (rounds + 1) by omega,
      show s.next + 1 + rounds = s.next + (rounds + 1) by omega] at hround
    simpa [mallocRounds, outcomeCalls, hfirst] using hround

/-- The call returns when no allocation has a frame: 0, and nothing is written or freed. -/
theorem frameMallocBulk_none (hnone : ∀ i < n, outcomes i = none) (arr : Nat → Word) :
    frameMallocBulk (outcomeCalls outcomes) ⟨0, []⟩ arr n = .ok (0, arr, ⟨n, []⟩) := by
  have hrounds : mallocRounds (outcomeCalls outcomes) n 0 ⟨0, []⟩ arr =
      .ok (0 + n, arr, ⟨0 + n, []⟩) :=
    mallocRounds_ok (fun i hi => by
      rw [Nat.zero_add]
      exact hnone i hi) 0 arr
  rw [Nat.zero_add] at hrounds
  unfold frameMallocBulk
  rw [Int.toNat_natCast, hrounds, Outcome.ok_bind]
  simp

/-- It leaves the program when some allocation has a frame. -/
theorem frameMallocBulk_some {i : Nat} (hi : i < n) (hframe : (outcomes i).isSome)
    (arr : Nat → Word) :
    frameMallocBulk (outcomeCalls outcomes) ⟨0, []⟩ arr n =
      .error (.err 1 "pm_m_frame_malloc_bulk: pm_m_frame_malloc failed") := by
  have hrounds := mallocRounds_error (s := ⟨0, []⟩) hi (by rwa [Nat.zero_add]) 0 arr
  unfold frameMallocBulk
  rw [Int.toNat_natCast, hrounds]
  rfl

/-- A call that is all or nothing returns, so no allocation has a frame. -/
theorem AllOrNothing.eq_none {success : Int → Prop} (h : AllOrNothing success outcomes n) {i : Nat}
    (hi : i < n) : outcomes i = none := by
  by_contra hframe
  rw [← ne_eq, Option.ne_none_iff_isSome] at hframe
  have herr := frameMallocBulk_some hi hframe fun _ => 0
  by_cases hall : ∀ k < n, (outcomes k).isSome
  · obtain ⟨ret, arr', s, hok, -⟩ := h.all hall fun _ => 0
    rw [herr] at hok
    cases hok
  · -- the first allocation that fails
    have hex : ∃ k, k < n ∧ outcomes k = none := by
      simpa using hall
    obtain ⟨hlt, hfails⟩ := Nat.find_spec hex
    have hbefore : ∀ k < Nat.find hex, (outcomes k).isSome := by
      intro k hk
      have hmin := Nat.find_min hex hk
      rw [not_and, ← ne_eq, Option.ne_none_iff_isSome] at hmin
      exact hmin (hk.trans hlt)
    obtain ⟨ret, arr', s, hok, -⟩ := h.nothing (Nat.find hex) hlt hbefore hfails fun _ => 0
    rw [herr] at hok
    cases hok

/-- When every allocation fails, the call is all or nothing if an empty request is a success. -/
theorem AllOrNothing.of_none {success : Int → Prop} (hzero : n = 0 → success 0)
    (hnone : ∀ i < n, outcomes i = none) : AllOrNothing success outcomes n := by
  refine ⟨fun hall arr => ?_, fun j hj hbefore hfails arr => ?_⟩
  · have hempty : n = 0 := by
      by_contra hn
      have hframe := hall 0 (by omega)
      rw [hnone 0 (by omega)] at hframe
      cases hframe
    exact ⟨0, arr, ⟨n, []⟩, frameMallocBulk_none hnone arr, hzero hempty, fun i hi => by omega,
      rfl⟩
  · have hfirst : j = 0 := by
      by_contra hj0
      have hframe := hbefore 0 (by omega)
      rw [hnone 0 (by omega)] at hframe
      cases hframe
    subst hfirst
    exact ⟨0, arr, ⟨n, []⟩, frameMallocBulk_none hnone arr, rfl, List.Perm.refl _⟩

/-- For an empty request the question is whether 0 is a success; beyond that the call is all or
nothing when every allocation fails. -/
theorem allOrNothing_iff (success : Int → Prop) (outcomes : Nat → Option Word) (n : Nat) :
    AllOrNothing success outcomes n ↔
      (n = 0 → success 0) ∧ ∀ i < n, outcomes i = none := by
  constructor
  · intro h
    refine ⟨fun hzero => ?_, fun i hi => h.eq_none hi⟩
    subst hzero
    obtain ⟨ret, arr', s, hok, hsuccess, -⟩ := h.all (fun i hi => by omega) fun _ => 0
    rw [frameMallocBulk_none fun i hi => h.eq_none hi] at hok
    cases hok
    exact hsuccess
  · intro h
    exact .of_none h.1 h.2

/-- The bulk allocation is all or nothing if and only if it is asked for a frame and every
allocation fails, a success being what the caller does not take for a failure; with 0 for a success
the empty request joins these. Reference: `pm_m_frame_malloc_bulk` (`src/memory_s.c:86`). -/
theorem frameMallocBulk_allOrNothing_iff (outcomes : Nat → Option Word) (n : Nat) :
    (AllOrNothing (fun ret => ¬ CallerFails ret) outcomes n ↔
      0 < n ∧ ∀ i < n, outcomes i = none) ∧
    (AllOrNothing (fun ret => ret = 0) outcomes n ↔ ∀ i < n, outcomes i = none) := by
  rw [allOrNothing_iff, allOrNothing_iff]
  refine ⟨and_congr_left fun _ => ?_, and_iff_right fun _ => rfl⟩
  rw [Nat.pos_iff_ne_zero]
  exact ⟨fun h hn => h hn rfl, fun h hn => absurd hn h⟩

/-- Two allocations that have a frame each: the program ends at the first one. -/
theorem frameMallocBulk_fails :
    frameMallocBulk (outcomeCalls fun i => some (BitVec.ofNat 32 (0x400000 + 256 * i))) ⟨0, []⟩
        (fun _ => 0) 2 = .error (.err 1 "pm_m_frame_malloc_bulk: pm_m_frame_malloc failed") ∧
    ¬ AllOrNothing (fun ret => ¬ CallerFails ret)
      (fun i => some (BitVec.ofNat 32 (0x400000 + 256 * i))) 2 ∧
    ¬ AllOrNothing (fun ret => ret = 0)
      (fun i => some (BitVec.ofNat 32 (0x400000 + 256 * i))) 2 := by
  have hfails (success : Int → Prop) : ¬ AllOrNothing success
      (fun i => some (BitVec.ofNat 32 (0x400000 + 256 * i))) 2 := by
    intro h
    obtain ⟨ret, arr', s, hok, -⟩ := h.all (fun _ _ => rfl) fun _ => 0
    cases hok
  exact ⟨rfl, hfails _, hfails _⟩

end

/-! ## The allocator's own calls -/

/-- The calls of `pm_m_frame_malloc_bulk` on a memory, `pm_m_frame_malloc` being any function. -/
def memoryCalls (frameMalloc : PhysicalMemory → Outcome (Int × Word × PhysicalMemory)) :
    FrameCalls PhysicalMemory where
  frameMalloc ps := do
    let (ret, frameAddress, ps) ← frameMalloc ps
    return (ret, some frameAddress, ps)
  frameFree := pmMFrameFree

section

variable {frameMalloc : PhysicalMemory → Outcome (Int × Word × PhysicalMemory)}

/-- The list that grows by a frame in each round is the array up to `current_entry`. -/
theorem frameMallocLoop_eq (rounds : Nat) (ps : PhysicalMemory) {frames : List Word}
    {arr : Nat → Word} (harr : (List.range frames.length).map arr = frames) :
    frameMallocLoop frameMalloc rounds ps frames =
      (mallocRounds (memoryCalls frameMalloc) rounds frames.length ps arr).map
        fun r => ((List.range r.1).map r.2.1, r.2.2) := by
  induction rounds generalizing ps frames arr with
  | zero => simp [frameMallocLoop, mallocRounds, harr, Except.map]
  | succ rounds ih =>
    unfold frameMallocLoop mallocRounds memoryCalls
    cases hmalloc : frameMalloc ps with
    | error e => simp [hmalloc, Except.map]
    | ok r =>
      obtain ⟨ret, frameAddress, ps'⟩ := r
      simp only [hmalloc, Outcome.ok_bind, Outcome.pure_eq]
      by_cases hret : ret = 0
      · simp [hret, Except.map]
      · have hnext : (List.range (frames ++ [frameAddress]).length).map
            (Function.update arr frames.length frameAddress) = frames ++ [frameAddress] := by
          rw [List.length_append, List.length_singleton, List.range_succ, List.map_append,
            List.map_singleton, Function.update_self]
          refine congrArg (· ++ _) (Eq.trans ?_ harr)
          refine List.map_congr_left fun i hi => Function.update_of_ne ?_ _ _
          exact (List.mem_range.1 hi).ne
        rw [if_neg hret, if_neg hret]
        have hround := ih ps' hnext
        rw [List.length_append, List.length_singleton] at hround
        exact hround

/-- Every round that does not leave the program counts. -/
theorem mallocRounds_count {calls : FrameCalls σ} {rounds currentEntry : Nat} {s : σ}
    {arr : Nat → Word} {r : Nat × (Nat → Word) × σ}
    (h : mallocRounds calls rounds currentEntry s arr = .ok r) : r.1 = currentEntry + rounds := by
  induction rounds generalizing currentEntry s arr with
  | zero =>
    cases h
    rfl
  | succ rounds ih =>
    unfold mallocRounds at h
    obtain ⟨⟨ret, address, s'⟩, -, h⟩ := Outcome.bind_eq_ok.1 h
    dsimp only at h
    split at h
    · cases h
    · rw [ih h]
      omega

/-- The model of `pm_m_frame_malloc_bulk` on a memory is an instance. -/
theorem pmMFrameMallocBulk_eq (ps : PhysicalMemory) (arr : Nat → Word) (frameCount : Int) :
    pmMFrameMallocBulk frameMalloc ps frameCount =
      (frameMallocBulk (memoryCalls frameMalloc) ps arr frameCount).map fun r =>
        (r.1, (List.range frameCount.toNat).map r.2.1, r.2.2) := by
  unfold pmMFrameMallocBulk frameMallocBulk
  rw [frameMallocLoop_eq _ _ (show (List.range ([] : List Word).length).map arr = [] from rfl)]
  cases hrounds : mallocRounds (memoryCalls frameMalloc) frameCount.toNat
      ([] : List Word).length ps arr with
  | error e => rfl
  | ok r =>
    have hcount := mallocRounds_count hrounds
    obtain ⟨currentEntry, arr', ps'⟩ := r
    have hentry : currentEntry = frameCount.toNat := hcount.trans (Nat.zero_add _)
    subst hentry
    simp only [Except.map, Outcome.ok_bind, List.length_map, List.length_range, List.foldlM_map]
    by_cases hall : (frameCount.toNat : Int) ≠ frameCount
    · rw [if_pos hall, if_pos hall]
      -- a negative count
      have hzero : frameCount.toNat = 0 := by omega
      rw [hzero]
      rfl
    · rw [if_neg hall, if_neg hall]
      rfl

end

end SeKernel
