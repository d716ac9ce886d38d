import Mathlib.Data.Set.Basic

/-!
# Read-through caches

A cache in front of a computation that can fail: `readThrough` answers what the cache holds for a
key, or computes it and inserts it. How the cache stores and evicts is left open; it is only asked
that after an insertion it holds what it held before and what was computed (`Faithful`). Then a
cache that holds computed values only (`Sound`) cannot be told from the computation
(`Sound.readThrough_fst`), and stays one.
-/

namespace Cache

variable {κ ν σ ε : Type*}

/-- The operations of a cache with states `σ`. -/
structure Ops (κ ν σ : Type*) where
  lookup : σ → κ → Option ν
  insert : σ → κ → ν → σ

/-- Answer from the cache, or compute and insert. -/
def readThrough (cache : Ops κ ν σ) (compute : κ → Except ε ν) (k : κ) (s : σ) : Except ε (ν × σ) :=
  match cache.lookup s k with
  | some v => .ok (v, s)
  | none => (compute k).map fun v => (v, cache.insert s k v)

/-- For the keys of `K`, the cache holds values that would be computed only. -/
def Sound (cache : Ops κ ν σ) (compute : κ → Except ε ν) (K : Set κ) (s : σ) : Prop :=
  ∀ k ∈ K, ∀ v, cache.lookup s k = some v → compute k = .ok v

/-- For the keys of `K`, inserting a computed value adds values that would be computed only. -/
def Faithful (cache : Ops κ ν σ) (compute : κ → Except ε ν) (K : Set κ) : Prop :=
  ∀ s, ∀ k ∈ K, ∀ v, compute k = .ok v → ∀ k' ∈ K, ∀ v',
    cache.lookup (cache.insert s k v) k' = some v' →
      cache.lookup s k' = some v' ∨ compute k' = .ok v'

variable {cache : Ops κ ν σ} {compute compute' : κ → Except ε ν} {K : Set κ} {k : κ}
  {s s' : σ} {v : ν}

/-- A cache that holds nothing. -/
theorem Sound.of_empty (h : ∀ k ∈ K, cache.lookup s k = none) : Sound cache compute K s := by
  intro k hk v hv
  rw [h k hk] at hv
  cases hv

/-- The cache stays sound when the computation changes outside its keys only. -/
theorem Sound.congr (h : Sound cache compute K s) (heq : ∀ k ∈ K, compute' k = compute k) :
    Sound cache compute' K s := by
  intro k hk v hv
  rw [heq k hk]
  exact h k hk v hv

/-- What a sound cache answers is what would be computed, the errors included. -/
theorem Sound.readThrough_fst (h : Sound cache compute K s) (hk : k ∈ K) :
    (readThrough cache compute k s).map (·.1) = compute k := by
  unfold readThrough
  cases hlookup : cache.lookup s k with
  | some v => exact (h k hk v hlookup).symm
  | none => cases compute k <;> rfl

/-- A sound cache stays sound when it is read through. -/
theorem Sound.readThrough (h : Sound cache compute K s) (hf : Faithful cache compute K) (hk : k ∈ K)
    (hread : readThrough cache compute k s = .ok (v, s')) : Sound cache compute K s' := by
  unfold Cache.readThrough at hread
  cases hlookup : cache.lookup s k with
  | some _ =>
    rw [hlookup] at hread
    cases hread
    exact h
  | none =>
    rw [hlookup] at hread
    cases hcompute : compute k with
    | error e =>
      rw [hcompute] at hread
      cases hread
    | ok w =>
      rw [hcompute] at hread
      cases hread
      intro k' hk' v' hv'
      rcases hf s k hk v hcompute k' hk' v' hv' with hold | hnew
      · exact h k' hk' v' hold
      · exact hnew

end Cache
