import Mathlib.Algebra.BigOperators.Fin
import Mathlib.Algebra.Order.BigOperators.Group.Finset
import SeKernel.Lib.Counting

/-!
# Bucket queues

A bucket queue keeps one list for each of `n` keys. Its entries are the pairs of an element and the
key of its bucket, as a multiset, so that what an operation does to the queue is an equation
between multisets. The first nonempty bucket holds the entries of least key (`least_of_first`),
which is what makes a bucket queue a priority queue.
-/

namespace Buckets

variable {α κ : Type*} {n : ℕ}

/-- An entry of least key. -/
def Least [LE κ] (m : Multiset (α × κ)) (x : α × κ) : Prop := x ∈ m ∧ ∀ y ∈ m, x.2 ≤ y.2

/-- The elements of a multiset of entries. -/
def elements (m : Multiset (α × κ)) : Multiset α := m.map Prod.fst

@[simp] theorem elements_add (m m' : Multiset (α × κ)) :
    elements (m + m') = elements m + elements m' := Multiset.map_add _ _ _

@[simp] theorem elements_singleton (x : α × κ) : elements {x} = {x.1} := Multiset.map_singleton _ _

@[simp] theorem elements_eq_zero {m : Multiset (α × κ)} : elements m = 0 ↔ m = 0 :=
  Multiset.map_eq_zero

/-- The entries of one bucket. -/
def bucket (i : κ) (xs : List α) : Multiset (α × κ) := (xs : Multiset α).map fun x => (x, i)

/-- The entries of all buckets. -/
def entries (q : Fin n → List α) : Multiset (α × Fin n) := ∑ i, bucket i (q i)

/-- The number of elements in all buckets. -/
def size (q : Fin n → List α) : ℕ := ∑ i, (q i).length

theorem mem_bucket {i : κ} {xs : List α} {y : α × κ} : y ∈ bucket i xs ↔ y.1 ∈ xs ∧ y.2 = i := by
  simp only [bucket, Multiset.mem_map, Multiset.mem_coe]
  constructor
  · rintro ⟨x, hx, rfl⟩
    exact ⟨hx, rfl⟩
  · rintro ⟨hx, rfl⟩
    exact ⟨y.1, hx, rfl⟩

@[simp] theorem bucket_append (i : κ) (xs ys : List α) :
    bucket i (xs ++ ys) = bucket i xs + bucket i ys := by
  simp [bucket, ← Multiset.coe_add]

@[simp] theorem bucket_singleton (i : κ) (x : α) : bucket i [x] = {(x, i)} := rfl

theorem mem_entries {q : Fin n → List α} {y : α × Fin n} : y ∈ entries q ↔ y.1 ∈ q y.2 := by
  simp only [entries, Multiset.mem_sum, mem_bucket, Finset.mem_univ, true_and]
  exact ⟨fun ⟨i, hx, hi⟩ => hi ▸ hx, fun hx => ⟨y.2, hx, rfl⟩⟩

theorem card_entries (q : Fin n → List α) : Multiset.card (entries q) = size q := by
  simp [entries, size, bucket]

theorem entries_empty : entries (fun _ : Fin n => ([] : List α)) = 0 := by
  simp [entries, bucket]

/-- Changing one bucket changes the entries by that bucket. -/
theorem entries_update (q : Fin n → List α) (i : Fin n) (xs : List α) :
    entries (Function.update q i xs) + bucket i (q i) = entries q + bucket i xs :=
  Counting.sum_update (fun j ys => bucket j ys) q i xs

/-- Appending to a bucket adds an entry. -/
theorem entries_push (q : Fin n → List α) (i : Fin n) (x : α) :
    entries (Function.update q i (q i ++ [x])) = entries q + {(x, i)} := by
  have h := entries_update q i (q i ++ [x])
  rw [bucket_append, bucket_singleton, ← add_assoc, add_right_comm] at h
  exact add_right_cancel h

/-- Taking the last element of a bucket removes an entry. -/
theorem entries_pop {q : Fin n → List α} {i : Fin n} {xs : List α} {x : α} (hq : q i = xs ++ [x]) :
    entries q = entries (Function.update q i xs) + {(x, i)} := by
  have h := entries_update q i xs
  rw [hq, bucket_append, bucket_singleton, ← add_assoc, add_right_comm] at h
  exact (add_right_cancel h).symm

/-- Taking the first element of a bucket removes an entry. -/
theorem entries_tail {q : Fin n → List α} {i : Fin n} {xs : List α} {x : α} (hq : q i = x :: xs) :
    entries q = entries (Function.update q i xs) + {(x, i)} := by
  have h := entries_update q i xs
  rw [hq, ← List.singleton_append, bucket_append, bucket_singleton, add_comm {(x, i)}, ← add_assoc,
    add_right_comm] at h
  exact (add_right_cancel h).symm

/-- The first nonempty bucket. -/
def first (q : Fin n → List α) : Option (Fin n) := (List.finRange n).find? fun i => !(q i).isEmpty

theorem first_eq_none {q : Fin n → List α} : first q = none ↔ entries q = 0 := by
  simp only [first, List.find?_eq_none, List.mem_finRange, forall_const, Bool.not_eq_true,
    Bool.not_eq_false', List.isEmpty_iff]
  rw [Multiset.eq_zero_iff_forall_notMem]
  constructor
  · intro h y hy
    rw [mem_entries, h] at hy
    cases hy
  · intro h i
    exact List.eq_nil_iff_forall_not_mem.2 fun x hx => h (x, i) (mem_entries.2 hx)

/-- The first nonempty bucket is nonempty, and those below it are empty. -/
theorem first_spec {q : Fin n → List α} {i : Fin n} (h : first q = some i) :
    q i ≠ [] ∧ ∀ j < i, q j = [] := by
  obtain ⟨hi, as, bs, hsplit, hbefore⟩ := List.find?_eq_some_iff_append.1 h
  refine ⟨by simpa using hi, fun j hj => ?_⟩
  have hsorted : (as ++ i :: bs).Pairwise (· < ·) := hsplit ▸ List.pairwise_lt_finRange n
  have hmem : j ∈ as ++ i :: bs := hsplit ▸ List.mem_finRange j
  rcases List.mem_append.1 hmem with hj' | hj'
  · simpa using hbefore j hj'
  · rcases List.mem_cons.1 hj' with rfl | hj'
    · exact absurd hj (lt_irrefl _)
    · have hlt := (List.pairwise_cons.1 (List.pairwise_append.1 hsorted).2.1).1 j hj'
      exact absurd hj (not_lt_of_gt hlt)

/-- A nonempty bucket has the first one at or below it. -/
theorem first_le {q : Fin n → List α} {j : Fin n} (hj : q j ≠ []) : ∃ i ≤ j, first q = some i := by
  cases hf : first q with
  | none =>
    obtain ⟨x, xs, hx⟩ := List.exists_cons_of_ne_nil hj
    have hmem : (x, j) ∈ entries q := mem_entries.2 (by simp [hx])
    rw [first_eq_none.1 hf] at hmem
    cases hmem
  | some i => exact ⟨i, not_lt.1 fun hlt => hj ((first_spec hf).2 j hlt), rfl⟩

/-- A nonempty bucket with empty ones below it is the first one. -/
theorem first_eq_some {q : Fin n → List α} {i : Fin n} (hi : q i ≠ []) (hlt : ∀ j < i, q j = []) :
    first q = some i := by
  obtain ⟨k, hk, hf⟩ := first_le hi
  rcases hk.lt_or_eq with h | rfl
  · exact absurd (hlt k h) (first_spec hf).1
  · exact hf

/-- The last element of the first nonempty bucket. -/
def lastOfFirst (q : Fin n → List α) : Option α := (first q).bind fun i => (q i).getLast?

theorem lastOfFirst_eq {q : Fin n → List α} {i : Fin n} {xs : List α} {x : α} (hq : q i = xs ++ [x])
    (hlt : ∀ j < i, q j = []) : lastOfFirst q = some x := by
  have hfirst : first q = some i := first_eq_some (by simp [hq]) hlt
  simp [lastOfFirst, hfirst, hq]

/-- Buckets without entries add nothing to others. -/
theorem append_of_entries_eq_zero {q q' : Fin n → List α} (h : entries q' = 0) :
    (fun i => q i ++ q' i) = q ∧ (fun i => q' i ++ q i) = q := by
  have hempty : ∀ i, q' i = [] := by
    intro i
    refine List.eq_nil_iff_forall_not_mem.2 fun x hx => ?_
    have hmem : (x, i) ∈ entries q' := mem_entries.2 hx
    rw [h] at hmem
    cases hmem
  constructor <;> funext i <;> simp [hempty]

/-- The last element of the first nonempty bucket of `q'` moves to the end of its bucket of `q`:
what is now the last of the first bucket of `q` was that of both together. -/
theorem lastOfFirst_move {q q' : Fin n → List α} {i : Fin n} {xs : List α} {x : α}
    (hfirst : first q' = some i) (hq' : q' i = xs ++ [x]) :
    lastOfFirst (Function.update q i (q i ++ [x])) = lastOfFirst fun j => q j ++ q' j := by
  have hlt := (first_spec hfirst).2
  by_cases hlow : ∃ k, k < i ∧ first q = some k
  · -- a bucket of `q` comes before `i`, so nothing has changed there
    obtain ⟨k, hki, hk⟩ := hlow
    obtain ⟨hne, hltk⟩ := first_spec hk
    have hqk := (List.dropLast_append_getLast hne).symm
    have hleft : Function.update q i (q i ++ [x]) k = (q k).dropLast ++ [(q k).getLast hne] :=
      (Function.update_of_ne hki.ne _ q).trans hqk
    have hright : q k ++ q' k = (q k).dropLast ++ [(q k).getLast hne] := by
      rw [hlt k hki, List.append_nil]
      exact hqk
    rw [lastOfFirst_eq hleft fun j hj =>
        (Function.update_of_ne (hj.trans hki).ne _ q).trans (hltk j hj),
      lastOfFirst_eq hright fun j hj => by rw [hltk j hj, hlt j (hj.trans hki), List.append_nil]]
  · have hempty : ∀ j < i, q j = [] := by
      intro j hj
      by_contra hne
      obtain ⟨k, hk, hf⟩ := first_le hne
      exact hlow ⟨k, hk.trans_lt hj, hf⟩
    have hright : q i ++ q' i = (q i ++ xs) ++ [x] := by
      rw [hq', List.append_assoc]
    rw [lastOfFirst_eq (Function.update_self i _ q) fun j hj =>
        (Function.update_of_ne hj.ne _ q).trans (hempty j hj),
      lastOfFirst_eq hright fun j hj => by rw [hempty j hj, hlt j hj, List.append_nil]]

/-- The elements of the first nonempty bucket are the entries of least key. -/
theorem least_of_first {q : Fin n → List α} {i : Fin n} (h : first q = some i) {x : α}
    (hx : x ∈ q i) : Least (entries q) (x, i) := by
  refine ⟨mem_entries.2 hx, fun y hy => ?_⟩
  by_contra hlt
  have hempty := (first_spec h).2 y.2 (not_le.1 hlt)
  rw [mem_entries, hempty] at hy
  cases hy

/-- A least entry of one part that undercuts the other part is least in both together. -/
theorem Least.add_right [LE κ] {m m' : Multiset (α × κ)} {x : α × κ} (h : Least m x)
    (h' : ∀ y ∈ m', x.2 ≤ y.2) : Least (m + m') x :=
  ⟨Multiset.mem_add.2 (.inl h.1), fun y hy => (Multiset.mem_add.1 hy).elim (h.2 y) (h' y)⟩

end Buckets
