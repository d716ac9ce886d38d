import Mathlib.Logic.Function.Basic
import Mathlib.Data.List.Basic
import Mathlib.Data.List.Induction

/-!
# Doubly linked segments in a heap

A heap maps addresses to cells, each with a forward link, a backward link and a datum. `Seg h p xs
n` says that the cells listed in `xs` (address and datum, in order) are linked both ways, that the
first one points back to `p` and that the last one points forward to `n`. Segments split and join
at any place (`seg_append`), are blind to the rest of the heap (`Seg.congr`), and can be relinked at
either end (`Seg.setNext_last`, `Seg.setPrev_first`). Addresses and data are arbitrary types.
-/

namespace Doubly

/-- A cell of a doubly linked structure. -/
structure Cell (α β : Type*) where
  next : Option α
  prev : Option α
  data : β
  deriving DecidableEq, Repr

variable {α β : Type*}

/-- The addresses of a listed segment. -/
def addrs (xs : List (α × β)) : List α := xs.map Prod.fst

/-- The data of a listed segment. -/
def datas (xs : List (α × β)) : List β := xs.map Prod.snd

/-- The address of the first cell, or `n` when there is none. -/
def front : List (α × β) → Option α → Option α
  | [], n => n
  | (a, _) :: _, _ => some a

/-- The address of the last cell, or `p` when there is none. -/
def back : List (α × β) → Option α → Option α
  | [], p => p
  | (a, _) :: xs, _ => back xs (some a)

/-- The cells of `xs` are linked both ways between `p` and `n`. -/
def Seg (h : α → Option (Cell α β)) : Option α → List (α × β) → Option α → Prop
  | _, [], _ => True
  | p, (a, d) :: xs, n => h a = some ⟨front xs n, p, d⟩ ∧ Seg h (some a) xs n

@[simp] theorem addrs_nil : addrs ([] : List (α × β)) = [] := rfl
@[simp] theorem addrs_cons (x : α × β) (xs : List (α × β)) :
    addrs (x :: xs) = x.1 :: addrs xs := rfl
@[simp] theorem addrs_append (xs ys : List (α × β)) : addrs (xs ++ ys) = addrs xs ++ addrs ys :=
  List.map_append
@[simp] theorem datas_nil : datas ([] : List (α × β)) = [] := rfl
@[simp] theorem datas_cons (x : α × β) (xs : List (α × β)) :
    datas (x :: xs) = x.2 :: datas xs := rfl
@[simp] theorem datas_append (xs ys : List (α × β)) : datas (xs ++ ys) = datas xs ++ datas ys :=
  List.map_append

theorem nodup_addrs_left {xs ys : List (α × β)} (h : (addrs (xs ++ ys)).Nodup) :
    (addrs xs).Nodup := by
  rw [addrs_append] at h
  exact (List.nodup_append.1 h).1

/-- A cell that is listed once is not listed before its place. -/
theorem notMem_addrs_left {xs ys : List (α × β)} {x : α × β} (h : (addrs (xs ++ x :: ys)).Nodup) :
    x.1 ∉ addrs xs := by
  rw [addrs_append, addrs_cons, List.nodup_append] at h
  exact fun hmem => h.2.2 x.1 hmem x.1 List.mem_cons_self rfl

@[simp] theorem front_append (xs ys : List (α × β)) (n : Option α) :
    front (xs ++ ys) n = front xs (front ys n) := by
  cases xs <;> rfl

@[simp] theorem back_append (xs ys : List (α × β)) (p : Option α) :
    back (xs ++ ys) p = back ys (back xs p) := by
  induction xs generalizing p with
  | nil => rfl
  | cons x xs ih => exact ih (some x.1)

theorem back_none_eq_getLast? (xs : List (α × β)) : back xs none = (addrs xs).getLast? := by
  cases xs using List.reverseRecOn with
  | nil => rfl
  | append_singleton ys x =>
    rw [back_append, addrs_append]
    simp [back]

/-- A segment splits at every place. -/
theorem seg_append {h : α → Option (Cell α β)} {p n : Option α} {xs ys : List (α × β)} :
    Seg h p (xs ++ ys) n ↔ Seg h p xs (front ys n) ∧ Seg h (back xs p) ys n := by
  induction xs generalizing p with
  | nil => simp [Seg, back]
  | cons x xs ih => simp [Seg, back, ih, and_assoc]

/-- A segment is a fact about its own cells. -/
theorem Seg.congr {h h' : α → Option (Cell α β)} {p n : Option α} {xs : List (α × β)}
    (hs : Seg h p xs n) (heq : ∀ a ∈ addrs xs, h' a = h a) : Seg h' p xs n := by
  induction xs generalizing p with
  | nil => trivial
  | cons x xs ih =>
    obtain ⟨h1, h2⟩ := hs
    exact ⟨(heq _ (by simp)).trans h1, ih h2 fun a ha => heq a (by simp [ha])⟩

/-- The cell at a given place of a segment. -/
theorem Seg.at {h : α → Option (Cell α β)} {p n : Option α} {xs ys : List (α × β)} {a : α} {d : β}
    (hs : Seg h p (xs ++ (a, d) :: ys) n) : h a = some ⟨front ys n, back xs p, d⟩ :=
  (seg_append.1 hs).2.1

/-- Every cell of a segment is in the heap. -/
theorem Seg.isSome {h : α → Option (Cell α β)} {p n : Option α} {xs : List (α × β)}
    (hs : Seg h p xs n) {a : α} (ha : a ∈ addrs xs) : (h a).isSome := by
  obtain ⟨x, hx, rfl⟩ := List.mem_map.1 ha
  obtain ⟨l, r, rfl⟩ := List.append_of_mem hx
  rw [hs.at]
  rfl

/-- An address outside the heap is not on the segment. -/
theorem Seg.notMem {h : α → Option (Cell α β)} {p n : Option α} {xs : List (α × β)}
    (hs : Seg h p xs n) {a : α} (ha : h a = none) : a ∉ addrs xs := by
  intro hmem
  have hsome := hs.isSome hmem
  rw [ha] at hsome
  cases hsome

/-- A nonempty listing ends in the cell whose address is `back`. -/
theorem back_eq_some {xs : List (α × β)} {a : α} (h : back xs none = some a) :
    ∃ ys d, xs = ys ++ [(a, d)] := by
  cases xs using List.reverseRecOn with
  | nil => cases h
  | append_singleton ys x =>
    rw [back_append] at h
    cases h
    exact ⟨ys, x.2, rfl⟩

/-- In a closed segment the two links are mutually inverse. -/
theorem Seg.next_iff_prev {h : α → Option (Cell α β)} {xs : List (α × β)} {a b : α}
    {ca cb : Cell α β}
    (hs : Seg h none xs none) (ha : a ∈ addrs xs) (hb : b ∈ addrs xs)
    (hca : h a = some ca) (hcb : h b = some cb) : ca.next = some b ↔ cb.prev = some a := by
  obtain ⟨⟨a, d⟩, hx, rfl⟩ := List.mem_map.1 ha
  obtain ⟨⟨b, e⟩, hy, rfl⟩ := List.mem_map.1 hb
  constructor
  · intro hn
    obtain ⟨l, r, rfl⟩ := List.append_of_mem hx
    rw [hs.at] at hca
    cases hca
    cases r with
    | nil => cases hn
    | cons y r =>
      obtain ⟨b', e'⟩ := y
      cases hn
      have hs' : Seg h none ((l ++ [(a, d)]) ++ (b, e') :: r) none := by simpa using hs
      rw [hs'.at] at hcb
      cases hcb
      simp [back]
  · intro hp
    obtain ⟨l, r, rfl⟩ := List.append_of_mem hy
    rw [hs.at] at hcb
    cases hcb
    obtain ⟨l', d', rfl⟩ := back_eq_some hp
    have hs' : Seg h none (l' ++ (a, d') :: (b, e) :: r) none := by simpa using hs
    rw [hs'.at] at hca
    cases hca
    rfl

section
variable [DecidableEq α]

/-- Change the forward link of the cell at `a`. -/
def setNext (h : α → Option (Cell α β)) (a : α) (n : Option α) : α → Option (Cell α β) :=
  Function.update h a ((h a).map fun c => { c with next := n })

/-- Change the backward link of the cell at `a`. -/
def setPrev (h : α → Option (Cell α β)) (a : α) (p : Option α) : α → Option (Cell α β) :=
  Function.update h a ((h a).map fun c => { c with prev := p })

theorem setNext_of_ne {h : α → Option (Cell α β)} {a b : α} (n : Option α) (hab : b ≠ a) :
    setNext h a n b = h b := Function.update_of_ne hab _ _

theorem setPrev_of_ne {h : α → Option (Cell α β)} {a b : α} (p : Option α) (hab : b ≠ a) :
    setPrev h a p b = h b := Function.update_of_ne hab _ _

/-- A segment survives any change of the heap at an address it does not have. -/
theorem Seg.update {h : α → Option (Cell α β)} {p n : Option α} {xs : List (α × β)}
    (hs : Seg h p xs n) {a : α} (ha : a ∉ addrs xs) (c : Option (Cell α β)) :
    Seg (Function.update h a c) p xs n :=
  hs.congr fun b hb => Function.update_of_ne (by rintro rfl; exact ha hb) _ _

/-- The last cell of a segment can be linked to another successor. -/
theorem Seg.setNext_last {h : α → Option (Cell α β)} {p n : Option α} {xs : List (α × β)} {a : α}
    {d : β} (hs : Seg h p (xs ++ [(a, d)]) n) (ha : a ∉ addrs xs) (n' : Option α) :
    Seg (setNext h a n') p (xs ++ [(a, d)]) n' := by
  have hc := hs.at
  obtain ⟨h1, -⟩ := seg_append.1 hs
  refine seg_append.2 ⟨h1.update ha _, ?_, trivial⟩
  simp [setNext, hc, front]

/-- The first cell of a segment can be linked to another predecessor. -/
theorem Seg.setPrev_first {h : α → Option (Cell α β)} {p n : Option α} {ys : List (α × β)} {a : α}
    {d : β} (hs : Seg h p ((a, d) :: ys) n) (ha : a ∉ addrs ys) (p' : Option α) :
    Seg (setPrev h a p') p' ((a, d) :: ys) n := by
  obtain ⟨h1, h2⟩ := hs
  exact ⟨by simp [setPrev, h1], h2.update ha _⟩

end

end Doubly
