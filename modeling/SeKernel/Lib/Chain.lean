import SeKernel.Lib.Doubly

/-!
# The two directions of a linked segment

A program may set the forward links of cells and not the backward ones. `Chain h xs n` is the
forward half of `Doubly.Seg`, `BackChain h p xs` the backward half. `Relinked as h h'` says that
only forward links of the cells `as` have changed: then backward chains stay as they are
(`BackChain.relinked`), and so do the forward chains of other cells (`Chain.relinked`).
-/

namespace Doubly

variable {α β : Type*}

/-- The cells of `xs` are linked forwards, the last one to `n`. -/
def Chain (h : α → Option (Cell α β)) : List (α × β) → Option α → Prop
  | [], _ => True
  | (a, d) :: xs, n => (∃ p, h a = some ⟨front xs n, p, d⟩) ∧ Chain h xs n

/-- The cells of `xs` are linked backwards, the first one to `p`. -/
def BackChain (h : α → Option (Cell α β)) : Option α → List (α × β) → Prop
  | _, [] => True
  | p, (a, d) :: xs => (∃ n, h a = some ⟨n, p, d⟩) ∧ BackChain h (some a) xs

/-- Only forward links have changed, of the cells `as` at most. -/
structure Relinked (as : List α) (h h' : α → Option (Cell α β)) : Prop where
  frame : ∀ a, a ∉ as → h' a = h a
  kept : ∀ a, (h' a).map (fun c => (c.prev, c.data)) = (h a).map fun c => (c.prev, c.data)

variable {h h' h'' : α → Option (Cell α β)} {p n : Option α} {xs ys : List (α × β)} {a : α} {d : β}
  {as bs : List α} {c : Cell α β}

theorem front_nil (n : Option α) : front ([] : List (α × β)) n = n := rfl

theorem front_cons (x : α × β) (xs : List (α × β)) (n : Option α) :
    front (x :: xs) n = some x.1 := rfl

theorem Seg.chain (hs : Seg h p xs n) : Chain h xs n := by
  induction xs generalizing p with
  | nil => trivial
  | cons x xs ih => exact ⟨⟨p, hs.1⟩, ih hs.2⟩

theorem Seg.backChain (hs : Seg h p xs n) : BackChain h p xs := by
  induction xs generalizing p with
  | nil => trivial
  | cons x xs ih => exact ⟨⟨_, hs.1⟩, ih hs.2⟩

/-! ## Forward chains -/

/-- A forward chain splits at every place. -/
theorem chain_append : Chain h (xs ++ ys) n ↔ Chain h xs (front ys n) ∧ Chain h ys n := by
  induction xs with
  | nil => simp [Chain]
  | cons x xs ih => simp [Chain, ih, and_assoc]

theorem Chain.congr (hc : Chain h xs n) (heq : ∀ a ∈ addrs xs, h' a = h a) : Chain h' xs n := by
  induction xs with
  | nil => trivial
  | cons x xs ih =>
    obtain ⟨⟨p, h1⟩, h2⟩ := hc
    exact ⟨⟨p, (heq _ (by simp)).trans h1⟩, ih h2 fun a ha => heq a (by simp [ha])⟩

/-- The cell at a given place of a forward chain. -/
theorem Chain.at (hc : Chain h (xs ++ (a, d) :: ys) n) : ∃ p, h a = some ⟨front ys n, p, d⟩ :=
  (chain_append.1 hc).2.1

/-- A forward chain is a fact about its own cells. -/
theorem Chain.relinked (hc : Chain h xs n) (hr : Relinked as h h')
    (hdisj : ∀ a ∈ addrs xs, a ∉ as) : Chain h' xs n :=
  hc.congr fun a ha => hr.frame a (hdisj a ha)

/-- A heap has one chain from a cell to the end. -/
theorem Chain.unique (hxs : Chain h xs none) (hys : Chain h ys none)
    (hfront : front xs none = front ys none) : xs = ys := by
  induction xs generalizing ys with
  | nil =>
    cases ys with
    | nil => rfl
    | cons y ys => cases hfront
  | cons x xs ih =>
    cases ys with
    | nil => cases hfront
    | cons y ys =>
      obtain ⟨a, d⟩ := x
      obtain ⟨b, e⟩ := y
      cases hfront
      obtain ⟨⟨p, ha⟩, hxs⟩ := hxs
      obtain ⟨⟨q, hb⟩, hys⟩ := hys
      rw [ha, Option.some.injEq, Cell.mk.injEq] at hb
      obtain ⟨hnext, -, rfl⟩ := hb
      rw [ih hxs hys hnext]

/-- A chain that ends comes to no cell twice. -/
theorem Chain.nodup (hc : Chain h xs none) : (addrs xs).Nodup := by
  induction xs with
  | nil => exact List.nodup_nil
  | cons x xs ih =>
    rw [addrs_cons, List.nodup_cons]
    refine ⟨fun hmem => ?_, ih hc.2⟩
    obtain ⟨y, hy, hyx⟩ := List.mem_map.1 hmem
    obtain ⟨us, vs, rfl⟩ := List.append_of_mem hy
    have hcycle : x :: (us ++ y :: vs) = y :: vs :=
      hc.unique (chain_append.1 hc.2).2 (congrArg some hyx.symm)
    have hlength := congrArg List.length hcycle
    simp only [List.length_cons, List.length_append] at hlength
    omega

/-! ## Backward chains -/

/-- A backward chain splits at every place. -/
theorem backChain_append :
    BackChain h p (xs ++ ys) ↔ BackChain h p xs ∧ BackChain h (back xs p) ys := by
  induction xs generalizing p with
  | nil => simp [BackChain, back]
  | cons x xs ih => simp [BackChain, back, ih, and_assoc]

theorem BackChain.congr (hc : BackChain h p xs)
    (heq : ∀ a ∈ addrs xs, (h' a).map (fun c => (c.prev, c.data)) =
      (h a).map fun c => (c.prev, c.data)) : BackChain h' p xs := by
  induction xs generalizing p with
  | nil => trivial
  | cons x xs ih =>
    obtain ⟨⟨n, h1⟩, h2⟩ := hc
    refine ⟨?_, ih h2 fun a ha => heq a (by simp [ha])⟩
    have hx := heq x.1 (by simp)
    rw [h1, Option.map_some, Option.map_eq_some_iff] at hx
    obtain ⟨⟨n', p', d'⟩, hx, heq⟩ := hx
    cases heq
    exact ⟨n', hx⟩

/-- A backward chain does not feel the forward links. -/
theorem BackChain.relinked (hc : BackChain h p xs) (hr : Relinked as h h') : BackChain h' p xs :=
  hc.congr fun a _ => hr.kept a

/-! ## Relinking -/

theorem Relinked.refl (as : List α) (h : α → Option (Cell α β)) : Relinked as h h :=
  ⟨fun _ _ => rfl, fun _ => rfl⟩

theorem Relinked.trans (hr : Relinked as h h') (hr' : Relinked as h' h'') : Relinked as h h'' :=
  ⟨fun a ha => (hr'.frame a ha).trans (hr.frame a ha), fun a => (hr'.kept a).trans (hr.kept a)⟩

theorem Relinked.mono (hr : Relinked as h h') (hsub : as ⊆ bs) : Relinked bs h h' :=
  ⟨fun a ha => hr.frame a fun hmem => ha (hsub hmem), hr.kept⟩

section

variable [DecidableEq α]

theorem setNext_eq (hc : h a = some c) (n : Option α) :
    setNext h a n a = some { c with next := n } := by
  simp [setNext, hc]

/-- Setting a forward link is relinking. -/
theorem relinked_setNext (hmem : a ∈ as) (n : Option α) : Relinked as h (setNext h a n) := by
  refine ⟨fun b hb => setNext_of_ne n (by rintro rfl; exact hb hmem), fun b => ?_⟩
  by_cases hb : b = a
  · subst hb
    simp [setNext, Function.comp_def]
  · rw [setNext_of_ne n hb]

/-- The last cell of a forward chain can be linked to another successor. -/
theorem Chain.setNext_last (hc : Chain h (xs ++ [(a, d)]) n) (ha : a ∉ addrs xs) (n' : Option α) :
    Chain (setNext h a n') (xs ++ [(a, d)]) n' := by
  obtain ⟨p, hcell⟩ := hc.at
  refine chain_append.2 ⟨?_, ⟨p, setNext_eq hcell n'⟩, trivial⟩
  exact (chain_append.1 hc).1.congr fun b hb => setNext_of_ne n' (by rintro rfl; exact ha hb)

/-- A cell can be linked to the front of a forward chain that it is not on. -/
theorem Chain.setNext_cons (hc : Chain h xs n) (ha : a ∉ addrs xs) (hcell : h a = some c) :
    Chain (setNext h a (front xs n)) ((a, c.data) :: xs) n :=
  ⟨⟨c.prev, setNext_eq hcell _⟩,
    hc.congr fun b hb => setNext_of_ne _ (by rintro rfl; exact ha hb)⟩

end

end Doubly
