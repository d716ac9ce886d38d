import SeKernel.Lib.Machine
import SeKernel.LinkedList.Sequence
import SeKernel.LinkedList.Spec

/-!
# The linked list implements a sequence

A run of list operations over the heap, command by command, against the same run over the abstract
sequence of `SeKernel.Seq`. `linkedlist_implements_sequence` is the simulation: whatever the order
of the operations, the heap holds a well-formed doubly linked list, its data are the abstract
sequence and the answers are the abstract ones. The only excuse is a `malloc` that answers with an
address in use.
-/

namespace SeKernel.LinkedList

open Doubly

/-- The calls of the list's interface. `push` names the address that `malloc` returns. -/
inductive Cmd
  | init
  | push (a : Addr) (data : VoidPtr)
  | pop
  | peek
  | peekFirstMatch (matchFn : VoidPtr → VoidPtr → Int) (args : VoidPtr)
  | popFirstMatch (matchFn : VoidPtr → VoidPtr → Int) (args : VoidPtr)
  | iterate

/-- What a call answers: nothing, a pointer, or the data an iteration visited, in order. -/
inductive Reply
  | unit
  | ptr (d : VoidPtr)
  | visited (ds : List VoidPtr)
  deriving DecidableEq

/-- One call over the heap. The loops get one round more than `length` promises nodes. -/
def exec : Cmd → LinkedlistStructure × Heap → Outcome (Reply × LinkedlistStructure × Heap)
  | .init, (_, h) => pure (.unit, linkedlistInit, h)
  | .push a data, (l, h) => do
    let (l, h) ← linkedlistPush a l data h
    pure (.unit, l, h)
  | .pop, (l, h) => do
    let (d, l, h) ← linkedlistPop l h
    pure (.ptr d, l, h)
  | .peek, (l, h) => do
    let d ← linkedlistPeek l h
    pure (.ptr d, l, h)
  | .peekFirstMatch matchFn args, (l, h) => do
    let d ← linkedlistPeekFirstMatchFromRear (l.length.toNat + 1) l h matchFn args
    pure (.ptr d, l, h)
  | .popFirstMatch matchFn args, (l, h) => do
    let (d, l, h) ← linkedlistPopFirstMatchFromRear (l.length.toNat + 1) l h matchFn args
    pure (.ptr d, l, h)
  | .iterate, (l, h) => do
    let ds ← nodeIterator (l.length.toNat + 1) l h (fun d ds => ds ++ [d]) []
    pure (.visited ds, l, h)

/-- A match function of C as a test: it accepts what it answers nonzero on. -/
def isMatch (matchFn : VoidPtr → VoidPtr → Int) (args d : VoidPtr) : Bool := matchFn d args ≠ 0

/-- One call over the abstract sequence. A popped match comes back through an `int`. -/
def spec : Cmd → List VoidPtr → Reply × List VoidPtr
  | .init, _ => (.unit, [])
  | .push _ data, xs => (.unit, Seq.linkedlistPush xs data)
  | .pop, xs => (.ptr ((Seq.linkedlistPop xs).1.getD NULL), (Seq.linkedlistPop xs).2)
  | .peek, xs => (.ptr ((Seq.linkedlistPeek xs).getD NULL), xs)
  | .peekFirstMatch matchFn args, xs =>
    (.ptr ((Seq.linkedlistPeekFirstMatchFromRear xs (isMatch matchFn args)).getD NULL), xs)
  | .popFirstMatch matchFn args, xs =>
    let r := Seq.linkedlistPopFirstMatchFromRear xs (isMatch matchFn args)
    (.ptr ((r.1.map throughInt).getD NULL), r.2)
  | .iterate, xs => (.visited xs, xs)

/-- The nodes at the addresses `as` form a doubly linked list under the structure `l`. -/
structure WellFormed (h : Heap) (l : LinkedlistStructure) (as : List Addr) : Prop where
  nodup : as.Nodup
  allocated : ∀ a ∈ as, (h a).isSome
  inverse : ∀ a ∈ as, ∀ b ∈ as, ∀ ca cb, h a = some ca → h b = some cb →
    (ca.next = some b ↔ cb.prev = some a)
  next_mem : ∀ a ∈ as, ∀ ca b, h a = some ca → ca.next = some b → b ∈ as
  prev_mem : ∀ a ∈ as, ∀ ca b, h a = some ca → ca.prev = some b → b ∈ as
  first : l.first = as.head?
  last : l.last = as.getLast?
  first_prev : ∀ a ca, l.first = some a → h a = some ca → ca.prev = none
  last_next : ∀ a ca, l.last = some a → h a = some ca → ca.next = none
  length : l.length = as.length
  first_null : l.first = none ↔ l.length = 0
  last_null : l.last = none ↔ l.length = 0

section
variable {h : Heap} {l : LinkedlistStructure} {xs : List (Addr × VoidPtr)} {fuel : Nat}

theorem front_none (xs : List (Addr × VoidPtr)) : front xs none = (addrs xs).head? := by
  cases xs <;> rfl

/-- A represented list is well formed. -/
theorem Represents.wellFormed (hr : Represents h l xs) : WellFormed h l (addrs xs) where
  nodup := hr.nodup
  allocated _ ha := hr.seg.isSome ha
  inverse _ ha _ hb _ _ hca hcb := hr.seg.next_iff_prev ha hb hca hcb
  next_mem a ha ca b hca hn := by
    obtain ⟨⟨a, d⟩, hx, rfl⟩ := List.mem_map.1 ha
    obtain ⟨ys, zs, rfl⟩ := List.append_of_mem hx
    rw [hr.seg.at] at hca
    cases hca
    cases zs with
    | nil => cases hn
    | cons z zs => cases hn; simp
  prev_mem a ha ca b hca hp := by
    obtain ⟨⟨a, d⟩, hx, rfl⟩ := List.mem_map.1 ha
    obtain ⟨ys, zs, rfl⟩ := List.append_of_mem hx
    rw [hr.seg.at] at hca
    cases hca
    obtain ⟨ys', d', rfl⟩ := back_eq_some hp
    simp
  first := hr.first.trans (front_none xs)
  last := hr.last.trans (back_none_eq_getLast? xs)
  first_prev a ca ha hca := by
    rw [hr.first] at ha
    cases xs with
    | nil => cases ha
    | cons x xs => cases ha; rw [hr.seg.1] at hca; cases hca; rfl
  last_next a ca ha hca := by
    rw [hr.last] at ha
    obtain ⟨ys, d, rfl⟩ := back_eq_some ha
    rw [hr.seg.at] at hca
    cases hca
    rfl
  length := by rw [hr.length]; simp [addrs]
  first_null := by rw [hr.first, hr.length_eq_zero]; cases xs <;> simp [front]
  last_null := by
    rw [hr.last, hr.length_eq_zero]
    cases xs using List.reverseRecOn with
    | nil => simp [back]
    | append_singleton ys x => simp [back]

/-! ## One call -/

theorem Represents.fuel_eq (hr : Represents h l xs) : l.length.toNat + 1 = xs.length + 1 := by
  rw [hr.length]; rfl

/-- A search may go over every node. -/
theorem Represents.lt_fuel (hr : Represents h l xs) : xs.length < l.length.toNat + 1 := by
  rw [hr.fuel_eq]
  exact Nat.lt_succ_self _

/-- A sequence without a match. -/
theorem find?_of_no_match {p : VoidPtr → Bool} {ds : List VoidPtr} (hno : ∀ d ∈ ds, p d = false) :
    ds.find? p = none ∧ ds.eraseP p = ds :=
  ⟨List.find?_eq_none.2 fun d hd => by simp [hno d hd],
    List.eraseP_of_forall_not fun d hd => by simp [hno d hd]⟩

/-- The first match of a split sequence, and what is left without it. -/
theorem find?_of_split {p : VoidPtr → Bool} {ys : List VoidPtr} {d : VoidPtr} (zs : List VoidPtr)
    (hno : ∀ e ∈ ys, p e = false) (hd : p d = true) :
    (ys ++ d :: zs).find? p = some d ∧ (ys ++ d :: zs).eraseP p = ys ++ zs := by
  have hys : ys.find? p = none := List.find?_eq_none.2 fun e he => by simp [hno e he]
  refine ⟨by simp [List.find?_append, hys, hd], ?_⟩
  rw [List.eraseP_append_right _ fun e he => by simp [hno e he], List.eraseP_cons_of_pos hd]

/-- No node matches: nor does any datum. -/
theorem find?_isMatch_none {matchFn : VoidPtr → VoidPtr → Int} {args : VoidPtr}
    (hno : ∀ d ∈ datas xs, matchFn d args = 0) :
    (datas xs).find? (isMatch matchFn args) = none ∧
      (datas xs).eraseP (isMatch matchFn args) = datas xs :=
  find?_of_no_match fun d hd => by simp [isMatch, hno d hd]

/-- The datum of the first node that matches is the first match. -/
theorem find?_isMatch_first {matchFn : VoidPtr → VoidPtr → Int} {args : VoidPtr}
    {ys zs : List (Addr × VoidPtr)} {a : Addr} {d : VoidPtr}
    (hno : ∀ e ∈ datas ys, matchFn e args = 0) (hd : matchFn d args ≠ 0) :
    (datas (ys ++ (a, d) :: zs)).find? (isMatch matchFn args) = some d ∧
      (datas (ys ++ (a, d) :: zs)).eraseP (isMatch matchFn args) = datas (ys ++ zs) := by
  rw [datas_append, datas_append, datas_cons]
  exact find?_of_split _ (fun e he => by simp [isMatch, hno e he]) (by simpa [isMatch] using hd)

/-- Searching the nodes and reading the match is searching the sequence. Reference:
`linkedlist_peek_first_match_from_rear` (`src/linkedlist.c:139`). -/
theorem linkedlistPeekFirstMatchFromRear_spec (hr : Represents h l xs) (hfuel : xs.length < fuel)
    (matchFn : VoidPtr → VoidPtr → Int) (args : VoidPtr) :
    linkedlistPeekFirstMatchFromRear fuel l h matchFn args =
      .ok ((Seq.linkedlistPeekFirstMatchFromRear (datas xs) (isMatch matchFn args)).getD NULL) := by
  rw [Seq.linkedlistPeekFirstMatchFromRear]
  rcases firstMatch_cases matchFn args xs with hno | ⟨ys, a, d, zs, rfl, hno, hd⟩
  · rw [(firstMatch_none hr hfuel hno).1, (find?_isMatch_none hno).1]
    rfl
  · rw [linkedlistPeekFirstMatchFromRear_first hr (walk_lt hfuel) hno hd,
      (find?_isMatch_first hno hd).1]
    rfl

/-- Popping a match removes exactly the first one and keeps the order of the others. Reference:
`linkedlist_pop_first_match_from_rear` (`src/linkedlist.c:129`). -/
theorem linkedlistPopFirstMatchFromRear_spec (hr : Represents h l xs) (hfuel : xs.length < fuel)
    (matchFn : VoidPtr → VoidPtr → Int) (args : VoidPtr) :
    ∃ l' h' xs', linkedlistPopFirstMatchFromRear fuel l h matchFn args =
        .ok (((Seq.linkedlistPopFirstMatchFromRear (datas xs) (isMatch matchFn args)).1.map
          throughInt).getD NULL, l', h') ∧
      Represents h' l' xs' ∧
      datas xs' = (Seq.linkedlistPopFirstMatchFromRear (datas xs) (isMatch matchFn args)).2 := by
  rw [Seq.linkedlistPopFirstMatchFromRear]
  rcases firstMatch_cases matchFn args xs with hno | ⟨ys, a, d, zs, rfl, hno, hd⟩
  · obtain ⟨hfind, herase⟩ := find?_isMatch_none hno
    refine ⟨l, h, xs, ?_, hr, herase.symm⟩
    rw [(firstMatch_none hr hfuel hno).2, hfind]
    rfl
  · obtain ⟨hfind, herase⟩ := find?_isMatch_first hno hd
    obtain ⟨l', h', hpop, hr', -⟩ :=
      linkedlistPopFirstMatchFromRear_first hr (walk_lt hfuel) hno hd
    refine ⟨l', h', ys ++ zs, ?_, hr', herase.symm⟩
    rw [hpop, hfind]
    rfl

/-- Iterating with a log visits every datum once, in order. -/
theorem foldl_log (ds acc : List VoidPtr) : ds.foldl (fun s d => s ++ [d]) acc = acc ++ ds := by
  induction ds generalizing acc with
  | nil => simp
  | cons d ds ih => simp [ih]

/-- The heap and the structure hold the abstract sequence `t`. -/
def Holds (s : LinkedlistStructure × Heap) (t : List VoidPtr) : Prop :=
  ∃ xs, Represents s.2 s.1 xs ∧ datas xs = t

/-- One call over the heap answers like the sequence and leaves a list of the new sequence. -/
theorem exec_simulates (c : Cmd) (s : LinkedlistStructure × Heap) (t : List VoidPtr)
    (hR : Holds s t) :
    (∃ e, exec c s = .error e ∧ e = .mallocInUse) ∨
      ∃ s', exec c s = .ok ((spec c t).1, s') ∧ Holds s' (spec c t).2 := by
  obtain ⟨l, h⟩ := s
  obtain ⟨xs, hr, rfl⟩ := hR
  cases c with
  | init => exact .inr ⟨_, rfl, [], represents_init h, rfl⟩
  | push a d =>
    cases ha : h a with
    | some c => exact .inl ⟨_, by simp [exec, linkedlistPush, mallocNode, ha], rfl⟩
    | none =>
      obtain ⟨l', h', he, hr', -⟩ := linkedlistPush_spec hr ha d
      exact .inr ⟨(l', h'), by simp [exec, he, spec], _, hr', by simp [spec, Seq.linkedlistPush]⟩
  | pop =>
    cases xs using List.reverseRecOn with
    | nil =>
      exact .inr ⟨(l, h), by simp [exec, linkedlistPop_nil hr, spec, Seq.linkedlistPop],
        [], hr, rfl⟩
    | append_singleton ys x =>
      obtain ⟨a, d⟩ := x
      obtain ⟨l', h', he, hr', -⟩ := linkedlistPop_concat hr
      refine .inr ⟨(l', h'), by simp [exec, he, spec, Seq.linkedlistPop], ys, hr', ?_⟩
      simp [spec, Seq.linkedlistPop]
  | peek =>
    exact .inr ⟨(l, h), by simp [exec, linkedlistPeek_spec hr, spec, Seq.linkedlistPeek],
      xs, hr, rfl⟩
  | peekFirstMatch matchFn args =>
    refine .inr ⟨(l, h), ?_, xs, hr, rfl⟩
    simp only [exec, linkedlistPeekFirstMatchFromRear_spec hr hr.lt_fuel, spec, Outcome.ok_bind,
      Outcome.pure_eq]
  | popFirstMatch matchFn args =>
    obtain ⟨l', h', xs', he, hr', hd⟩ :=
      linkedlistPopFirstMatchFromRear_spec hr hr.lt_fuel matchFn args
    exact .inr ⟨(l', h'), by simp only [exec, he, spec, Outcome.ok_bind, Outcome.pure_eq],
      xs', hr', hd⟩
  | iterate =>
    refine .inr ⟨(l, h), ?_, xs, hr, rfl⟩
    have hi := iteratorLoop_spec 0 hr.seg (fun d ds => ds ++ [d]) []
    rw [foldl_log, List.nil_append, ← hr.first] at hi
    rw [exec, nodeIterator, hr.fuel_eq, hi]
    rfl

end

/-! ## Runs -/

/-- From `linkedlist_init`, every sequence of calls keeps a well-formed doubly linked list and
answers like the abstract sequence. Reference: `src/linkedlist.c:72-186`. -/
theorem linkedlist_implements_sequence (cmds : List Cmd) (h₀ : Heap)
    (hmalloc : Machine.run exec cmds (linkedlistInit, h₀) ≠ .error .mallocInUse) :
    ∃ l h xs, Machine.run exec cmds (linkedlistInit, h₀) =
        .ok ((Machine.specRun spec cmds []).1, l, h) ∧
      Represents h l xs ∧ WellFormed h l (addrs xs) ∧
      datas xs = (Machine.specRun spec cmds []).2 := by
  have hinit : Holds (linkedlistInit, h₀) [] := ⟨[], represents_init h₀, rfl⟩
  rcases Machine.run_simulates exec_simulates cmds hinit with
    ⟨e, he, rfl⟩ | ⟨⟨l, h⟩, he, xs, hr, hd⟩
  · exact absurd he hmalloc
  · exact ⟨l, h, xs, he, hr, hr.wellFormed, hd⟩

/-- Three pushes, the removal of the middle node by its datum, and a pop. -/
theorem linkedlist_implements_sequence_three :
    ∃ l h xs, Machine.run exec [.push 1 5, .push 2 7, .push 3 9,
        .popFirstMatch (fun d _ => if d = 7 then 1 else 0) 0, .pop]
        (linkedlistInit, fun _ => none) = .ok ([.unit, .unit, .unit, .ptr 7, .ptr 9], l, h) ∧
      Represents h l xs ∧ WellFormed h l (addrs xs) ∧ datas xs = [5] := by
  refine linkedlist_implements_sequence _ _ ?_
  rw [show Machine.run exec [.push 1 5, .push 2 7, .push 3 9,
    .popFirstMatch (fun d _ => if d = 7 then 1 else 0) 0, .pop]
    (linkedlistInit, fun _ => none) = .ok (_, _) from rfl]
  exact nofun

end SeKernel.LinkedList
