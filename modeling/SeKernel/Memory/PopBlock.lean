import SeKernel.LinkedList.PopMatch
import SeKernel.Memory.Optimize

/-!
# The block that leaves the free list

`__pm_memory_allocation_procedure` over the nodes of the free list. It does what the procedure of
`SeKernel.Memory.Carve` does on the data alone (`pmMemoryAllocationProcedure_refines`), whatever
pointer comes out of the list. That pointer is the one of the block whose node has left the list
only when it fits an `int` (`worksOn_iff`).
-/

namespace SeKernel

open Doubly LinkedList

/-- What `malloc` answers with in one call: a block, the node of that block and the node of the rest
of the block that was found. -/
structure Mallocs where
  block : VoidPtr
  blockNode : Addr
  restNode : Addr

/-! ## The code -/

/-- `__search_space` (`src/memory_s.c:33`) as the list calls it, `request` being the object that its
second argument points to. -/
def searchSpaceMatch (blocks : VoidPtr → Option FreeBlock) (request : FreeBlockSearchArgs)
    (data _args : VoidPtr) : Int :=
  if searchSpaceAt blocks request data then 1 else 0

/-- The part of the block before the limits, pushed in a new object. Reference:
`__pm_memory_allocation_procedure` (`src/memory_s.c:193`). -/
def FreeList.pushBefore (s : FreeList) (fb : FreeBlock) (request : FreeBlockSearchArgs)
    (m : Mallocs) : Outcome FreeList :=
  if fb.startAddress < request.startLimitAddress then do
    let blocks ← mallocBlock s.blocks m.block ⟨fb.startAddress, request.startLimitAddress - 1⟩
    let (list, nodes) ← linkedlistPush m.blockNode s.list m.block s.nodes
    return ⟨list, nodes, blocks⟩
  else return s

/-- The block with its new start, pushed if it has addresses left and freed if not. Reference:
`__pm_memory_allocation_procedure` (`src/memory_s.c:204`). -/
def FreeList.pushAfter (s : FreeList) (p : VoidPtr) (fb : FreeBlock) (m : Mallocs) :
    Outcome FreeList :=
  if fb.startAddress ≤ fb.endAddress then do
    let (list, nodes) ← linkedlistPush m.restNode s.list p s.nodes
    return ⟨list, nodes, Function.update s.blocks p (some fb)⟩
  else return { s with blocks := Function.update s.blocks p none }

/-- The procedure on the block at `p`, which has left the list. Reference:
`__pm_memory_allocation_procedure` (`src/memory_s.c:192`). -/
def FreeList.carveBlock (s : FreeList) (request : FreeBlockSearchArgs) (p : VoidPtr)
    (m : Mallocs) : Outcome (Int × Word × FreeList) := do
  let fb ← readBlock s.blocks p
  let start := startResultingAddress fb request
  let s ← s.pushBefore fb request m
  let s ← s.pushAfter p { fb with startAddress := start + request.minAddressKon } m
  return (0, start, s)

/-- The return value, the address returned through `ret_address`, and the list. `args` is the
pointer of `request`. Reference: `__pm_memory_allocation_procedure` (`src/memory_s.c:186`). -/
def FreeList.pmMemoryAllocationProcedure (fuel : Nat) (s : FreeList) (args : VoidPtr)
    (request : FreeBlockSearchArgs) (m : Mallocs) : Outcome (Int × Word × FreeList) := do
  let (p, list, nodes) ←
    linkedlistPopFirstMatchFromRear fuel s.list s.nodes (searchSpaceMatch s.blocks request) args
  if p = NULL then
    throw (.err 1 "__pm_memory_allocation_procedure: invalid arguments")
  else
    FreeList.carveBlock ⟨list, nodes, s.blocks⟩ request p m

/-- The same steps on the data alone. -/
def BlockMemory.carveBlock (t : BlockMemory) (request : FreeBlockSearchArgs) (p new : VoidPtr) :
    Outcome (Int × Word × BlockMemory) := do
  let fb ← readBlock t.heap p
  let start := startResultingAddress fb request
  let t ← t.pushBefore fb request new
  return (0, start, t.pushAfter p { fb with startAddress := start + request.minAddressKon })

/-! ## What the procedure relies on -/

/-- The node of the block `p` leaves the list, and what the procedure does after the search is what
it does with `p`. -/
def FreeList.WorksOn (fuel : Nat) (s : FreeList) (args : VoidPtr) (request : FreeBlockSearchArgs)
    (m : Mallocs) (p : VoidPtr) : Prop :=
  ∃ r list nodes ys a zs,
    linkedlistPopFirstMatchFromRear fuel s.list s.nodes (searchSpaceMatch s.blocks request) args =
      .ok (r, list, nodes) ∧
    Represents s.nodes s.list (ys ++ (a, p) :: zs) ∧ Represents nodes list (ys ++ zs) ∧
    s.pmMemoryAllocationProcedure fuel args request m =
      FreeList.carveBlock ⟨list, nodes, s.blocks⟩ request p m

/-- The answers of `malloc` are not `NULL`, not in use and not the same. -/
structure FreeList.Fresh (s : FreeList) (m : Mallocs) : Prop where
  block : s.blocks m.block = none
  block_ne : m.block ≠ NULL
  blockNode : s.nodes m.blockNode = none
  restNode : s.nodes m.restNode = none
  node_ne : m.restNode ≠ m.blockNode

/-- The nodes hold the data of `t`, in the same heap of blocks. -/
def FreeList.Refines (s : FreeList) (t : BlockMemory) : Prop :=
  LinkedList.Holds (s.list, s.nodes) t.freeBlocks ∧ s.blocks = t.heap

/-- The same answers, and lists of the same data. -/
def ResultRefines (x : Int × Word × FreeList) (y : Int × Word × BlockMemory) : Prop :=
  x.1 = y.1 ∧ x.2.1 = y.2.1 ∧ x.2.2.Refines y.2.2

section

variable {s : FreeList} {t t' : BlockMemory} {m : Mallocs} {request : FreeBlockSearchArgs}
  {args p q new : VoidPtr} {fb : FreeBlock} {xs ys zs : List (Addr × VoidPtr)} {a : Addr}
  {fuel : Nat}

/-! ## The nodes and the data -/

/-- The nodes determine the data. -/
theorem FreeList.Refines.unique (h : s.Refines t) (h' : s.Refines t') : t = t' := by
  obtain ⟨⟨xs, hr, hxs⟩, hheap⟩ := h
  obtain ⟨⟨ys, hr', hys⟩, hheap'⟩ := h'
  have hnodes : xs = ys := hr.seg.chain.unique hr'.seg.chain (hr.first.symm.trans hr'.first)
  obtain ⟨heap, freeBlocks⟩ := t
  obtain ⟨heap', freeBlocks'⟩ := t'
  cases hheap.symm.trans hheap'
  cases hxs.symm.trans (hnodes ▸ hys)
  rfl

/-- Pushing a pointer appends it to the data, and takes no address but the one of its node.
Reference: `linkedlist_push` (`src/linkedlist.c:106`). -/
theorem FreeList.Refines.push (h : s.Refines t) (ha : s.nodes a = none) (p : VoidPtr)
    (blocks : VoidPtr → Option FreeBlock) :
    ∃ list nodes, linkedlistPush a s.list p s.nodes = .ok (list, nodes) ∧
      FreeList.Refines ⟨list, nodes, blocks⟩ ⟨blocks, Seq.linkedlistPush t.freeBlocks p⟩ ∧
      ∀ b, b ≠ a → s.nodes b = none → nodes b = none := by
  obtain ⟨⟨xs, hr, hxs⟩, -⟩ := h
  obtain ⟨list, nodes, hpush, hr', hframe⟩ := linkedlistPush_spec hr ha p
  refine ⟨list, nodes, hpush, ⟨⟨_, hr', ?_⟩, rfl⟩, ?_⟩
  · rw [datas_append, hxs]
    rfl
  · intro b hb hfree
    have hout : b ∉ a :: addrs xs := by
      rw [List.mem_cons, not_or]
      exact ⟨hb, hr.seg.notMem hfree⟩
    exact (hframe b hout).trans hfree

theorem FreeList.pushBefore_refines (h : s.Refines t) (hfresh : s.Fresh m) (fb : FreeBlock)
    (request : FreeBlockSearchArgs) :
    Outcome.Rel (fun s' t' => s'.Refines t' ∧ s'.nodes m.restNode = none)
      (s.pushBefore fb request m) (t.pushBefore fb request m.block) := by
  unfold FreeList.pushBefore BlockMemory.pushBefore
  by_cases hlt : fb.startAddress < request.startLimitAddress
  · rw [if_pos hlt, if_pos hlt, h.2]
    refine (Outcome.Rel.refl _).bind ?_
    rintro blocks _ rfl
    obtain ⟨list, nodes, hpush, h', hframe⟩ := h.push hfresh.blockNode m.block blocks
    rw [hpush]
    exact ⟨h', hframe _ hfresh.node_ne hfresh.restNode⟩
  · rw [if_neg hlt, if_neg hlt]
    exact ⟨h, hfresh.restNode⟩

theorem FreeList.pushAfter_refines (h : s.Refines t) (hnode : s.nodes m.restNode = none)
    (p : VoidPtr) (fb : FreeBlock) :
    ∃ s', s.pushAfter p fb m = .ok s' ∧ s'.Refines (t.pushAfter p fb) := by
  unfold FreeList.pushAfter BlockMemory.pushAfter
  by_cases hle : fb.startAddress ≤ fb.endAddress
  · obtain ⟨list, nodes, hpush, h', -⟩ := h.push hnode p (Function.update s.blocks p (some fb))
    rw [if_pos hle, if_pos hle, hpush, ← h.2]
    exact ⟨_, rfl, h'⟩
  · rw [if_neg hle, if_neg hle, ← h.2]
    exact ⟨_, rfl, h.1, rfl⟩

/-- After the search the nodes and the data go the same way. -/
theorem FreeList.carveBlock_refines (h : s.Refines t) (hfresh : s.Fresh m)
    (request : FreeBlockSearchArgs) (p : VoidPtr) :
    Outcome.Rel ResultRefines (s.carveBlock request p m) (t.carveBlock request p m.block) := by
  unfold FreeList.carveBlock BlockMemory.carveBlock
  rw [h.2]
  refine (Outcome.Rel.refl _).bind ?_
  rintro fb _ rfl
  refine (FreeList.pushBefore_refines h hfresh fb request).bind ?_
  rintro s' t' ⟨h', hnode⟩
  obtain ⟨s'', hafter, h''⟩ := FreeList.pushAfter_refines h' hnode p
    { fb with startAddress := startResultingAddress fb request + request.minAddressKon }
  rw [hafter]
  exact ⟨rfl, rfl, h''⟩

theorem isMatch_searchSpaceMatch (blocks : VoidPtr → Option FreeBlock)
    (request : FreeBlockSearchArgs) (args : VoidPtr) :
    isMatch (searchSpaceMatch blocks request) args = searchSpaceAt blocks request := by
  funext p
  cases hp : searchSpaceAt blocks request p <;> simp [isMatch, searchSpaceMatch, hp]

/-- The procedure over the nodes is the procedure over the data. Reference:
`__pm_memory_allocation_procedure` (`src/memory_s.c:186`). -/
theorem pmMemoryAllocationProcedure_refines (hr : Represents s.nodes s.list xs)
    (hfuel : xs.length < fuel)
    (hfresh : ∀ r list nodes, linkedlistPopFirstMatchFromRear fuel s.list s.nodes
      (searchSpaceMatch s.blocks request) args = .ok (r, list, nodes) →
      FreeList.Fresh ⟨list, nodes, s.blocks⟩ m) :
    Outcome.Rel ResultRefines (s.pmMemoryAllocationProcedure fuel args request m)
      (pmMemoryAllocationProcedure ⟨s.blocks, datas xs⟩ request m.block) := by
  obtain ⟨list, nodes, xs', hpop, hr', hdatas⟩ :=
    linkedlistPopFirstMatchFromRear_popMatch hr hfuel (searchSpaceMatch s.blocks request) args
  specialize hfresh _ _ _ hpop
  rw [isMatch_searchSpaceMatch] at hpop hdatas
  rw [FreeList.pmMemoryAllocationProcedure, hpop, Outcome.ok_bind, pmMemoryAllocationProcedure]
  dsimp only
  by_cases hnull : (popMatch (datas xs) (searchSpaceAt s.blocks request)).1 = NULL
  · rw [if_pos hnull, if_pos hnull]
    rfl
  · have href : FreeList.Refines ⟨list, nodes, s.blocks⟩
        ⟨s.blocks, (popMatch (datas xs) (searchSpaceAt s.blocks request)).2⟩ :=
      ⟨⟨xs', hr', hdatas⟩, rfl⟩
    rw [if_neg hnull, if_neg hnull]
    exact FreeList.carveBlock_refines href hfresh request _

/-! ## The pointer that the procedure goes on with -/

/-- The part before the limits goes to an object that was not allocated. -/
theorem BlockMemory.pushBefore_heap (h : t.pushBefore fb request new = .ok t')
    (hq : (t.heap q).isSome) : t'.heap q = t.heap q := by
  unfold BlockMemory.pushBefore at h
  split at h
  · obtain ⟨heap, hmalloc, hret⟩ := Outcome.bind_eq_ok.1 h
    unfold mallocBlock at hmalloc
    split at hmalloc
    · cases hmalloc
    split at hmalloc
    · cases hmalloc
    · next hnew =>
      cases hmalloc
      cases hret
      exact Function.update_of_ne (by rintro rfl; exact hnew hq) _ _
  · cases h
    rfl

/-- The object at `p` is freed or stands at the end of the list, and every other object is as it
was. -/
theorem BlockMemory.carveBlock_effect {y : Int × Word × BlockMemory}
    (h : t.carveBlock request p new = .ok y) :
    (t.heap p).isSome ∧ (y.2.2.heap p = none ∨ y.2.2.freeBlocks.getLast? = some p) ∧
    ∀ q, q ≠ p → (t.heap q).isSome → y.2.2.heap q = t.heap q := by
  obtain ⟨fb, hread, h⟩ := Outcome.bind_eq_ok.1 h
  obtain ⟨t', hbefore, hret⟩ := Outcome.bind_eq_ok.1 h
  obtain ⟨-, hp⟩ := readBlock_eq_ok.1 hread
  cases hret
  refine ⟨by rw [hp]; rfl, ?_⟩
  dsimp only
  unfold BlockMemory.pushAfter
  split
  · refine ⟨.inr (by simp [Seq.linkedlistPush]), fun q hq hsome => ?_⟩
    rw [← BlockMemory.pushBefore_heap hbefore hsome]
    exact Function.update_of_ne hq _ _
  · refine ⟨.inl (Function.update_self _ _ _), fun q hq hsome => ?_⟩
    rw [← BlockMemory.pushBefore_heap hbefore hsome]
    exact Function.update_of_ne hq _ _

/-- What the procedure does tells which block it works on. -/
theorem BlockMemory.carveBlock_injective {y : Int × Word × BlockMemory}
    (hp : t.carveBlock request p new = .ok y) (hq : t.carveBlock request q new = .ok y) :
    p = q := by
  by_contra hne
  obtain ⟨hpSome, hpEnd, hpFrame⟩ := BlockMemory.carveBlock_effect hp
  obtain ⟨hqSome, hqEnd, hqFrame⟩ := BlockMemory.carveBlock_effect hq
  rw [← hqFrame p hne hpSome] at hpSome
  rw [← hpFrame q (Ne.symm hne) hqSome] at hqSome
  -- neither object is freed, so each of them stands at the end of the list
  have hpLast := hpEnd.resolve_left (Option.isSome_iff_ne_none.1 hpSome)
  have hqLast := hqEnd.resolve_left (Option.isSome_iff_ne_none.1 hqSome)
  exact hne (Option.some.inj (hpLast.symm.trans hqLast))

/-- With an allocated block and a fresh object the procedure returns. -/
theorem BlockMemory.carveBlock_returns (hp : t.heap p = some fb) (hnull : p ≠ NULL)
    (hnew : t.heap new = none) (hnewNull : new ≠ NULL) (request : FreeBlockSearchArgs) :
    ∃ y, t.carveBlock request p new = .ok y := by
  have hbefore : ∃ t', t.pushBefore fb request new = .ok t' := by
    unfold BlockMemory.pushBefore
    split
    · rw [mallocBlock_fresh hnew hnewNull]
      exact ⟨_, rfl⟩
    · exact ⟨t, rfl⟩
  obtain ⟨t', ht'⟩ := hbefore
  rw [BlockMemory.carveBlock, readBlock_eq_ok.2 ⟨hnull, hp⟩, Outcome.ok_bind, ht']
  exact ⟨_, rfl⟩

theorem FreeList.carveBlock_returns (h : s.Refines t) (hfresh : s.Fresh m)
    (hp : s.blocks p = some fb) (hnull : p ≠ NULL) (request : FreeBlockSearchArgs) :
    ∃ x y, s.carveBlock request p m = .ok x ∧ t.carveBlock request p m.block = .ok y ∧
      ResultRefines x y := by
  obtain ⟨y, hy⟩ := BlockMemory.carveBlock_returns (h.2 ▸ hp) hnull (h.2 ▸ hfresh.block)
    hfresh.block_ne request
  have hrel := FreeList.carveBlock_refines h hfresh request p
  rw [hy] at hrel
  obtain ⟨x, hx, hxy⟩ := hrel.of_ok
  exact ⟨x, y, hx, hy, hxy⟩

/-- Over the nodes, too, what the procedure does tells which block it works on. -/
theorem FreeList.carveBlock_injective (h : s.Refines t) (hfresh : s.Fresh m)
    (hp : s.blocks p = some fb) (hnull : p ≠ NULL)
    (heq : s.carveBlock request q m = s.carveBlock request p m) : q = p := by
  obtain ⟨x, y, hx, hy, h₁, h₂, h₃⟩ := FreeList.carveBlock_returns h hfresh hp hnull request
  have hrel := FreeList.carveBlock_refines h hfresh request q
  rw [heq, hx] at hrel
  cases hy' : t.carveBlock request q m.block with
  | error e =>
    rw [hy'] at hrel
    cases hrel
  | ok y' =>
    rw [hy'] at hrel
    obtain ⟨h₁', h₂', h₃'⟩ := hrel
    have hsame : y' = y :=
      Prod.ext (h₁'.symm.trans h₁) (Prod.ext (h₂'.symm.trans h₂) (h₃'.unique h₃))
    exact BlockMemory.carveBlock_injective hy' (hsame ▸ hy)

theorem searchSpaceAt_allocated (h : searchSpaceAt s.blocks request p = true) :
    ∃ fb, s.blocks p = some fb := by
  unfold searchSpaceAt at h
  cases hp : s.blocks p with
  | none => simp [hp] at h
  | some fb => exact ⟨fb, rfl⟩

/-- The procedure works on the block that has left the list if and only if the pointer of that block
fits an `int`. Reference: `__pm_memory_allocation_procedure` (`src/memory_s.c:187`). -/
theorem FreeList.worksOn_iff (hr : Represents s.nodes s.list xs)
    (hnull : ∀ d ∈ datas xs, d ≠ NULL) (hfuel : xs.length < fuel)
    (hfirst : (datas xs).find? (searchSpaceAt s.blocks request) = some p)
    (hfresh : ∀ r list nodes, linkedlistPopFirstMatchFromRear fuel s.list s.nodes
      (searchSpaceMatch s.blocks request) args = .ok (r, list, nodes) →
      FreeList.Fresh ⟨list, nodes, s.blocks⟩ m) :
    s.WorksOn fuel args request m p ↔ FitsInt p := by
  have hpNull : p ≠ NULL := hnull p (List.mem_of_find?_eq_some hfirst)
  obtain ⟨fb, hfb⟩ := searchSpaceAt_allocated (List.find?_some hfirst)
  rw [← isMatch_searchSpaceMatch s.blocks request args] at hfirst
  rcases firstMatch_cases (searchSpaceMatch s.blocks request) args xs with
    hno | ⟨ys, a, d, zs, rfl, hno, hd⟩
  · rw [(find?_isMatch_none hno).1] at hfirst
    cases hfirst
  rw [(find?_isMatch_first hno hd).1] at hfirst
  cases hfirst
  obtain ⟨list, nodes, hpop, hr', -⟩ :=
    linkedlistPopFirstMatchFromRear_first hr (walk_lt hfuel) hno hd
  have hfresh' := hfresh _ _ _ hpop
  have href : FreeList.Refines ⟨list, nodes, s.blocks⟩ ⟨s.blocks, datas (ys ++ zs)⟩ :=
    ⟨⟨_, hr', rfl⟩, rfl⟩
  have hproc : s.pmMemoryAllocationProcedure fuel args request m =
      if throughInt p = NULL then
        throw (.err 1 "__pm_memory_allocation_procedure: invalid arguments")
      else FreeList.carveBlock ⟨list, nodes, s.blocks⟩ request (throughInt p) m := by
    rw [FreeList.pmMemoryAllocationProcedure, hpop]
    rfl
  constructor
  · rintro ⟨r, list₁, nodes₁, -, -, -, hpop₁, -, -, hworks⟩
    cases hpop.symm.trans hpop₁
    rw [hproc] at hworks
    split at hworks
    · -- with the block itself the procedure returns
      obtain ⟨x, -, hx, -⟩ := FreeList.carveBlock_returns href hfresh' hfb hpNull request
      cases hworks.trans hx
    · exact throughInt_eq_iff.1
        (FreeList.carveBlock_injective href hfresh' hfb hpNull hworks)
  · intro hfits
    rw [throughInt_eq_iff.2 hfits] at hpop hproc
    rw [if_neg hpNull] at hproc
    exact ⟨p, list, nodes, ys, a, zs, hpop, hr, hr', hproc⟩

/-- On every well-formed list peeking and popping a match agree, if and only if nothing matches or
the first match fits an `int`; and the procedure works on the block that has left the list, if and
only if the pointer of that block fits an `int`. Reference: `linkedlist_pop_first_match_from_rear`
(`src/linkedlist.c:129`), `__unlink_procedure_of_current` (`src/linkedlist.c:157`),
`__pm_memory_allocation_procedure` (`src/memory_s.c:186`). -/
theorem popFirstMatch_agrees_iff (hr : Represents s.nodes s.list xs)
    (hnull : ∀ d ∈ datas xs, d ≠ NULL) (hfuel : xs.length < fuel) (args : VoidPtr) :
    (∀ matchFn, PopAgreesWithPeek fuel s.nodes s.list xs matchFn args ↔
      ∀ d, (datas xs).find? (isMatch matchFn args) = some d → FitsInt d) ∧
    ∀ request m p, (datas xs).find? (searchSpaceAt s.blocks request) = some p →
      (∀ r list nodes, linkedlistPopFirstMatchFromRear fuel s.list s.nodes
        (searchSpaceMatch s.blocks request) args = .ok (r, list, nodes) →
        FreeList.Fresh ⟨list, nodes, s.blocks⟩ m) →
      (s.WorksOn fuel args request m p ↔ FitsInt p) := by
  constructor
  · intro matchFn
    exact popAgreesWithPeek_iff hr hfuel matchFn args
  · intro request m p hfirst hfresh
    exact FreeList.worksOn_iff hr hnull hfuel hfirst hfresh

end

/-- The list that `pmemo_init` builds, its node at `a` and its block at `p`. Reference: `pmemo_init`
(`src/memory_s.c:318`). -/
def pmemoInitList (a : Addr) (p : VoidPtr) : FreeList :=
  ⟨⟨some a, some a, 1⟩, Function.update (fun _ => none) a (some ⟨none, none, p⟩),
    (pmemoInitBlocks p).heap⟩

theorem pmemoInitList_represents (a : Addr) (p : VoidPtr) :
    Represents (pmemoInitList a p).nodes (pmemoInitList a p).list [(a, p)] :=
  ⟨⟨Function.update_self a _ fun _ => none, trivial⟩, List.nodup_singleton a, rfl, rfl, rfl⟩

/-- A block below 2^31, and a node that `malloc` hands out again. -/
theorem popFirstMatch_agrees_iff_init :
    PopAgreesWithPeek 2 (pmemoInitList 1 0x1000).nodes (pmemoInitList 1 0x1000).list [(1, 0x1000)]
      (fun _ _ => 1) 0x3000 ∧
    (pmemoInitList 1 0x1000).WorksOn 2 0x3000 ⟨0x400000, 0xFFFFFF, 256⟩ ⟨0x2000, 1, 2⟩ 0x1000 := by
  obtain ⟨hlist, hproc⟩ := popFirstMatch_agrees_iff (pmemoInitList_represents 1 0x1000)
    (List.forall_mem_singleton.2 (by decide)) (Nat.lt_succ_self 1) 0x3000
  constructor
  · refine (hlist _).2 fun d hfirst => ?_
    cases hfirst
    decide
  · refine (hproc _ _ _ rfl fun r list nodes hpop => ?_).2 (by decide)
    cases hpop
    exact ⟨rfl, by decide, rfl, rfl, by decide⟩

/-- A block where `malloc` puts it on a machine with pointers of 64 bits. -/
theorem popFirstMatch_loses :
    Represents (pmemoInitList 1 0x5555557692A0).nodes (pmemoInitList 1 0x5555557692A0).list
      [(1, 0x5555557692A0)] ∧
    (∀ d ∈ datas [(1, (0x5555557692A0 : VoidPtr))], d ≠ NULL) ∧
    linkedlistPeekFirstMatchFromRear 2 (pmemoInitList 1 0x5555557692A0).list
      (pmemoInitList 1 0x5555557692A0).nodes (fun _ _ => 1) 0x3000 = .ok 0x5555557692A0 ∧
    (∃ l' h', linkedlistPopFirstMatchFromRear 2 (pmemoInitList 1 0x5555557692A0).list
      (pmemoInitList 1 0x5555557692A0).nodes (fun _ _ => 1) 0x3000 = .ok (0x557692A0, l', h')) ∧
    ¬ PopAgreesWithPeek 2 (pmemoInitList 1 0x5555557692A0).nodes
      (pmemoInitList 1 0x5555557692A0).list [(1, 0x5555557692A0)] (fun _ _ => 1) 0x3000 ∧
    (pmemoInitList 1 0x5555557692A0).pmMemoryAllocationProcedure 2 0x3000
      ⟨0x400000, 0xFFFFFF, 256⟩ ⟨0x5555557692C0, 1, 2⟩ = .error .dangling ∧
    ¬ (pmemoInitList 1 0x5555557692A0).WorksOn 2 0x3000 ⟨0x400000, 0xFFFFFF, 256⟩
      ⟨0x5555557692C0, 1, 2⟩ 0x5555557692A0 := by
  have hdangles : (pmemoInitList 1 0x5555557692A0).pmMemoryAllocationProcedure 2 0x3000
      ⟨0x400000, 0xFFFFFF, 256⟩ ⟨0x5555557692C0, 1, 2⟩ = .error .dangling := rfl
  refine ⟨pmemoInitList_represents 1 _, List.forall_mem_singleton.2 (by decide), rfl,
    ⟨_, _, rfl⟩, ?_, hdangles, ?_⟩
  · rintro ⟨d, l', h', hpeek, hpop, -⟩
    cases hpeek
    cases hpop
  · rintro ⟨r, list, nodes, -, -, -, hpop, -, -, hworks⟩
    cases hpop
    cases hdangles.symm.trans hworks

end SeKernel
