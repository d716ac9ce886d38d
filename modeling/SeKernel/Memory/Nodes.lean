import SeKernel.LinkedList.Family
import SeKernel.Memory.AllocSafe
import SeKernel.Memory.PopBlock

/-!
# The free list over its objects

`pm_memory_allocation_request` and `pm_m_frame_free` of `src/memory_s.c` over the nodes of the free
list and the `struct free_block`s that the nodes point to. In every run they do what the calls of
`SeKernel.Memory.Alloc` do to the sequence of the blocks (`allocator_over_objects`): each block that
is allocated stands in the list exactly once, each node is one of the list, and nothing is freed
twice or lost.
-/

namespace SeKernel

open Doubly LinkedList

/-! ## The code -/

/-- What `malloc` answers with for a new block and for the node of that block. -/
structure BlockMallocs where
  block : VoidPtr
  node : Addr

/-- A new block at the end of the list. Reference: `pm_m_frame_free` (`src/memory_s.c:78`),
`pm_memory_allocation_request` (`src/memory_s.c:169`). -/
def FreeList.pushBlock (s : FreeList) (m : BlockMallocs) (fb : FreeBlock) : Outcome FreeList := do
  let blocks ← mallocBlock s.blocks m.block fb
  let (list, nodes) ← linkedlistPush m.node s.list m.block s.nodes
  return ⟨list, nodes, blocks⟩

/-- The part of a block on one side of the limits, if there is one, as a block of its own.
Reference: `pm_memory_allocation_request` (`src/memory_s.c:168`). -/
def FreeList.pushPart (s : FreeList) (m : BlockMallocs) (left : Prop) [Decidable left]
    (fb : FreeBlock) : Outcome FreeList :=
  if left then s.pushBlock m fb else return s

/-- The return value, the address returned through `return_address`, and the list. `args` is the
pointer of `request`; `before` and `after` are what `malloc` answers with. Reference:
`pm_memory_allocation_request` (`src/memory_s.c:151`). -/
def FreeList.pmMemoryAllocationRequest (s : FreeList) (args : VoidPtr)
    (request : FreeBlockSearchArgs) (before after : BlockMallocs) :
    Outcome (Int × Word × FreeList) := do
  let found ← linkedlistPeekFirstMatchFromRear (s.list.length.toNat + 1) s.list s.nodes
    (searchSpaceMatch s.blocks request) args
  if found = NULL then
    throw (.err 1 "pm_memory_allocation_request: no free space found")
  else
    let (p, list, nodes) ← linkedlistPop s.list s.nodes
    if p = NULL then
      throw (.err 1 "pm_memory_allocation_request: linkedlist_pop failed")
    else
      let fb ← readBlock s.blocks p
      -- `free(fb)`
      let s : FreeList := ⟨list, nodes, Function.update s.blocks p none⟩
      let s ← s.pushPart before (fb.startAddress < request.startLimitAddress)
        ⟨fb.startAddress, request.startLimitAddress - 1⟩
      let s ← s.pushPart after (fb.endAddress > request.endLimitAddress)
        ⟨request.endLimitAddress + 1, fb.endAddress⟩
      return (0, request.startLimitAddress, s)

/-- `__search_address` (`src/memory_s.c:47`) as the list calls it, `address` being the object that
its second argument points to. -/
def searchAddressMatch (blocks : VoidPtr → Option FreeBlock) (address : Word)
    (data _args : VoidPtr) : Int :=
  match blocks data with
  | none => 0
  | some fb => if searchAddress fb address then 1 else 0

/-- `args` is the pointer of `frame_start_address`. Reference: `pm_m_frame_free`
(`src/memory_s.c:72`). -/
def FreeList.pmMFrameFree (s : FreeList) (args : VoidPtr) (physicalAddress : Word)
    (m : BlockMallocs) : Outcome (Int × FreeList) := do
  let frameStartAddress := physicalAddress &&& frameAddressMask
  let found ← linkedlistPeekFirstMatchFromRear (s.list.length.toNat + 1) s.list s.nodes
    (searchAddressMatch s.blocks frameStartAddress) args
  if found ≠ NULL then
    throw (.err 1 "pm_m_frame_free: frame not found")
  else
    let s ← s.pushBlock m ⟨frameStartAddress, frameStartAddress + frameSize - 1⟩
    return (0, s)

/-! ## What the objects stand for -/

/-- The nodes of the list hold pointers to the allocated blocks, each of them once; the blocks are
`freeBlocks`, and of the other nodes none has been allocated or freed since `base`. -/
structure FreeList.Implements (base : LinkedList.Heap) (s : FreeList)
    (freeBlocks : List FreeBlock) : Prop where
  null : s.blocks NULL = none
  nodes : ∃ xs, Family Set.univ base s.nodes (fun _ : Unit => s.list) xs ∧
    Owned.Owns s.blocks (datas (xs ())) ∧ Owned.contents s.blocks (datas (xs ())) = freeBlocks

namespace FreeList.Implements

variable {base : LinkedList.Heap} {s : FreeList} {freeBlocks : List FreeBlock}

/-- The search finds nothing, and answers `NULL`, when no block of the list is of the kind. -/
theorem peek (h : s.Implements base freeBlocks) {matchFn : VoidPtr → VoidPtr → Int}
    {args : VoidPtr} {P : FreeBlock → Bool}
    (hmatch : ∀ p, isMatch matchFn args p = (s.blocks p).any P) :
    ∃ found,
      linkedlistPeekFirstMatchFromRear (s.list.length.toNat + 1) s.list s.nodes matchFn args =
        .ok found ∧ (found = NULL ↔ freeBlocks.find? P = none) := by
  obtain ⟨xs, hF, howns, hcontents⟩ := h.nodes
  have hr := hF.list () (Set.mem_univ _)
  refine ⟨_, linkedlistPeekFirstMatchFromRear_spec hr hr.lt_fuel matchFn args, ?_⟩
  rw [← hcontents, ← howns.find?_eq_none P, Seq.linkedlistPeekFirstMatchFromRear,
    show isMatch matchFn args = fun p => (s.blocks p).any P from funext hmatch]
  cases hfind : (datas (xs ())).find? fun p => (s.blocks p).any P with
  | none => exact iff_of_true rfl rfl
  | some p =>
    have hlive := (howns.live p).2 (List.mem_of_find?_eq_some hfind)
    refine iff_of_false ?_ (Option.some_ne_none p)
    rintro rfl
    rw [h.null] at hlive
    cases hlive

/-- A new block stands at the end of the list. -/
theorem pushBlock (h : s.Implements base freeBlocks) {m : BlockMallocs} (hm : m.block ≠ NULL)
    (fb : FreeBlock) :
    s.pushBlock m fb = .error .mallocInUse ∨
      ∃ s', s.pushBlock m fb = .ok s' ∧
        s'.Implements base (Seq.linkedlistPush freeBlocks fb) := by
  obtain ⟨xs, hF, howns, hcontents⟩ := h.nodes
  cases hblock : s.blocks m.block with
  | some b =>
    refine .inl ?_
    simp [FreeList.pushBlock, mallocBlock, hm, hblock]
  | none =>
    cases hnode : s.nodes m.node with
    | some c =>
      refine .inl ?_
      simp [FreeList.pushBlock, mallocBlock_fresh hblock hm, linkedlistPush, mallocNode, hnode]
    | none =>
      obtain ⟨list, nodes, hpush, hF'⟩ := hF.push (i := ()) (Set.mem_univ _) hnode m.block
      rw [update_unit] at hF'
      refine .inr ⟨⟨list, nodes, Function.update s.blocks m.block (some fb)⟩, ?_, ?_, _, hF', ?_⟩
      · simp only [FreeList.pushBlock, mallocBlock_fresh hblock hm, Outcome.ok_bind, hpush,
          Outcome.pure_eq]
      · exact (Function.update_of_ne hm.symm _ _).trans h.null
      · rw [Function.update_self, datas_append]
        exact ⟨howns.add hblock fb, (howns.contents_add hblock fb).trans (by rw [hcontents]; rfl)⟩

theorem pushPart (h : s.Implements base freeBlocks) {m : BlockMallocs} (hm : m.block ≠ NULL)
    (left : Prop) [Decidable left] (fb : FreeBlock) :
    s.pushPart m left fb = .error .mallocInUse ∨
      ∃ s', s.pushPart m left fb = .ok s' ∧
        s'.Implements base (if left then Seq.linkedlistPush freeBlocks fb else freeBlocks) := by
  unfold FreeList.pushPart
  by_cases hleft : left
  · rw [if_pos hleft, if_pos hleft]
    exact h.pushBlock hm fb
  · rw [if_neg hleft, if_neg hleft]
    exact .inr ⟨s, rfl, h⟩

/-- The last block leaves the list with its node. -/
theorem pop (h : s.Implements base freeBlocks) {rest : List FreeBlock} {fb : FreeBlock}
    (hlist : freeBlocks = rest ++ [fb]) :
    ∃ p list nodes, linkedlistPop s.list s.nodes = .ok (p, list, nodes) ∧ p ≠ NULL ∧
      s.blocks p = some fb ∧
      FreeList.Implements base ⟨list, nodes, Function.update s.blocks p none⟩ rest := by
  obtain ⟨xs, hF, howns, hcontents⟩ := h.nodes
  rw [hlist] at hcontents
  cases hxs : xs () using List.reverseRecOn with
  | nil =>
    rw [hxs] at hcontents
    simp [Owned.contents] at hcontents
  | append_singleton ys x =>
    obtain ⟨a, p⟩ := x
    rw [hxs, datas_append, datas_cons, datas_nil] at howns hcontents
    obtain ⟨b, hb⟩ := Option.isSome_iff_exists.1 ((howns.live p).2 (by simp))
    have hp : p ∉ datas ys := by
      have hnodup := List.nodup_append.1 howns.nodup
      exact fun hmem => hnodup.2.2 p hmem p (by simp) rfl
    have hsplit : Owned.contents s.blocks (datas ys) = rest ∧ b = fb := by
      rw [Owned.contents_append] at hcontents
      have hone : Owned.contents s.blocks [p] = [b] := by simp [Owned.contents, hb]
      rw [hone] at hcontents
      simpa using List.append_inj' hcontents rfl
    obtain ⟨list, nodes, hpop, hF'⟩ := hF.pop (i := ()) (Set.mem_univ _) hxs
    rw [update_unit] at hF'
    refine ⟨p, list, nodes, hpop, ?_, hsplit.2 ▸ hb, ?_, _, hF', ?_⟩
    · rintro rfl
      rw [h.null] at hb
      cases hb
    · dsimp only
      rw [Function.update_apply, h.null, ite_self]
    · rw [Function.update_self]
      have hremoved : Owned.Owns (Function.update s.blocks p none) (datas ys ++ []) := howns.remove
      rw [List.append_nil] at hremoved
      exact ⟨hremoved, (Owned.contents_update hp none).trans hsplit.1⟩

end FreeList.Implements

/-! ## The calls -/

section

variable {base : LinkedList.Heap} {s : FreeList} {ps : PhysicalMemory}

theorem isMatch_searchAddressMatch (blocks : VoidPtr → Option FreeBlock) (address : Word)
    (args p : VoidPtr) :
    isMatch (searchAddressMatch blocks address) args p =
      (blocks p).any (searchAddress · address) := by
  unfold isMatch searchAddressMatch
  cases blocks p with
  | none => rfl
  | some fb => cases h : searchAddress fb address <;> simp [h]

theorem searchSpaceAt_eq (blocks : VoidPtr → Option FreeBlock) (request : FreeBlockSearchArgs)
    (p : VoidPtr) : searchSpaceAt blocks request p = (blocks p).any (searchSpace · request) := by
  unfold searchSpaceAt
  cases blocks p <;> rfl

/-- Reference: `pm_memory_allocation_request` (`src/memory_s.c:151`). -/
theorem FreeList.pmMemoryAllocationRequest_refines (h : s.Implements base ps.freeBlocks)
    (args : VoidPtr) (request : FreeBlockSearchArgs) {before after : BlockMallocs}
    (hbefore : before.block ≠ NULL) (hafter : after.block ≠ NULL) :
    Outcome.RelUnless .mallocInUse
      (fun x y => x.1 = y.1 ∧ x.2.1 = y.2.1 ∧ x.2.2.Implements base y.2.2.freeBlocks)
      (s.pmMemoryAllocationRequest args request before after)
      (SeKernel.pmMemoryAllocationRequest ps request) := by
  have hmatch : ∀ p, isMatch (searchSpaceMatch s.blocks request) args p =
      (s.blocks p).any (searchSpace · request) := by
    intro p
    rw [isMatch_searchSpaceMatch, searchSpaceAt_eq]
  obtain ⟨found, hpeek, hnull⟩ := h.peek hmatch
  unfold FreeList.pmMemoryAllocationRequest SeKernel.pmMemoryAllocationRequest
    Seq.linkedlistPeekFirstMatchFromRear
  rw [hpeek, Outcome.ok_bind]
  cases hfind : ps.freeBlocks.find? (searchSpace · request) with
  | none =>
    rw [if_pos (hnull.2 hfind)]
    exact .inr rfl
  | some fb =>
    rw [if_neg fun hz => by rw [hnull.1 hz] at hfind; cases hfind]
    rcases List.eq_nil_or_concat' ps.freeBlocks with hnil | ⟨rest, fb, hlist⟩
    · rw [hnil] at hfind
      cases hfind
    obtain ⟨p, list, nodes, hpop, hp, hfb, h'⟩ := h.pop hlist
    simp only [hpop, Outcome.ok_bind, if_neg hp, readBlock_eq_ok.2 ⟨hp, hfb⟩, hlist,
      Seq.linkedlistPop, List.getLast?_concat, List.dropLast_concat]
    rcases h'.pushPart hbefore (fb.startAddress < request.startLimitAddress)
      ⟨fb.startAddress, request.startLimitAddress - 1⟩ with herr | ⟨s₁, hs₁, h₁⟩
    · refine .inl ?_
      rw [herr]
      rfl
    rw [hs₁, Outcome.ok_bind]
    rcases h₁.pushPart hafter (fb.endAddress > request.endLimitAddress)
      ⟨request.endLimitAddress + 1, fb.endAddress⟩ with herr | ⟨s₂, hs₂, h₂⟩
    · refine .inl ?_
      rw [herr]
      rfl
    rw [hs₂, Outcome.ok_bind]
    exact .inr ⟨rfl, rfl, h₂⟩

/-- Reference: `pm_m_frame_free` (`src/memory_s.c:72`). -/
theorem FreeList.pmMFrameFree_refines (h : s.Implements base ps.freeBlocks)
    (args : VoidPtr) (physicalAddress : Word) {m : BlockMallocs} (hm : m.block ≠ NULL) :
    Outcome.RelUnless .mallocInUse
      (fun x y => x.1 = y.1 ∧ x.2.Implements base y.2.freeBlocks)
      (s.pmMFrameFree args physicalAddress m) (SeKernel.pmMFrameFree ps physicalAddress) := by
  obtain ⟨found, hpeek, hnull⟩ := h.peek
    (isMatch_searchAddressMatch s.blocks (physicalAddress &&& frameAddressMask) args)
  unfold FreeList.pmMFrameFree SeKernel.pmMFrameFree Seq.linkedlistPeekFirstMatchFromRear
  simp only [hpeek, Outcome.ok_bind]
  cases hfind : ps.freeBlocks.find? (searchAddress · (physicalAddress &&& frameAddressMask)) with
  | some fb =>
    rw [if_pos fun hz => by rw [hnull.1 hz] at hfind; cases hfind]
    exact .inr rfl
  | none =>
    rw [if_neg (not_not_intro (hnull.2 hfind))]
    rcases h.pushBlock hm ⟨physicalAddress &&& frameAddressMask,
      (physicalAddress &&& frameAddressMask) + frameSize - 1⟩ with herr | ⟨s', hs', h'⟩
    · refine .inl ?_
      rw [herr]
      rfl
    · rw [hs', Outcome.ok_bind]
      exact .inr ⟨rfl, h'⟩

end

/-! ## Runs -/

/-- The free list and the ranges handed out. -/
structure FreeListState where
  list : FreeList
  live : List LiveRange

/-- The calls of a run, each with the answers of `malloc`, and the addresses of the objects that the
searches are given. -/
inductive FreeListCmd
  | request (args : VoidPtr) (limits : FreeBlockSearchArgs) (before after : BlockMallocs)
  | frameFree (args : VoidPtr) (physicalAddress : Word) (m : BlockMallocs)

/-- The call without the addresses of objects. -/
def FreeListCmd.call : FreeListCmd → AllocCmd
  | .request _ limits _ _ => .request limits
  | .frameFree _ physicalAddress _ => .frameFree physicalAddress

/-- One call. -/
def FreeListCmd.exec : FreeListCmd → FreeListState → Outcome (Int × FreeListState)
  | .request args limits before after, s => do
    let (ret, address, list) ← s.list.pmMemoryAllocationRequest args limits before after
    return (ret, ⟨list, s.live ++ [⟨address, limits.minAddressKon⟩]⟩)
  | .frameFree args physicalAddress m, s => do
    let (ret, list) ← s.list.pmMFrameFree args physicalAddress m
    return (ret, ⟨list, s.live.erase ⟨physicalAddress, frameSize⟩⟩)

/-- `malloc` does not answer `NULL`. -/
def FreeListCmd.Mallocs : FreeListCmd → Prop
  | .request _ _ before after => before.block ≠ NULL ∧ after.block ≠ NULL
  | .frameFree _ _ m => m.block ≠ NULL

/-- The objects stand for the free blocks, and the same ranges are handed out. -/
structure FreeListState.Implements (base : LinkedList.Heap) (s : FreeListState) (t : AllocState) :
    Prop where
  list : s.list.Implements base t.ps.freeBlocks
  live : s.live = t.live

/-- One call answers alike and leaves objects that stand for the new blocks. -/
theorem FreeListCmd.exec_refines {base : LinkedList.Heap} {cmd : FreeListCmd} {s : FreeListState}
    {t : AllocState} (hcmd : cmd.Mallocs) (h : s.Implements base t) :
    Outcome.RelUnless .mallocInUse (fun x y => x.1 = y.1 ∧ x.2.Implements base y.2) (cmd.exec s)
      (cmd.call.exec t) := by
  cases cmd with
  | request args limits before after =>
    refine (FreeList.pmMemoryAllocationRequest_refines h.list args limits hcmd.1 hcmd.2).bind ?_
    rintro ⟨ret, address, list⟩ ⟨ret', address', ps⟩ ⟨hret, haddress, hlist⟩
    dsimp only at hret haddress hlist
    subst hret haddress
    exact .inr ⟨rfl, hlist, congrArg (· ++ _) h.live⟩
  | frameFree args physicalAddress m =>
    refine (FreeList.pmMFrameFree_refines h.list args physicalAddress hcmd).bind ?_
    rintro ⟨ret, list⟩ ⟨ret', ps⟩ ⟨hret, hlist⟩
    dsimp only at hret hlist
    subst hret
    exact .inr ⟨rfl, hlist, congrArg (List.erase · _) h.live⟩

/-- The free list of `pmemo_init`, with no block allocated before. Reference: `pmemo_init`
(`src/memory_s.c:318`). -/
def FreeList.pmemoInit (base : LinkedList.Heap) (m : BlockMallocs) : Outcome FreeList :=
  FreeList.pushBlock ⟨linkedlistInit, base, fun _ => none⟩ m
    ⟨kernelSpaceStartAddress, memSpaceEndAddress⟩

/-- From `pmemo_init`, every run of requests and frame frees does over the objects of the free list
what it does to the sequence of its blocks: it returns the same or stops at the same call, each
allocated block stands in the list exactly once, and the nodes are those of the list. Reference:
`pm_memory_allocation_request` (`src/memory_s.c:151`), `pm_m_frame_free` (`src/memory_s.c:72`). -/
theorem allocator_over_objects (base : LinkedList.Heap) (memory : Memory) (m : BlockMallocs)
    (cmds : List FreeListCmd) (hm : m.block ≠ NULL) (hmallocs : ∀ cmd ∈ cmds, cmd.Mallocs)
    (hfresh : (do
      let list ← FreeList.pmemoInit base m
      Machine.run FreeListCmd.exec cmds ⟨list, []⟩) ≠ .error .mallocInUse) :
    Outcome.Rel (fun x y => x.1 = y.1 ∧ x.2.Implements base y.2)
      (do
        let list ← FreeList.pmemoInit base m
        Machine.run FreeListCmd.exec cmds ⟨list, []⟩)
      (Machine.run AllocCmd.exec (cmds.map FreeListCmd.call) (allocInit memory)) := by
  have hempty : FreeList.Implements base ⟨linkedlistInit, base, fun _ => none⟩ [] := by
    refine ⟨rfl, fun _ => [], Family.init (fun _ _ => rfl) base, ⟨List.nodup_nil, ?_⟩, rfl⟩
    intro p
    simp
  rcases hempty.pushBlock hm ⟨kernelSpaceStartAddress, memSpaceEndAddress⟩ with
    herr | ⟨list, hinit, h⟩
  · refine absurd ?_ hfresh
    rw [FreeList.pmemoInit, herr]
    rfl
  rw [FreeList.pmemoInit, hinit, Outcome.ok_bind] at hfresh ⊢
  have hstart : FreeListState.Implements base ⟨list, []⟩ (allocInit memory) := ⟨h, rfl⟩
  have hrun := Outcome.RelUnless.run (f := FreeListCmd.call) (g := id)
    (fun _ _ _ hcmd hs => FreeListCmd.exec_refines hcmd hs) hmallocs hstart
  refine (hrun.resolve_left hfresh).mono fun x y hxy => ?_
  rw [List.map_id] at hxy
  exact hxy

/-- A frame is taken and given back. -/
theorem allocator_over_objects_frame : ∃ s, (do
      let list ← FreeList.pmemoInit (fun _ => none) ⟨0x1000, 1⟩
      Machine.run FreeListCmd.exec
        [.request 8 ⟨0x400000, 0xFFFFFF, 256⟩ ⟨0x2000, 2⟩ ⟨0x3000, 3⟩,
          .frameFree 8 0x400000 ⟨0x1000, 1⟩] ⟨list, []⟩) = .ok ([0, 0], s) ∧
    s.list.Implements (fun _ => none) [⟨0, 0x3FFFFF⟩, ⟨0x400000, 0x4000FF⟩] := by
  have hrun : ∃ s, (do
      let list ← FreeList.pmemoInit (fun _ => none) ⟨0x1000, 1⟩
      Machine.run FreeListCmd.exec
        [.request 8 ⟨0x400000, 0xFFFFFF, 256⟩ ⟨0x2000, 2⟩ ⟨0x3000, 3⟩,
          .frameFree 8 0x400000 ⟨0x1000, 1⟩] ⟨list, []⟩) = .ok ([0, 0], s) := ⟨_, rfl⟩
  obtain ⟨s, hs⟩ := hrun
  have hrel := allocator_over_objects (fun _ => none) (fun _ => 0) ⟨0x1000, 1⟩
    [.request 8 ⟨0x400000, 0xFFFFFF, 256⟩ ⟨0x2000, 2⟩ ⟨0x3000, 3⟩,
      .frameFree 8 0x400000 ⟨0x1000, 1⟩] (by decide) (by simp [FreeListCmd.Mallocs, NULL])
    (by rw [hs]; exact nofun)
  rw [hs] at hrel
  obtain ⟨⟨rets, t⟩, ht, -, himpl⟩ := hrel.of_ok_left
  cases ht
  exact ⟨s, hs, himpl.list⟩

end SeKernel
