import SeKernel.Fault
import SeKernel.Lib.Doubly

/-!
# The linked list over its heap

`src/linkedlist.c` on an explicit heap of nodes: every read, write and `free` of a node goes through
the heap and fails on `NULL` and on a node that is not allocated. `malloc` answers with an address
that the caller of the model supplies, so that nothing is assumed about its choice beyond its being
fresh. The `while` loops take a number of rounds (`fuel`); `outOfFuel` is a loop that goes on. A
datum is a `void *` of 64 bits. `int length` is an unbounded `Int`: it would take 2^31 live nodes
to overflow it.
-/

namespace SeKernel.LinkedList

open Doubly

/-- `void *`. -/
abbrev VoidPtr := BitVec 64

/-- `NULL` as a datum. -/
def NULL : VoidPtr := 0

/-- Addresses of nodes. A `struct linkedlist_node *` is an `Option Addr`, `NULL` is `none`. -/
abbrev Addr := Nat

/-- Reference: `struct linkedlist_node` (`headers/linkedlist_s.h:14`). -/
abbrev LinkedlistNode := Cell Addr VoidPtr

/-- The allocated nodes. -/
abbrev Heap := Addr → Option LinkedlistNode

/-- Reference: `struct linkedlist_structure` (`headers/linkedlist_s.h:8`). -/
structure LinkedlistStructure where
  first : Option Addr
  last : Option Addr
  length : Int
  deriving DecidableEq, Repr

/-! ## Access to nodes -/

/-- The node behind a pointer. -/
def readNode (h : Heap) : Option Addr → Outcome LinkedlistNode
  | none => throw .nullDeref
  | some a =>
    match h a with
    | none => throw .dangling
    | some c => pure c

/-- `p->next = n`. -/
def writeNext (h : Heap) (p n : Option Addr) : Outcome Heap :=
  match p with
  | none => throw .nullDeref
  | some a => if (h a).isSome then pure (setNext h a n) else throw .dangling

/-- `p->prev = q`. -/
def writePrev (h : Heap) (p q : Option Addr) : Outcome Heap :=
  match p with
  | none => throw .nullDeref
  | some a => if (h a).isSome then pure (setPrev h a q) else throw .dangling

/-- `malloc` answering with the address `a`, and the assignments that fill the new node. -/
def mallocNode (h : Heap) (a : Addr) (c : LinkedlistNode) : Outcome Heap :=
  if (h a).isNone then pure (Function.update h a (some c)) else throw .mallocInUse

/-- `free(p)`; freeing `NULL` does nothing. -/
def freeNode (h : Heap) : Option Addr → Outcome Heap
  | none => pure h
  | some a => if (h a).isSome then pure (Function.update h a none) else throw .dangling

/-! ## The operations -/

/-- Reference: `linkedlist_init` (`src/linkedlist.c:123`). -/
def linkedlistInit : LinkedlistStructure := ⟨none, none, 0⟩

/-- Reference: `linkedlist_push` (`src/linkedlist.c:106`), where `malloc` returns `a`. -/
def linkedlistPush (a : Addr) (list : LinkedlistStructure) (data : VoidPtr) (h : Heap) :
    Outcome (LinkedlistStructure × Heap) := do
  let h ← mallocNode h a ⟨none, none, data⟩
  if list.length = 0 then
    pure (⟨some a, some a, list.length + 1⟩, h)
  else
    let h ← writeNext h list.last (some a)
    let h ← writePrev h (some a) list.last
    pure ({ list with last := some a, length := list.length + 1 }, h)

/-- Reference: `linkedlist_pop` (`src/linkedlist.c:72`). -/
def linkedlistPop (list : LinkedlistStructure) (h : Heap) :
    Outcome (VoidPtr × LinkedlistStructure × Heap) := do
  if list.length = 0 then
    pure (NULL, list, h)
  else
    let last ← readNode h list.last
    if list.length = 1 then
      let h ← freeNode h list.last
      pure (last.data, ⟨none, none, list.length - 1⟩, h)
    else
      let h ← writeNext h last.prev none
      let h ← freeNode h list.last
      pure (last.data, { list with last := last.prev, length := list.length - 1 }, h)

/-- Reference: `linkedlist_peek` (`src/linkedlist.c:91`). -/
def linkedlistPeek (list : LinkedlistStructure) (h : Heap) : Outcome VoidPtr := do
  if list.length = 0 then
    pure NULL
  else
    let last ← readNode h list.last
    pure last.data

/-- The `while` loop of `__search_procedure` (`src/linkedlist.c:179`) with at most `fuel` rounds.
The result is the returned flag with the final `*prev` and `*current`. -/
def searchLoop (h : Heap) (matchFn : VoidPtr → VoidPtr → Int) (args : VoidPtr) :
    Nat → Option Addr → Option Addr → Outcome (Int × Option Addr × Option Addr)
  | 0, _, _ => throw .outOfFuel
  | _ + 1, prev, none => pure (0, prev, none)
  | fuel + 1, prev, some a => do
    let c ← readNode h (some a)
    if matchFn c.data args ≠ 0 then
      pure (1, prev, some a)
    else
      searchLoop h matchFn args fuel (some a) c.next

/-- Reference: `__search_procedure` (`src/linkedlist.c:176`). -/
def searchProcedure (fuel : Nat) (list : LinkedlistStructure) (h : Heap)
    (matchFn : VoidPtr → VoidPtr → Int) (args : VoidPtr) :
    Outcome (Int × Option Addr × Option Addr) :=
  searchLoop h matchFn args fuel none list.first

/-- The link updates of `__unlink_procedure_of_current` (`src/linkedlist.c:159`) on the
predecessor's side. -/
def unlinkPrev (list : LinkedlistStructure) (prev next : Option Addr) (h : Heap) :
    Outcome (LinkedlistStructure × Heap) := do
  match prev with
  | none => pure ({ list with first := next }, h)
  | some _ =>
    let h ← writeNext h prev next
    pure (list, h)

/-- The link updates of `__unlink_procedure_of_current` (`src/linkedlist.c:165`) on the successor's
side. -/
def unlinkNext (list : LinkedlistStructure) (prev next : Option Addr) (h : Heap) :
    Outcome (LinkedlistStructure × Heap) := do
  match next with
  | none => pure ({ list with last := prev }, h)
  | some _ =>
    let h ← writePrev h next prev
    pure (list, h)

/-- Reference: `__unlink_procedure_of_current` (`src/linkedlist.c:157`). Its result is `(int) data`,
the low 32 bits of the datum. -/
def unlinkProcedureOfCurrent (list : LinkedlistStructure) (prev current : Option Addr) (h : Heap) :
    Outcome (BitVec 32 × LinkedlistStructure × Heap) := do
  let c ← readNode h current
  let (list, h) ← unlinkPrev list prev c.next h
  let c' ← readNode h current
  let (list, h) ← unlinkNext list prev c'.next h
  let h ← freeNode h current
  pure (c.data.setWidth 32, { list with length := list.length - 1 }, h)

/-- What is left of a pointer that travels through an `int`: the low 32 bits, sign-extended when
the `int` is converted back. -/
def throughInt (d : VoidPtr) : VoidPtr := (d.setWidth 32).signExtend 64

/-- Reference: `linkedlist_pop_first_match_from_rear` (`src/linkedlist.c:129`). -/
def linkedlistPopFirstMatchFromRear (fuel : Nat) (list : LinkedlistStructure) (h : Heap)
    (matchFn : VoidPtr → VoidPtr → Int) (args : VoidPtr) :
    Outcome (VoidPtr × LinkedlistStructure × Heap) := do
  let (result, prev, current) ← searchProcedure fuel list h matchFn args
  if result = 0 then
    pure (NULL, list, h)
  else
    let (data, list, h) ← unlinkProcedureOfCurrent list prev current h
    pure (data.signExtend 64, list, h)

/-- Reference: `linkedlist_peek_first_match_from_rear` (`src/linkedlist.c:139`). -/
def linkedlistPeekFirstMatchFromRear (fuel : Nat) (list : LinkedlistStructure) (h : Heap)
    (matchFn : VoidPtr → VoidPtr → Int) (args : VoidPtr) : Outcome VoidPtr := do
  let (result, _, current) ← searchProcedure fuel list h matchFn args
  if result = 0 then
    pure NULL
  else
    let c ← readNode h current
    pure c.data

/-- The `while` loop of `node_iterator` (`src/linkedlist.c:151`) with at most `fuel` rounds.
`action` acts on a state `σ` outside the list. -/
def iteratorLoop {σ : Type _} (h : Heap) (action : VoidPtr → σ → σ) :
    Nat → Option Addr → σ → Outcome σ
  | 0, _, _ => throw .outOfFuel
  | _ + 1, none, s => pure s
  | fuel + 1, some a, s => do
    let c ← readNode h (some a)
    iteratorLoop h action fuel c.next (action c.data s)

/-- Reference: `node_iterator` (`src/linkedlist.c:149`). -/
def nodeIterator {σ : Type _} (fuel : Nat) (list : LinkedlistStructure) (h : Heap)
    (action : VoidPtr → σ → σ) (s : σ) : Outcome σ :=
  iteratorLoop h action fuel list.first s

end SeKernel.LinkedList
