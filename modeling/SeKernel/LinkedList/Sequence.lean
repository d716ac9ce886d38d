import Mathlib.Data.List.Basic

/-!
# The linked list as a sequence

What the list operations are for: each of them on the sequence of the stored data. The heap
version simulates these (`SeKernel.LinkedList.Refinement`), so the components that only use the
list through its operations (run queues, free list, loader) are modelled over them.
-/

namespace SeKernel.Seq

variable {α : Type _}

/-- `linkedlist_push` appends at the end. -/
def linkedlistPush (xs : List α) (x : α) : List α := xs ++ [x]

/-- `linkedlist_pop` takes the last element, `none` for `NULL`. -/
def linkedlistPop (xs : List α) : Option α × List α := (xs.getLast?, xs.dropLast)

/-- `linkedlist_peek` reads the last element. -/
def linkedlistPeek (xs : List α) : Option α := xs.getLast?

/-- `linkedlist_get_first`, declared and not defined: the data of the first node. -/
def linkedlistGetFirst (xs : List α) : Option α := xs.head?

/-- `linkedlist_peek_first_match_from_rear` reads the first match counted from `first`. -/
def linkedlistPeekFirstMatchFromRear (xs : List α) (p : α → Bool) : Option α := xs.find? p

/-- `linkedlist_pop_first_match_from_rear` removes the first match counted from `first`. -/
def linkedlistPopFirstMatchFromRear (xs : List α) (p : α → Bool) : Option α × List α :=
  (xs.find? p, xs.eraseP p)

end SeKernel.Seq
