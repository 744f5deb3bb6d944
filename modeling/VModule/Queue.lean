/-
**The intrusive queues of `include/sutils/Queue.hpp`.**

`CQueue<T>` is a cyclic doubly linked list around a sentinel `fHead` that is a member of the queue
object; the items carry the links themselves, with a back pointer `mQueue` to the queue they are
in.  This module embeds the four operations on a heap that holds any number of queues and items,
write by write and in the order of the source, so that stale links left in removed items are part
of the state.  Dereferencing a null pointer is `none`.

The payload `Object` of an item is read and written by no queue operation and is left out.
`fLength` is an `int` in the source and an integer here; `VModule.Shape.fLength_le` in
`VModule/QueueShape.lean` bounds it by the number of items, so with fewer than `2 ^ 31` items the
two agree.

Main definitions:

* `VModule.Node`, `VModule.Heap` — the addresses of sentinels and items, and the memory;
* `VModule.CQueue.enQueue`, `VModule.CQueue.deQueue`, `VModule.CQueue.remove`,
  `VModule.CQueueItem.remove` — the operations;
* `VModule.CQueue.destroy`, `VModule.CQueueItem.destroy` — the destructors;
* `VModule.Call`, `VModule.runCalls` — calls on a family of queues and items, and sequences of
  them.
-/

import Mathlib.Logic.Function.Basic
import Mathlib.Tactic.Simps.Basic

set_option relaxedAutoImplicit false
set_option autoImplicit false

namespace VModule

open Function

/-! ### Addresses and memory -/

/-- The address of a `CQueueItem`: the sentinel `fHead` of a queue, or an item proper. -/
inductive Node (Q I : Type) where
  | head (q : Q)
  | item (i : I)
  deriving DecidableEq

/-- The members of all queues and items.  A null pointer is `none`. -/
structure Heap (Q I : Type) where
  next : Node Q I → Option (Node Q I)
  prev : Node Q I → Option (Node Q I)
  mQueue : Node Q I → Option Q
  fLength : Q → Int

namespace Heap

variable {Q I : Type} [DecidableEq Q] [DecidableEq I]

/-- The write `a->next = v`. -/
@[simps -fullyApplied]
def setNext (h : Heap Q I) (a : Node Q I) (v : Option (Node Q I)) : Heap Q I :=
  { h with next := update h.next a v }

/-- The write `a->prev = v`. -/
@[simps -fullyApplied]
def setPrev (h : Heap Q I) (a : Node Q I) (v : Option (Node Q I)) : Heap Q I :=
  { h with prev := update h.prev a v }

/-- The write `a->mQueue = v`. -/
@[simps -fullyApplied] def setMQueue (h : Heap Q I) (a : Node Q I) (v : Option Q) : Heap Q I :=
  { h with mQueue := update h.mQueue a v }

/-- The write `q->fLength = n`. -/
@[simps -fullyApplied] def setLength (h : Heap Q I) (q : Q) (n : Int) : Heap Q I :=
  { h with fLength := update h.fLength q n }

/-- The memory after the constructors have run: every sentinel points at itself, every item has
null links and is in no queue. -/
@[simps -fullyApplied] def init : Heap Q I where
  next
    | .head q => some (.head q)
    | .item _ => none
  prev
    | .head q => some (.head q)
    | .item _ => none
  mQueue _ := none
  fLength _ := 0

end Heap

/-! ### The operations of `CQueue` -/

namespace CQueue

variable {Q I : Type} [DecidableEq Q] [DecidableEq I]

/-- `CQueue::EnQueue`: an item that is in some queue is left alone. -/
def enQueue (h : Heap Q I) (q : Q) (item : Node Q I) : Option (Heap Q I) :=
  if h.mQueue item ≠ none then some h
  else do
    let last ← h.prev (.head q)
    let h := h.setNext last (some item)
    let h := h.setPrev item (h.prev (.head q))
    let h := h.setNext item (some (.head q))
    let h := h.setPrev (.head q) (some item)
    let h := h.setMQueue item (some q)
    return h.setLength q (h.fLength q + 1)

/-- `CQueue::DeQueue`, with the pointer it returns. -/
def deQueue (h : Heap Q I) (q : Q) : Option (Heap Q I × Option (Node Q I)) :=
  if h.fLength q ≤ 0 then some (h, none)
  else do
    let item ← h.next (.head q)
    let h := h.setNext (.head q) (h.next item)
    let succ ← h.next item
    let h := h.setPrev succ (some (.head q))
    let h := h.setMQueue item none
    return (h.setLength q (h.fLength q - 1), some item)

/-- `CQueue::Remove`: null, the sentinel and items that are not in this queue are left alone. -/
def remove (h : Heap Q I) (q : Q) (item : Option (Node Q I)) : Option (Heap Q I) :=
  match item with
  | none => some h
  | some item =>
      if item = .head q then some h
      else if h.mQueue item ≠ some q then some h
      else do
        let pred ← h.prev item
        let h := h.setNext pred (h.next item)
        let succ ← h.next item
        let h := h.setPrev succ (h.prev item)
        let h := h.setMQueue item none
        return h.setLength q (h.fLength q - 1)

/-- `CQueue::GetLength`. -/
def getLength (h : Heap Q I) (q : Q) : Int := h.fLength q

end CQueue

namespace CQueueItem

variable {Q I : Type} [DecidableEq Q] [DecidableEq I]

/-- `CQueueItem::Remove`: the item asks the queue it is in, if any. -/
def remove (h : Heap Q I) (item : Node Q I) : Option (Heap Q I) :=
  match h.mQueue item with
  | none => some h
  | some q => CQueue.remove h q (some item)

/-- `CQueueItem::~CQueueItem`: nothing but its assertion. -/
def destroy (h : Heap Q I) (item : Node Q I) : Option (Heap Q I) :=
  if h.mQueue item = none then some h else none

end CQueueItem

/-- `CQueue::~CQueue`: the body is empty, and the member `fHead` is destroyed. -/
def CQueue.destroy {Q I : Type} (h : Heap Q I) (q : Q) : Option (Heap Q I) :=
  CQueueItem.destroy h (.head q)

/-! ### Sequences of calls -/

/-- A call of one of the operations.  `EnQueue` is given a real item; `Remove` may be given
anything. -/
inductive Call (Q I : Type) where
  | enQueue (q : Q) (i : I)
  | deQueue (q : Q)
  | remove (q : Q) (item : Option (Node Q I))
  | itemRemove (item : Node Q I)

section

variable {Q I : Type} [DecidableEq Q] [DecidableEq I]

/-- The effect of one call on the memory and the pointer it returns (null for `void`). -/
def Call.exec (h : Heap Q I) : Call Q I → Option (Heap Q I × Option (Node Q I))
  | .enQueue q i => (CQueue.enQueue h q (.item i)).map (·, none)
  | .deQueue q => CQueue.deQueue h q
  | .remove q item => (CQueue.remove h q item).map (·, none)
  | .itemRemove item => (CQueueItem.remove h item).map (·, none)

/-- A sequence of calls, with the pointers they return. -/
def runCalls (h : Heap Q I) : List (Call Q I) → Option (Heap Q I × List (Option (Node Q I)))
  | [] => some (h, [])
  | c :: cs => do
      let (h, r) ← c.exec h
      let (h, rs) ← runCalls h cs
      return (h, r :: rs)

end

end VModule
