/-
**`CQueueIterator` of `include/sutils/Queue.hpp`.**

An iterator holds a queue and a pointer to the current item.  The items form a ring with the
sentinel of the queue, and the iterator stops where its item is the last one of the queue.  A
constructor may leave the pointer as it is, and such a pointer must not be looked at.

Main definitions:

* `VModule.CQueue.getHeadItem`, `VModule.CQueue.getTailItem` — the ends of a queue;
* `VModule.Cursor`, `VModule.CQueueIterator` — the pointer, and the iterator;
* `VModule.CQueueIterator.visit` — the loop that looks at each item.

Main results:

* `VModule.Represents.getHeadItem_eq`, `VModule.Represents.getTailItem_eq` — the ends of the list;
* `VModule.CQueueIterator.next_spec` — from one member to the next;
* `VModule.iterator_visits` — the loop looks at the members from the start on.
-/

import VModule.QueueShape

set_option relaxedAutoImplicit false
set_option autoImplicit false

namespace VModule

open Function

variable {Q I : Type} [DecidableEq Q] [DecidableEq I]

/-! ### The ends of a queue -/

namespace CQueue

/-- `CQueue::GetHeadItem`. -/
def getHeadItem (h : Heap Q I) (q : Q) : Option (Node Q I) :=
  if h.fLength q > 0 then h.next (.head q) else none

/-- `CQueue::GetTailItem`. -/
def getTailItem (h : Heap Q I) (q : Q) : Option (Node Q I) :=
  if h.fLength q > 0 then h.prev (.head q) else none

end CQueue

/-! ### The iterator -/

/-- What the member `fCurrentItem` holds. -/
inductive Cursor (Q I : Type)
  | uninitialized
  | pointer (p : Option (Node Q I))

structure CQueueIterator (Q I : Type) where
  mQueue : Q
  fCurrentItem : Cursor Q I

namespace CQueueIterator

/-- The constructor without a start. -/
def whole (h : Heap Q I) (queue : Q) : CQueueIterator Q I where
  mQueue := queue
  fCurrentItem := .pointer (CQueue.getHeadItem h queue)

/-- The constructor with a start, which returns early for an item that is not a member. -/
def startingAt (h : Heap Q I) (queue : Q) (startItem : Option (Node Q I)) :
    CQueueIterator Q I where
  mQueue := queue
  fCurrentItem :=
    match startItem with
    | none => .pointer none
    | some n => if h.mQueue n ≠ some queue then .uninitialized else .pointer (some n)

/-- `Reset`. -/
def reset (h : Heap Q I) (it : CQueueIterator Q I) : CQueueIterator Q I :=
  { it with fCurrentItem := .pointer (CQueue.getHeadItem h it.mQueue) }

/-- `GetCurrent`. -/
def getCurrent (it : CQueueIterator Q I) : Cursor Q I := it.fCurrentItem

/-- `IsDone`, which has no result for a pointer that holds nothing. -/
def isDone (it : CQueueIterator Q I) : Option Bool :=
  match it.fCurrentItem with
  | .uninitialized => none
  | .pointer p => some p.isNone

/-- `Next`, which has no result where it looks at no item. -/
def next (h : Heap Q I) (it : CQueueIterator Q I) : Option (CQueueIterator Q I) :=
  match it.fCurrentItem with
  | .uninitialized => none
  | .pointer p =>
      if p = CQueue.getTailItem h it.mQueue then some { it with fCurrentItem := .pointer none }
      else
        match p with
        | none => none
        | some n => some { it with fCurrentItem := .pointer (h.next n) }

/-- The loop that gets the current item and goes on until it is done. -/
def visit (h : Heap Q I) : ℕ → CQueueIterator Q I → Option (List (Cursor Q I))
  | 0, _ => none
  | fuel + 1, it =>
      match it.isDone with
      | none => none
      | some true => some []
      | some false => (it.next h).bind fun it' => (visit h fuel it').map (it.getCurrent :: ·)

end CQueueIterator

/-! ### What the pointers say -/

section

variable {h : Heap Q I} {q : Q} {L l m : List I} {i : I}

omit [DecidableEq Q] [DecidableEq I] in
theorem Represents.fLength_pos_iff (hr : Represents h q L) : h.fLength q > 0 ↔ L ≠ [] := by
  rw [hr.length, ← List.length_pos_iff]
  omega

omit [DecidableEq Q] [DecidableEq I] in
/-- The first item of the list. -/
theorem Represents.getHeadItem_eq (hr : Represents h q L) :
    CQueue.getHeadItem h q = L.head?.map .item := by
  rw [CQueue.getHeadItem]
  cases L with
  | nil => rw [if_neg fun hpos => hr.fLength_pos_iff.1 hpos rfl, List.head?_nil, Option.map_none]
  | cons i L =>
      rw [if_pos (hr.fLength_pos_iff.2 (List.cons_ne_nil i L)), hr.ring.next_sentinel]
      rfl

omit [DecidableEq Q] [DecidableEq I] in
/-- The last item of the list. -/
theorem Represents.getTailItem_eq (hr : Represents h q L) :
    CQueue.getTailItem h q = L.getLast?.map .item := by
  rw [CQueue.getTailItem]
  by_cases hL : L = []
  · rw [if_neg fun hpos => hr.fLength_pos_iff.1 hpos hL, hL, List.getLast?_nil, Option.map_none]
  · rw [if_pos (hr.fLength_pos_iff.2 hL), hr.ring.prev_sentinel, List.getLastD_eq_getLast?,
      List.getLast?_map, List.getLast?_eq_some_getLast hL]
    rfl

omit [DecidableEq Q] [DecidableEq I] in
/-- The link of a member. -/
theorem Represents.next_eq (hr : Represents h q (l ++ i :: m)) :
    h.next (.item i) = some ((m.head?.map .item).getD (.head q)) := by
  have hring := hr.ring
  rw [List.map_append, List.map_cons] at hring
  rw [hring.next_mid, List.headD_eq_head?_getD, List.head?_map]

omit [DecidableEq Q] [DecidableEq I] in
/-- A member is the last one where none comes after it. -/
theorem Represents.getTailItem_eq_iff (hr : Represents h q (l ++ i :: m)) :
    some (.item i) = CQueue.getTailItem h q ↔ m = [] := by
  rw [hr.getTailItem_eq]
  constructor
  · intro htail
    by_contra hm
    have hnd := hr.nodup
    rw [List.nodup_append, List.nodup_cons] at hnd
    have hlast : (l ++ i :: m).getLast? = m.getLast? := by
      rw [List.getLast?_append, List.getLast?_cons, List.getLast?_eq_some_getLast hm]
      rfl
    rw [hlast, List.getLast?_eq_some_getLast hm, Option.map_some, Option.some_inj] at htail
    rw [Node.item.inj htail] at hnd
    exact hnd.2.1.1 (List.getLast_mem hm)
  · rintro rfl
    rw [List.getLast?_concat, Option.map_some]

namespace CQueueIterator

/-- From one member to the next, or to the end. -/
theorem next_spec (hr : Represents h q (l ++ i :: m)) :
    next h ⟨q, .pointer (some (.item i))⟩ = some ⟨q, .pointer (m.head?.map .item)⟩ := by
  rw [next]
  dsimp only
  cases m with
  | nil => rw [if_pos (hr.getTailItem_eq_iff.2 rfl), List.head?_nil, Option.map_none]
  | cons j m =>
      have hno : ¬ some (.item i) = CQueue.getTailItem h q := fun htail =>
        absurd (hr.getTailItem_eq_iff.1 htail) (List.cons_ne_nil j m)
      rw [if_neg hno, hr.next_eq]
      rfl

/-- The loop looks at the items and ends. -/
def Visits (h : Heap Q I) (it : CQueueIterator Q I) (items : List I) : Prop :=
  ∃ fuel, visit h fuel it = some (items.map fun i => .pointer (some (.item i)))

/-- The loop looks at the members from the current one on. -/
theorem visits_suffix (hr : Represents h q (l ++ m)) :
    Visits h ⟨q, .pointer (m.head?.map .item)⟩ m := by
  induction m generalizing l with
  | nil => exact ⟨1, rfl⟩
  | cons i m ih =>
      obtain ⟨fuel, hrun⟩ := ih (l := l ++ [i]) (by rw [List.append_assoc]; exact hr)
      refine ⟨fuel + 1, ?_⟩
      rw [visit]
      dsimp only [isDone, List.head?_cons, Option.map_some, Option.isNone_some]
      rw [next_spec hr, Option.bind_some, hrun]
      rfl

end CQueueIterator

end

open CQueueIterator

/-- **The loop of an iterator looks at the members from its start on**, in the order of the queue
and each once, and ends: at all of them without a start or after `Reset`, at none for `NULL`, and at
those from the start item on.  What it looks at is always an item, never the sentinel. -/
theorem iterator_visits (cs : List (Call Q I)) :
    ∃ h rs, runCalls Heap.init cs = some (h, rs) ∧ ∀ q, ∃ L, Represents h q L ∧ L.Nodup ∧
      Visits h (whole h q) L ∧
      (∀ it : CQueueIterator Q I, it.mQueue = q → Visits h (it.reset h) L) ∧
      Visits h (startingAt h q none) [] ∧
      ∀ l i m, L = l ++ i :: m → Visits h (startingAt h q (some (.item i))) (i :: m) := by
  obtain ⟨h, hrun, hiff⟩ := runCalls_refines cs
  refine ⟨h, _, hrun, fun q => ?_⟩
  have hr := (hiff q _).2 rfl
  have hall : Visits h (whole h q) ((effects (fun _ => []) cs).1 q) := by
    rw [whole, hr.getHeadItem_eq]
    exact visits_suffix (l := []) hr
  refine ⟨_, hr, hr.nodup, hall, ?_, ⟨1, rfl⟩, ?_⟩
  · rintro ⟨_, cursor⟩ rfl
    exact hall
  · intro l i m hL
    rw [hL] at hr
    have hmember : h.mQueue (.item i) = some q :=
      (hr.member i).2 (List.mem_append_right l List.mem_cons_self)
    have hstart : startingAt h q (some (.item i)) = ⟨q, .pointer (some (.item i))⟩ := by
      rw [startingAt, if_neg fun hno => hno hmember]
    rw [hstart]
    exact visits_suffix hr

end VModule
