/-
**The C queue of `sutils/VmQueue.cpp`.**

`MQUEUE` is the older sibling of `CQueue`: the same ring of items, but the sentinel is a block of
its own that `mqueue_init` allocates, and misuse is met with `assert` where `CQueue` looks the
other way.  A failed assertion and a null dereference are both `none`.

The items are those of `VModule/Queue.lean`, and `VModule.mqueuePush_eq` and
`VModule.mqueuePop_eq` say that on them the two queues do the same writes.  That is how the shape
of `VModule/QueueShape.lean` carries over.

Main definitions:

* `VModule.MHeap` — the memory, with the pointer `head` of each `MQUEUE`;
* `VModule.mqueueInit`, `VModule.mqueuePush`, `VModule.mqueuePop`, `VModule.mqueueGetlength`,
  `VModule.mqueueClear`, `VModule.mqueueFree`, `VModule.mqueueRemove` — the functions of the source;
* `VModule.cqueueFifo`, `VModule.mqueueFifo` — both queues as verified queue implementations.

Main results:

* `VModule.mqueue_simulates_cqueue` — **the two queues answer the same**.
-/

import VModule.Fifo
import VModule.QueueShape

set_option relaxedAutoImplicit false
set_option autoImplicit false

namespace VModule

open Function

variable {Q I : Type} [DecidableEq Q] [DecidableEq I]

/-! ### The functions of the source -/

/-- The memory of a family of `MQUEUE`s: the links and back pointers of the items and of the
allocated sentinels, the lengths, and the pointer `head` of each queue. -/
structure MHeap (Q I : Type) extends Heap Q I where
  head : Q → Option (Node Q I)

/-- Memory in which no queue has been initialised. -/
def MHeap.blank : MHeap Q I where
  next _ := none
  prev _ := none
  mQueue _ := none
  fLength _ := 0
  head _ := none

/-- `mqueue_init`: the sentinel allocated for `q` points at itself. -/
def mqueueInit (m : MHeap Q I) (q : Q) : MHeap Q I :=
  let h := m.toHeap.setNext (.head q) (some (.head q))
  let h := h.setPrev (.head q) (some (.head q))
  { toHeap := h.setLength q 0, head := update m.head q (some (.head q)) }

/-- `mqueue_push`, after its assertions. -/
def mqueuePush (m : MHeap Q I) (q : Q) (item : Option (Node Q I)) : Option (MHeap Q I) := do
  let head ← m.head q
  let item ← item
  if m.mQueue item ≠ none then none
  else do
    let last ← m.prev head
    let h := m.toHeap.setNext last (some item)
    let h := h.setPrev item (h.prev head)
    let h := h.setNext item (some head)
    let h := h.setPrev head (some item)
    let h := h.setMQueue item (some q)
    return { m with toHeap := h.setLength q (h.fLength q + 1) }

/-- `mqueue_pop`, with the pointer it returns. -/
def mqueuePop (m : MHeap Q I) (q : Q) : Option (MHeap Q I × Option (Node Q I)) :=
  if m.fLength q = 0 then some (m, none)
  else do
    let head ← m.head q
    let item ← m.next head
    let h := m.toHeap.setNext head (m.next item)
    let succ ← h.next item
    let h := h.setPrev succ (some head)
    let h := h.setMQueue item none
    return ({ m with toHeap := h.setLength q (h.fLength q - 1) }, some item)

/-- `mqueue_getlength`. -/
def mqueueGetlength (m : MHeap Q I) (q : Q) : Int := m.fLength q

/-- `mqueue_clear`. -/
def mqueueClear (m : MHeap Q I) (q : Q) : MHeap Q I :=
  match m.head q with
  | none => m
  | some head =>
      let h := m.toHeap.setNext head (some head)
      let h := h.setPrev head (some head)
      { m with toHeap := h.setLength q 0 }

/-- `mqueue_free`: the sentinel goes back to the allocator. -/
def mqueueFree (m : MHeap Q I) (q : Q) : MHeap Q I :=
  let m := mqueueClear m q
  match m.head q with
  | none => m
  | some _ => { m with head := update m.head q none }

/-- `mqueue_remove`, after its assertions.  The header does not declare it. -/
def mqueueRemove (m : MHeap Q I) (q : Q) (elem : Option (Node Q I)) : Option (MHeap Q I) := do
  let elem ← elem
  if m.mQueue elem = none then none
  else if m.head q = some elem then none
  else if m.mQueue elem ≠ some q then none
  else if m.fLength q = 1 then do
    let (m, _) ← mqueuePop m q
    let h := m.toHeap.setMQueue elem none
    return { m with toHeap := h.setLength q (h.fLength q - 1) }
  else some m

/-! ### The two queues do the same writes -/

variable {m : MHeap Q I} {q : Q}

/-- On an initialised queue and an item in no queue, `mqueue_push` is `CQueue::EnQueue`. -/
theorem mqueuePush_eq (hq : m.head q = some (.head q)) {item : Node Q I}
    (hi : m.mQueue item = none) :
    mqueuePush m q (some item) =
      (CQueue.enQueue m.toHeap q item).map fun h => { m with toHeap := h } := by
  cases hl : m.prev (.head q) with
  | none => simp [mqueuePush, CQueue.enQueue, hq, hi, hl]
  | some last => simp [mqueuePush, CQueue.enQueue, hq, hi, hl]

/-- On an initialised queue whose length is not negative, `mqueue_pop` is `CQueue::DeQueue`. -/
theorem mqueuePop_eq (hq : m.head q = some (.head q)) (hl : 0 ≤ m.fLength q) :
    mqueuePop m q =
      (CQueue.deQueue m.toHeap q).map fun p => ({ m with toHeap := p.1 }, p.2) := by
  by_cases h0 : m.fLength q = 0
  · simp [mqueuePop, CQueue.deQueue, h0]
  · have hpos : ¬ m.fLength q ≤ 0 := by omega
    cases hn : m.next (.head q) with
    | none => simp [mqueuePop, CQueue.deQueue, h0, hpos, hq, hn]
    | some item =>
        cases hs : (m.toHeap.setNext (.head q) (m.next item)).next item with
        | none => simp_all [mqueuePop, CQueue.deQueue]
        | some succ => simp_all [mqueuePop, CQueue.deQueue]

/-! ### One queue, as a verified implementation -/

/-- The item a non-null pointer returned by a queue refers to; a sentinel is no item of the
caller's. -/
def Node.toItem : Node Q I → Option I
  | .head _ => none
  | .item i => some i

/-- What a pop hands to the caller: the memory, and the item if the pointer is not null.  Handing
out the sentinel would be a failure. -/
def handOut {M : Type} : M × Option (Node Q I) → Option (M × Option I)
  | (m, none) => some (m, none)
  | (m, some n) => n.toItem.map fun i => (m, some i)

/-- `DeQueue`, from a heap of the right shape, for one queue or more. -/
theorem CQueue.deQueue_handOut {h : Heap Q I} {A : Q → List I} (hs : Shape h A) (q : Q) :
    ∃ h', (deQueue h q).bind handOut = some (h', (A q).head?) ∧
      Shape h' (update A q (A q).tail) := by
  cases hq : A q with
  | nil =>
      refine ⟨h, by simp [deQueue_of_nil hs hq, handOut], ?_⟩
      rw [List.tail_nil, ← hq, update_eq_self]
      exact hs
  | cons i L =>
      obtain ⟨h', hex, hs'⟩ := deQueue_spec hs hq
      exact ⟨h', by simp [hex, handOut, Node.toItem], hs'⟩

theorem update_unit {β : Type} (x y : β) : update (fun _ : Unit => x) () y = fun _ => y := by
  funext u
  cases u
  exact update_self ..

/-- One `CQueue<T>`. -/
def cqueueFifo (I : Type) [DecidableEq I] : Fifo I where
  Mem := Heap Unit I
  empty := Heap.init
  push h i := CQueue.enQueue h () (.item i)
  pop h := (CQueue.deQueue h ()).bind handOut
  length h := CQueue.getLength h ()
  Free h i := h.mQueue (.item i) = none
  Holds h L := Shape h fun _ => L
  holds_empty := shape_init
  holds_unique hL hM := (hL.represents ()).unique (hM.represents ())
  length_eq hL := (hL.represents ()).length
  free_iff hL i := by rw [hL.mQueue_eq_none_iff]; simp
  push_spec hL i hi := by
    obtain ⟨h', hex, hs⟩ := CQueue.enQueue_spec hL (fun _ => hi) ()
    rw [update_unit] at hs
    exact ⟨h', hex, hs⟩
  pop_spec hL := by
    obtain ⟨h', hex, hs⟩ := CQueue.deQueue_handOut hL ()
    rw [update_unit] at hs
    exact ⟨h', hex, hs⟩

/-- One `MQUEUE`, initialised by `mqueue_init`. -/
def mqueueFifo (I : Type) [DecidableEq I] : Fifo I where
  Mem := MHeap Unit I
  empty := mqueueInit MHeap.blank ()
  push m i := mqueuePush m () (some (.item i))
  pop m := (mqueuePop m ()).bind handOut
  length m := mqueueGetlength m ()
  Free m i := m.mQueue (.item i) = none
  Holds m L := m.head () = some (.head ()) ∧ Shape m.toHeap fun _ => L
  holds_empty := by
    refine ⟨rfl, fun _ => ⟨Ring.IsRing.nil rfl rfl, rfl, by simp [mqueueInit, MHeap.blank]⟩, ?_⟩
    intro _
    rfl
  holds_unique hL hM := (hL.2.represents ()).unique (hM.2.represents ())
  length_eq hL := (hL.2.represents ()).length
  free_iff hL i := by rw [hL.2.mQueue_eq_none_iff]; simp
  push_spec {m L} hL i hi := by
    obtain ⟨h', hex, hs⟩ := CQueue.enQueue_spec hL.2 (fun _ => hi) ()
    rw [update_unit] at hs
    refine ⟨{ m with toHeap := h' }, ?_, hL.1, hs⟩
    rw [mqueuePush_eq hL.1 (hL.2.mQueue_eq_none_iff.2 fun _ => hi), hex, Option.map_some]
  pop_spec {m L} hL := by
    obtain ⟨h', hex, hs⟩ := CQueue.deQueue_handOut hL.2 ()
    rw [update_unit] at hs
    have hlen := (hL.2.represents ()).length
    refine ⟨{ m with toHeap := h' }, ?_, hL.1, hs⟩
    obtain ⟨p, hp, hout⟩ := Option.bind_eq_some_iff.1 hex
    rw [mqueuePop_eq hL.1 (by omega), hp]
    -- handing out does not look at the memory
    obtain ⟨h₁, n⟩ := p
    cases n with
    | none => simp_all [handOut]
    | some n => cases n <;> simp_all [handOut, Node.toItem]

/-- **The C queue and the template queue are the same queue.**  In a sequence of pushes, pops and
length queries every item pushed is in no queue at that moment, for one of the two implementations.
Then it is so for both.  They return the same items and lengths, one by one, neither dereferences a
null pointer, fails an assertion or hands out a sentinel, and the pointers of both represent the
same list.  So the ones of the `MQUEUE` form one cycle through `head` of `fLength` distinct items,
`prev` is the inverse of `next` on it, and `mQueue` is the queue exactly for the items linked. -/
theorem mqueue_simulates_cqueue {I : Type} [DecidableEq I] (cs : List (Fifo.Request I))
    (hcs : (mqueueFifo I).Permits (mqueueInit MHeap.blank ()) cs ∨
      (cqueueFifo I).Permits Heap.init cs) :
    (mqueueFifo I).Permits (mqueueInit MHeap.blank ()) cs ∧ (cqueueFifo I).Permits Heap.init cs ∧
    ∃ (m : MHeap Unit I) (h : Heap Unit I) (answers : List (Fifo.Answer I)) (L : List I),
      (mqueueFifo I).run (mqueueInit MHeap.blank ()) cs = some (m, answers) ∧
      (cqueueFifo I).run Heap.init cs = some (h, answers) ∧
      Represents h () L ∧
      m.head () = some (.head ()) ∧ Represents m.toHeap () L ∧ L.Nodup ∧
      (∀ x ∈ ringNodes (fun _ => L) (), ∀ y ∈ ringNodes (fun _ => L) (),
        m.next x = some y ↔ m.prev y = some x) ∧
      ∀ i, m.mQueue (.item i) = if i ∈ L then some () else none := by
  have hpermits : (mqueueFifo I).Permits (mqueueInit MHeap.blank ()) cs := by
    rcases hcs with hcs | hcs
    · exact hcs
    · exact (Fifo.agree (cqueueFifo I) (mqueueFifo I) hcs).1
  obtain ⟨hc, m, h, answers, L, hm, hh, ⟨hhead, hmL⟩, hhL⟩ :=
    Fifo.agree (mqueueFifo I) (cqueueFifo I) hpermits
  have hrep := hmL.represents ()
  refine ⟨hpermits, hc, m, h, answers, L, hm, hh, hhL.represents (), hhead, hrep, hrep.nodup, ?_,
    fun i => ?_⟩
  · exact fun x hx y hy => hrep.ring.next_eq_iff hx hy
  · by_cases hi : i ∈ L
    · rw [if_pos hi]
      exact (hrep.member i).2 hi
    · rw [if_neg hi]
      exact hmL.mQueue_eq_none_iff.2 fun _ => hi

/-- Two pushes, a pop, and the popped item again. -/
theorem mqueue_simulates_cqueue_again :
    (cqueueFifo ℕ).Permits Heap.init [.push 0, .push 1, .pop, .push 0, .length] := by
  have hpermits := Fifo.permits_iff (cqueueFifo ℕ).holds_empty
  refine (mqueue_simulates_cqueue _ (.inr ((hpermits _).2 ?_))).2.1
  simp [Fifo.Fresh, Fifo.reply]

end VModule
