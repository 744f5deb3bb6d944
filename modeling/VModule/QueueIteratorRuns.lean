/-
**Iterators of `include/sutils/Queue.hpp` while the queues change.**

`VModule/QueueIterator.lean` is about an iterator whose queue stays as it is.  Here the calls on
the queues and on the iterator come in any order.  An item that is taken out keeps its link, and
where it was the last one this link goes to the sentinel of the queue; `Next` does not see that.

Main definitions:

* `VModule.Iteration` — the queues, an iterator, and which items were last when they were taken out;
* `VModule.Iteration.machine` — the calls in any order, whose state is `none` after a call that has
  no result;
* `VModule.Iteration.Sound` — the iterator holds `NULL` or an item;
* `VModule.Iteration.Careful` — what a caller must see to;
* `VModule.CQueueIterator.drain` — the loop that removes each current item.

Main results:

* `VModule.Call.next_eq_of_exec` — an item that a call leaves in no queue keeps its link;
* `VModule.Iteration.Links.atEnd_iff` — which links go to a sentinel;
* `VModule.CQueueIterator.drain_eq_none` — the loop that removes does not end;
* `VModule.sound_iff_careful` — the runs in which the iterator is sound.
-/

import VModule.Machine
import VModule.QueueIterator

set_option relaxedAutoImplicit false
set_option autoImplicit false

namespace VModule

open Function

variable {Q I : Type} [DecidableEq Q] [DecidableEq I]

/-! ### The links of items in no queue -/

section

variable {h h' : Heap Q I} {A : Q → List I} {q : Q} {i : I}

omit [DecidableEq Q] [DecidableEq I] in
/-- What stands before the sentinel is the sentinel or a member. -/
theorem Shape.member_of_prev_head (hs : Shape h A) {pred : Node Q I}
    (hpred : h.prev (.head q) = some pred) : pred = .head q ∨ h.mQueue pred = some q := by
  have hmem := Ring.getLastD_mem (Node.head q) ((A q).map Node.item)
  rw [(hs.represents q).ring.prev_sentinel, Option.some_inj] at hpred
  rw [hpred, List.mem_cons, List.mem_map] at hmem
  obtain rfl | ⟨i, hi, rfl⟩ := hmem
  · exact .inl rfl
  · exact .inr (hs.mQueue_eq_iff.2 hi)

omit [DecidableEq Q] [DecidableEq I] in
/-- What stands before a member is the sentinel or another member. -/
theorem Shape.member_of_prev_item (hs : Shape h A) (hi : i ∈ A q) {pred : Node Q I}
    (hpred : h.prev (.item i) = some pred) :
    pred = .head q ∨ pred ≠ .item i ∧ h.mQueue pred = some q := by
  obtain ⟨l, m, hA⟩ := List.append_of_mem hi
  have hring := (hs.represents q).ring
  rw [hA, List.map_append, List.map_cons] at hring
  have hmem := Ring.getLastD_mem (Node.head q) (l.map Node.item)
  rw [hring.prev_mid, Option.some_inj] at hpred
  rw [hpred, List.mem_cons, List.mem_map] at hmem
  obtain rfl | ⟨j, hj, rfl⟩ := hmem
  · exact .inl rfl
  · have hnd : (l ++ i :: m).Nodup := hA ▸ (hs.represents q).nodup
    have hji : j ≠ i := (List.nodup_append.1 hnd).2.2 j hj i List.mem_cons_self
    refine .inr ⟨fun he => hji (Node.item.inj he), hs.mQueue_eq_iff.2 ?_⟩
    rw [hA]
    exact List.mem_append_left _ hj

/-- `EnQueue` links the item and the one before it, which are both in a queue then. -/
theorem CQueue.next_eq_of_enQueue (hs : Shape h A) {j : I}
    (hex : enQueue h q (.item j) = some h') (hi : h'.mQueue (.item i) = none) :
    h'.next (.item i) = h.next (.item i) := by
  rw [enQueue] at hex
  split at hex
  · rw [← Option.some_inj.1 hex]
  · obtain ⟨last, hlast⟩ : ∃ last, h.prev (.head q) = some last :=
      ⟨_, (hs.represents q).ring.prev_sentinel⟩
    simp only [hlast, Option.bind_eq_bind, Option.bind_some, Option.pure_def,
      Option.some_inj] at hex
    subst hex
    simp only [Heap.setLength_mQueue, Heap.setMQueue_mQueue, Heap.setPrev_mQueue,
      Heap.setNext_mQueue] at hi
    have hij : (.item i : Node Q I) ≠ .item j := by
      intro he
      rw [he, update_self] at hi
      exact absurd hi (Option.some_ne_none q)
    rw [update_of_ne hij] at hi
    have hil : .item i ≠ last := by
      rintro rfl
      obtain he | hm := hs.member_of_prev_head hlast
      · exact absurd he (by simp)
      · rw [hm] at hi
        exact absurd hi (Option.some_ne_none q)
    simp [update_of_ne hij, update_of_ne hil]

/-- `DeQueue` writes the link of the sentinel only. -/
theorem CQueue.next_eq_of_deQueue {r : Option (Node Q I)} (hex : deQueue h q = some (h', r)) :
    h'.next (.item i) = h.next (.item i) := by
  rw [deQueue] at hex
  split at hex
  · rw [(Prod.mk.inj (Option.some_inj.1 hex)).1]
  · simp only [Option.bind_eq_bind, Option.bind_eq_some_iff, Option.pure_def, Option.some_inj,
      Prod.mk.injEq] at hex
    obtain ⟨first, -, succ, -, rfl, -⟩ := hex
    simp

/-- `Remove` writes the link of the node before the item, which stays in its queue. -/
theorem CQueue.next_eq_of_remove (hs : Shape h A) {n : Option (Node Q I)}
    (hex : remove h q n = some h') (hi : h'.mQueue (.item i) = none) :
    h'.next (.item i) = h.next (.item i) := by
  by_cases hn : ∃ j ∈ A q, n = some (.item j)
  · obtain ⟨j, hj, rfl⟩ := hn
    rw [remove, if_neg (by simp), if_neg (not_not_intro (hs.mQueue_eq_iff.2 hj))] at hex
    simp only [Option.bind_eq_bind, Option.bind_eq_some_iff, Option.pure_def,
      Option.some_inj] at hex
    obtain ⟨pred, hpred, succ, -, rfl⟩ := hex
    simp only [Heap.setLength_mQueue, Heap.setMQueue_mQueue, Heap.setPrev_mQueue,
      Heap.setNext_mQueue] at hi
    have hip : .item i ≠ pred := by
      rintro rfl
      obtain he | ⟨hij, hm⟩ := hs.member_of_prev_item hj hpred
      · exact absurd he (by simp)
      · rw [update_of_ne hij, hm] at hi
        exact absurd hi (Option.some_ne_none q)
    simp [update_of_ne hip]
  · have hsame := CQueue.remove_of_not_mem hs fun j hj he => hn ⟨j, hj, he⟩
    rw [hsame, Option.some_inj] at hex
    rw [hex]

/-- **An item that a call leaves in no queue keeps its link.** -/
theorem Call.next_eq_of_exec (hs : Shape h A) {c : Call Q I} {r : Option (Node Q I)}
    (hex : c.exec h = some (h', r)) (hi : h'.mQueue (.item i) = none) :
    h'.next (.item i) = h.next (.item i) := by
  cases c with
  | enQueue q j =>
      obtain ⟨h₁, hq, he⟩ := Option.map_eq_some_iff.1 hex
      obtain rfl := (Prod.mk.inj he).1
      exact CQueue.next_eq_of_enQueue hs hq hi
  | deQueue q => exact CQueue.next_eq_of_deQueue hex
  | remove q n =>
      obtain ⟨h₁, hq, he⟩ := Option.map_eq_some_iff.1 hex
      obtain rfl := (Prod.mk.inj he).1
      exact CQueue.next_eq_of_remove hs hq hi
  | itemRemove n =>
      obtain ⟨h₁, hq, he⟩ := Option.map_eq_some_iff.1 hex
      obtain rfl := (Prod.mk.inj he).1
      rw [CQueueItem.remove] at hq
      cases hm : h.mQueue n with
      | none =>
          simp only [hm] at hq
          rw [Option.some_inj.1 hq]
      | some q =>
          simp only [hm] at hq
          exact CQueue.next_eq_of_remove hs hq hi

end

/-! ### Calls in any order -/

/-- The cursor holds `NULL` or an item. -/
def Cursor.NullOrItem : Cursor Q I → Prop
  | .uninitialized => False
  | .pointer none => True
  | .pointer (some (.head _)) => False
  | .pointer (some (.item _)) => True

/-- The queues and the iterator, once one is built.  Nothing in the program stores `leftLast`: it
says of an item in no queue whether it was the last one when it was taken out. -/
structure Iteration (Q I : Type) where
  heap : Heap Q I
  iter : Option (CQueueIterator Q I)
  leftLast : I → Prop

namespace Iteration

/-- The item is the last of a queue. -/
def IsLast (h : Heap Q I) (i : I) : Prop := ∃ q, CQueue.getTailItem h q = some (.item i)

/-- The item is the last of a queue, or it is in none and was the last when it was taken out. -/
def AtEnd (w : Iteration Q I) (i : I) : Prop :=
  IsLast w.heap i ∨ w.heap.mQueue (.item i) = none ∧ w.leftLast i

/-- A call on the queues, a constructor of the iterator, or a call on the iterator. -/
inductive Action (Q I : Type)
  | call (c : Call Q I)
  | whole (queue : Q)
  | startingAt (queue : Q) (startItem : Option I)
  | reset
  | getCurrent
  | isDone
  | next

/-- The calls on the iterator need one. -/
def Action.Possible (w : Iteration Q I) : Action Q I → Prop
  | .call _ | .whole _ | .startingAt _ _ => True
  | .reset | .getCurrent | .isDone | .next => w.iter ≠ none

/-- What an action does. -/
def exec (w : Iteration Q I) : Action Q I → Option (Iteration Q I)
  | .call c => (c.exec w.heap).map fun p => { w with heap := p.1, leftLast := w.AtEnd }
  | .whole q => some { w with iter := some (.whole w.heap q) }
  | .startingAt q i => some { w with iter := some (.startingAt w.heap q (i.map .item)) }
  | .reset => some { w with iter := w.iter.map (·.reset w.heap) }
  | .getCurrent => some w
  | .isDone => (w.iter.bind (·.isDone)).map fun _ => w
  | .next => (w.iter.bind (·.next w.heap)).map fun it => { w with iter := some it }

/-- After the constructors of the queues and items. -/
def start : Iteration Q I := ⟨Heap.init, none, fun _ => False⟩

/-- The actions in any order; the state is `none` after one that has no result. -/
def machine (Q I : Type) [DecidableEq Q] [DecidableEq I] :
    Machine (Option (Iteration Q I)) (Action Q I) where
  init s := s = some start
  step s a s' := ∃ w, s = some w ∧ a.Possible w ∧ s' = w.exec a

/-- Every action had a result, and `GetCurrent` returns `NULL` or an item. -/
def Sound : Option (Iteration Q I) → Prop
  | none => False
  | some w => ∀ it, w.iter = some it → it.getCurrent.NullOrItem

/-- `Next` from `NULL` needs an empty queue, and `Next` from an item needs one that is the last of
the queue of the iterator or is not at the end of any. -/
def MayMove (w : Iteration Q I) (it : CQueueIterator Q I) : Prop :=
  match it.fCurrentItem with
  | .pointer none => w.heap.fLength it.mQueue ≤ 0
  | .pointer (some (.item i)) =>
      some (.item i) = CQueue.getTailItem w.heap it.mQueue ∨ ¬ w.AtEnd i
  | _ => True

/-- What a caller must see to: that a start is a member, and where `Next` is called. -/
def Careful : Option (Iteration Q I) → Action Q I → Prop
  | some w, .startingAt q (some i) => w.heap.mQueue (.item i) = some q
  | some w, .next => ∀ it, w.iter = some it → w.MayMove it
  | _, _ => True

/-! ### Which links go to a sentinel -/

/-- The queues have their shape, and `leftLast` says which links of items in no queue go to a
sentinel. -/
structure Links (w : Iteration Q I) (A : Q → List I) : Prop where
  shape : Shape w.heap A
  left : ∀ i, w.heap.mQueue (.item i) = none →
    (w.leftLast i ↔ ∃ r, w.heap.next (.item i) = some (.head r))

variable {w : Iteration Q I} {A : Q → List I} {i : I}

omit [DecidableEq Q] [DecidableEq I] in
theorem mem_of_isLast {h : Heap Q I} {q : Q} (hs : Shape h A)
    (hlast : CQueue.getTailItem h q = some (.item i)) : i ∈ A q := by
  rw [(hs.represents q).getTailItem_eq] at hlast
  obtain ⟨j, hj, he⟩ := Option.map_eq_some_iff.1 hlast
  rw [← Node.item.inj he]
  exact List.mem_of_getLast? hj

omit [DecidableEq Q] [DecidableEq I] in
/-- **The link of an item goes to a sentinel if and only if the item is at the end.** -/
theorem Links.atEnd_iff (hl : Links w A) :
    w.AtEnd i ↔ ∃ r, w.heap.next (.item i) = some (.head r) := by
  cases hm : w.heap.mQueue (.item i) with
  | none =>
      rw [← hl.left i hm]
      constructor
      · rintro (⟨q, hlast⟩ | ⟨-, hleft⟩)
        · rw [hl.shape.mQueue_eq_iff.2 (mem_of_isLast hl.shape hlast)] at hm
          exact absurd hm (Option.some_ne_none q)
        · exact hleft
      · exact fun hleft => .inr ⟨hm, hleft⟩
  | some q =>
      have hi := hl.shape.mQueue_eq_iff.1 hm
      obtain ⟨l, m, hA⟩ := List.append_of_mem hi
      have hr := hA ▸ hl.shape.represents q
      rw [hr.next_eq]
      constructor
      · rintro (⟨r, hlast⟩ | ⟨hnone, -⟩)
        · obtain rfl := hl.shape.eq_of_mem (mem_of_isLast hl.shape hlast) hi
          rw [hr.getTailItem_eq_iff.1 hlast.symm]
          exact ⟨r, rfl⟩
        · rw [hm] at hnone
          exact absurd hnone (Option.some_ne_none q)
      · rintro ⟨r, hhead⟩
        cases m with
        | nil => exact .inl ⟨q, (hr.getTailItem_eq_iff.2 rfl).symm⟩
        | cons j m => exact absurd hhead (by simp)

/-- A call keeps what the links say. -/
theorem Links.call (hl : Links w A) (c : Call Q I) :
    ∃ w' A', w.exec (.call c) = some w' ∧ w'.iter = w.iter ∧ Links w' A' := by
  obtain ⟨h', hex, hs⟩ := c.exec_spec hl.shape
  refine ⟨{ w with heap := h', leftLast := w.AtEnd }, _, by rw [exec, hex]; rfl, rfl, hs, ?_⟩
  intro i hi
  rw [Call.next_eq_of_exec hl.shape hex hi]
  exact hl.atEnd_iff

/-- Every action keeps what the links say. -/
theorem Links.of_exec (hl : Links w A) {a : Action Q I} {w' : Iteration Q I}
    (hex : w.exec a = some w') : ∃ A', Links w' A' := by
  cases a with
  | call c =>
      obtain ⟨w₁, A', hex', -, hl'⟩ := hl.call c
      rw [hex', Option.some_inj] at hex
      exact ⟨A', hex ▸ hl'⟩
  | isDone =>
      obtain ⟨-, -, rfl⟩ := Option.map_eq_some_iff.1 hex
      exact ⟨A, hl⟩
  | next =>
      obtain ⟨it, -, rfl⟩ := Option.map_eq_some_iff.1 hex
      exact ⟨A, hl.shape, hl.left⟩
  | whole | startingAt | reset | getCurrent =>
      obtain rfl := Option.some_inj.1 hex
      exact ⟨A, hl.shape, hl.left⟩

/-- What the links say holds in every state that is reached. -/
theorem links_invariant :
    (machine Q I).Invariant fun s => ∀ w, s = some w → ∃ A, Links w A where
  init := by
    rintro _ rfl w hw
    obtain rfl := Option.some_inj.1 hw
    refine ⟨fun _ => [], shape_init, fun i _ => ⟨False.elim, ?_⟩⟩
    rintro ⟨r, hnext⟩
    exact absurd hnext (by simp [start])
  step := by
    rintro _ a s' hI ⟨w, rfl, -, hs'⟩ w' hw'
    obtain ⟨A, hl⟩ := hI w rfl
    exact hl.of_exec (hs'.symm.trans hw')

/-! ### One action -/

omit [DecidableEq Q] [DecidableEq I] in
/-- The head item of a queue is an item. -/
theorem Links.getHeadItem_nullOrItem (hl : Links w A) (q : Q) :
    (Cursor.pointer (CQueue.getHeadItem w.heap q)).NullOrItem := by
  rw [(hl.shape.represents q).getHeadItem_eq]
  cases (A q).head? with
  | none => exact trivial
  | some i => exact trivial

/-- `Next` does its work if and only if it may be called. -/
theorem Links.next_iff (hl : Links w A) {it : CQueueIterator Q I} (hit : it.getCurrent.NullOrItem) :
    w.MayMove it ↔ ∃ it', it.next w.heap = some it' ∧ it'.getCurrent.NullOrItem := by
  obtain ⟨q, _ | _ | _ | i⟩ := it
  · exact hit.elim
  · rw [CQueueIterator.next, MayMove]
    dsimp only
    by_cases hpos : w.heap.fLength q > 0
    · have htail : CQueue.getTailItem w.heap q ≠ none := by
        rw [CQueue.getTailItem, if_pos hpos, (hl.shape.represents q).ring.prev_sentinel]
        exact Option.some_ne_none _
      rw [if_neg htail.symm]
      exact iff_of_false (by omega) (by simp)
    · have htail : CQueue.getTailItem w.heap q = none := if_neg hpos
      rw [if_pos htail.symm]
      exact iff_of_true (by omega) ⟨_, rfl, trivial⟩
  · exact hit.elim
  · rw [CQueueIterator.next, MayMove]
    dsimp only
    by_cases htail : some (.item i) = CQueue.getTailItem w.heap q
    · rw [if_pos htail]
      exact iff_of_true (.inl htail) ⟨_, rfl, trivial⟩
    · rw [if_neg htail, hl.atEnd_iff, or_iff_right htail]
      constructor
      · intro hno
        refine ⟨_, rfl, ?_⟩
        rw [CQueueIterator.getCurrent]
        rcases hnext : w.heap.next (.item i) with _ | r | j
        · exact trivial
        · exact hno ⟨r, hnext⟩
        · exact trivial
      · rintro ⟨it', hit', hsound⟩ ⟨r, hnext⟩
        rw [← Option.some_inj.1 hit', CQueueIterator.getCurrent, hnext] at hsound
        exact hsound

omit [DecidableEq I] in
/-- The constructor with a start sets the pointer if and only if the start is a member. -/
theorem startingAt_nullOrItem_iff (h : Heap Q I) (q : Q) (i : Option I) :
    (CQueueIterator.startingAt h q (i.map .item)).getCurrent.NullOrItem ↔
      ∀ j, i = some j → h.mQueue (.item j) = some q := by
  rw [CQueueIterator.getCurrent]
  cases i with
  | none => exact iff_of_true trivial fun _ hj => absurd hj.symm (Option.some_ne_none _)
  | some j =>
      dsimp only [CQueueIterator.startingAt, Option.map_some]
      by_cases hm : h.mQueue (.item j) = some q
      · rw [if_neg (not_not_intro hm)]
        refine iff_of_true trivial fun k hk => ?_
        rw [← Option.some_inj.1 hk]
        exact hm
      · rw [if_pos hm]
        exact iff_of_false not_false fun hall => hm (hall j rfl)

/-- A careful action keeps the iterator sound. -/
theorem Links.sound_exec (hl : Links w A) (hw : Sound (some w)) {a : Action Q I}
    (hpossible : a.Possible w) (ha : Careful (some w) a) : Sound (w.exec a) := by
  cases a with
  | call c =>
      obtain ⟨w', _, hex, hiter, -⟩ := hl.call c
      rw [hex]
      intro it hit
      rw [hiter] at hit
      exact hw it hit
  | whole q =>
      rintro _ ⟨⟩
      exact hl.getHeadItem_nullOrItem q
  | startingAt q i =>
      rintro _ ⟨⟩
      rw [startingAt_nullOrItem_iff]
      rintro j rfl
      exact ha
  | reset =>
      intro it hit
      obtain ⟨it₀, -, rfl⟩ := Option.map_eq_some_iff.1 hit
      exact hl.getHeadItem_nullOrItem it₀.mQueue
  | getCurrent => exact hw
  | isDone =>
      obtain ⟨it, hit⟩ := Option.ne_none_iff_exists'.1 hpossible
      have hsound := hw it hit
      rw [exec, hit]
      obtain ⟨q, _ | p⟩ := it
      · exact hsound.elim
      · exact hw
  | next =>
      obtain ⟨it, hit⟩ := Option.ne_none_iff_exists'.1 hpossible
      obtain ⟨it', hnext, hsound⟩ := (hl.next_iff (hw it hit)).1 (ha it hit)
      rw [exec, hit, Option.bind_some, hnext]
      rintro _ ⟨⟩
      exact hsound

omit [DecidableEq Q] [DecidableEq I] in
/-- Only from `NULL` and from items there is something to see to. -/
theorem nullOrItem_of_not_mayMove {it : CQueueIterator Q I} (hno : ¬ w.MayMove it) :
    it.getCurrent.NullOrItem := by
  obtain ⟨q, _ | _ | _ | i⟩ := it
  · exact hno trivial
  · exact trivial
  · exact hno trivial
  · exact trivial

/-- An action that is not careful leaves the iterator unsound. -/
theorem Links.not_sound_exec (hl : Links w A) {a : Action Q I} (ha : ¬ Careful (some w) a) :
    ¬ Sound (w.exec a) := by
  intro hsound
  match a with
  | .startingAt q (some i) =>
      exact ha ((startingAt_nullOrItem_iff w.heap q (some i)).1 (hsound _ rfl) i rfl)
  | .next =>
      refine ha fun it hit => ?_
      by_contra hno
      refine hno ((hl.next_iff (nullOrItem_of_not_mayMove hno)).2 ?_)
      rw [exec, hit, Option.bind_some] at hsound
      cases hnext : it.next w.heap with
      | none => rw [hnext] at hsound; exact hsound.elim
      | some it' => rw [hnext] at hsound; exact ⟨it', rfl, hsound it' rfl⟩
  | .startingAt q none | .call _ | .whole _ | .reset | .getCurrent | .isDone =>
      exact ha trivial

end Iteration

/-! ### The loop that removes -/

namespace CQueueIterator

/-- The loop that removes each current item before it calls `Next`. -/
def drain : ℕ → Heap Q I → CQueueIterator Q I → Option (List (Cursor Q I))
  | 0, _, _ => none
  | fuel + 1, h, it =>
      match it.isDone with
      | none => none
      | some true => some []
      | some false =>
          match it.getCurrent with
          | .uninitialized => none
          | .pointer p =>
              (CQueue.remove h it.mQueue p).bind fun h' =>
                (it.next h').bind fun it' => (drain fuel h' it').map (.pointer p :: ·)

/-- The loop visits the items and ends. -/
def Drains (h : Heap Q I) (it : CQueueIterator Q I) (items : List I) : Prop :=
  ∃ fuel, drain fuel h it = some (items.map fun i => .pointer (some (.item i)))

variable {h : Heap Q I} {A : Q → List I} {q : Q} {i : I} {m : List I}

/-- At the sentinel of an empty queue the loop goes round. -/
theorem drain_head (hs : Shape h A) (hA : A q = []) (fuel : ℕ) :
    drain fuel h ⟨q, .pointer (some (.head q))⟩ = none := by
  have hr := hA ▸ hs.represents q
  have hnext : h.next (.head q) = some (.head q) := hr.ring.next_sentinel
  induction fuel with
  | zero => rfl
  | succ fuel ih =>
      rw [drain]
      dsimp only [isDone, getCurrent, Option.isNone_some]
      rw [CQueue.remove, if_pos rfl, Option.bind_some, next]
      dsimp only
      rw [hr.getTailItem_eq, List.getLast?_nil, Option.map_none, if_neg (Option.some_ne_none _),
        hnext, Option.bind_some, ih, Option.map_none]

/-- After the first item is removed, `Next` follows its link. -/
theorem exists_next_of_remove (hs : Shape h A) (hA : A q = i :: m) :
    ∃ h' A', CQueue.remove h q (some (.item i)) = some h' ∧ Shape h' A' ∧ A' q = m ∧
      next h' ⟨q, .pointer (some (.item i))⟩ =
        some ⟨q, .pointer (some ((m.head?.map .item).getD (.head q)))⟩ := by
  have hi : i ∈ A q := hA ▸ List.mem_cons_self
  obtain ⟨h', hremove, hs'⟩ := CQueue.remove_spec hs hi
  refine ⟨h', _, hremove, hs', by rw [update_self, hA, List.erase_cons_head], ?_⟩
  have hout : h'.mQueue (.item i) = none := by
    rw [hs'.mQueue_eq_none_iff]
    intro r
    rw [hs.update_erase hi]
    exact fun hmem => ((hs.represents r).nodup.mem_erase_iff.1 hmem).1 rfl
  have hlink : h'.next (.item i) = some ((m.head?.map .item).getD (.head q)) := by
    rw [CQueue.next_eq_of_remove hs hremove hout]
    exact (hA ▸ hs.represents q : Represents h q ([] ++ i :: m)).next_eq
  have htail : ¬ some (.item i) = CQueue.getTailItem h' q := by
    intro he
    have hmem := Iteration.mem_of_isLast hs' he.symm
    rw [hs'.mQueue_eq_none_iff] at hout
    exact hout q hmem
  rw [next]
  dsimp only
  rw [if_neg htail, hlink]

/-- **The loop that removes does not end**: the last link goes to the sentinel. -/
theorem drain_eq_none (hs : Shape h A) (hA : A q = i :: m) (fuel : ℕ) :
    drain fuel h ⟨q, .pointer (some (.item i))⟩ = none := by
  induction fuel generalizing h A i m with
  | zero => rfl
  | succ fuel ih =>
      obtain ⟨h', A', hremove, hs', hA', hnext⟩ := exists_next_of_remove hs hA
      rw [drain]
      dsimp only [isDone, getCurrent, Option.isNone_some]
      rw [hremove, Option.bind_some, hnext, Option.bind_some]
      cases m with
      | nil => rw [List.head?_nil, Option.map_none, Option.getD_none, drain_head hs' hA',
          Option.map_none]
      | cons j m => rw [List.head?_cons, Option.map_some, Option.getD_some, ih hs' hA',
          Option.map_none]

/-- The loop from the head item visits the members if and only if there are none. -/
theorem drains_iff (hs : Shape h A) : Drains h (whole h q) (A q) ↔ A q = [] := by
  have hr := hs.represents q
  rw [Drains, whole, hr.getHeadItem_eq]
  cases hA : A q with
  | nil => exact iff_of_true ⟨1, rfl⟩ rfl
  | cons i m =>
      refine iff_of_false ?_ (List.cons_ne_nil i m)
      rintro ⟨fuel, hrun⟩
      rw [List.head?_cons, Option.map_some, drain_eq_none hs hA fuel] at hrun
      exact absurd hrun (by simp)

end CQueueIterator

/-! ### The runs in which the iterator is sound -/

open Iteration CQueueIterator

/-- **An iterator is sound if and only if its caller is careful.**  In a run of calls on the queues
and on the iterator, the iterator always holds `NULL` or an item, and no call goes through a null
pointer, exactly if each start is a member and `Next` is called where it may be.  The loop that
removes each current item ends with the members exactly if there are none. -/
theorem sound_iff_careful {tr : List (Option (Iteration Q I) × Iteration.Action Q I)}
    {s : Option (Iteration Q I)} (h : (machine Q I).Run (some start) tr s) :
    ((∀ t ∈ Machine.visited tr s, Sound t) ↔ ∀ p ∈ tr, Careful p.1 p.2) ∧
      ∀ w, s = some w → ∀ q, ∃ L, Represents w.heap q L ∧
        (Drains w.heap (whole w.heap q) L ↔ L = []) := by
  refine ⟨h.forall_visited_iff ?_ ?_ rfl, ?_⟩
  · intro t ht
    have hI := (links_invariant (Q := Q) (I := I)).restrict Careful
    refine ((hI.relative (I := Sound) ?_ ?_).reachable ht).2
    · rintro _ rfl it hit
      exact absurd hit.symm (Option.some_ne_none it)
    · rintro _ a s' hlinks hsound ⟨⟨w, rfl, hpossible, rfl⟩, hcareful⟩
      obtain ⟨A, hl⟩ := hlinks w rfl
      exact hl.sound_exec hsound hpossible hcareful
  · rintro _ a _ hreach ⟨w, rfl, -, rfl⟩ hno
    obtain ⟨A, hl⟩ := links_invariant.reachable hreach w rfl
    exact hl.not_sound_exec hno
  · rintro w rfl q
    obtain ⟨A, hl⟩ := links_invariant.reachable (h.reachable (.init rfl)) w rfl
    exact ⟨A q, hl.shape.represents q, drains_iff hl.shape⟩

/-- The first of three items is removed under an iterator, which then goes on to the second. -/
theorem sound_next : ∃ tr w, (machine Unit (Fin 3)).Run (some start) tr (some w) ∧
    tr.map Prod.snd = [.call (.enQueue () 0), .call (.enQueue () 1), .call (.enQueue () 2),
      .whole (), .getCurrent, .call (.itemRemove (.item 0)), .next, .isDone] ∧
    w.iter = some ⟨(), .pointer (some (.item 1))⟩ ∧
    ∀ t ∈ Machine.visited tr (some w), Sound t := by
  have h₀ : ((machine Unit (Fin 3)).restrict Careful).Run (some start) [] (some start) := .nil
  have h₁ := h₀.snoc (a := Action.call (.enQueue () 0)) ⟨⟨_, rfl, trivial, rfl⟩, trivial⟩
  have h₂ := h₁.snoc (a := Action.call (.enQueue () 1)) ⟨⟨_, rfl, trivial, rfl⟩, trivial⟩
  have h₃ := h₂.snoc (a := Action.call (.enQueue () 2)) ⟨⟨_, rfl, trivial, rfl⟩, trivial⟩
  have h₄ := h₃.snoc (a := Action.whole ()) ⟨⟨_, rfl, trivial, rfl⟩, trivial⟩
  have h₅ := h₄.snoc (a := Action.getCurrent) ⟨⟨_, rfl, Option.some_ne_none _, rfl⟩, trivial⟩
  have h₆ := h₅.snoc (a := Action.call (.itemRemove (.item 0))) ⟨⟨_, rfl, trivial, rfl⟩, trivial⟩
  have h₇ := h₆.snoc (a := Action.next) ⟨⟨_, rfl, Option.some_ne_none _, rfl⟩, by
    -- the iterator is at the first item, the last one is the third
    intro it hit
    obtain rfl := Option.some_inj.1 hit
    refine .inr fun hend => ?_
    rcases hend with ⟨⟨⟩, hlast⟩ | ⟨-, ⟨⟨⟩, hlast⟩ | ⟨hnone, -⟩⟩
    · exact absurd hlast (by decide)
    · exact absurd hlast (by decide)
    · exact absurd hnone (by decide)⟩
  have h₈ := h₇.snoc (a := Action.isDone) ⟨⟨_, rfl, Option.some_ne_none _, rfl⟩, trivial⟩
  exact ⟨_, _, h₈.of_restrict, rfl, rfl,
    (sound_iff_careful h₈.of_restrict).1.2 h₈.forall_of_restrict⟩

/-- **Not every iterator is sound**: a start that is in no queue leaves the pointer as it is. -/
theorem startingAt_not_sound : ∃ tr s,
    (machine Unit Unit).Run (some start) tr s ∧ ¬ ∀ t ∈ Machine.visited tr s, Sound t := by
  refine ⟨[(some start, .startingAt () (some ()))], start.exec (.startingAt () (some ())),
    .snoc .nil ⟨start, rfl, trivial, rfl⟩, fun hall => ?_⟩
  exact hall _ (Machine.mem_visited _ _) _ rfl

end VModule
