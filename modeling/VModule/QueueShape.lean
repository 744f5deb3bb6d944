/-
**The shape of the intrusive queues, over every sequence of calls.**

`VModule/Queue.lean` embeds the operations of `CQueue` on a heap shared by all queues.  This module
says what that heap looks like: the sentinel of each queue and the items in it form one ring, in
the sense of `VModule/Ring.lean`, as long as `fLength` says, and the back pointer of an item names
the queue it is in.  The operations then are list operations, which is the refinement
`VModule.runCalls_refines`.

Main definitions:

* `VModule.Represents` — the pointers of one queue represent a list of items;
* `VModule.Shape` — every queue represents a list;
* `VModule.Call.effect`, `VModule.effects` — what calls do to the lists.

Main results:

* `VModule.Shape.link`, `VModule.Shape.unlink` — the writes that add an item at the tail and that
  take an item out;
* `VModule.CQueue.enQueue_spec`, `VModule.CQueue.deQueue_spec`, `VModule.CQueue.remove_spec` — one
  statement for each operation;
* `VModule.Shape.fLength_le` — `fLength` counts items, so it is at most their number;
* `VModule.runCalls_refines` — **no sequence of calls dereferences a null pointer, and each acts
  on the lists as the abstract queue does**.
-/

import Mathlib.Data.Fintype.Card
import VModule.Queue
import VModule.Ring

set_option relaxedAutoImplicit false
set_option autoImplicit false

namespace VModule

open Function

variable {Q I : Type}

/-! ### What the pointers represent -/

/-- The pointers of queue `q` represent the list `L`: following `next` from the sentinel visits
the items of `L`, all distinct, and comes back to it, following `prev` visits them in reverse,
`fLength` is their number, and exactly the items of `L` have `q` as back pointer. -/
structure Represents (h : Heap Q I) (q : Q) (L : List I) : Prop where
  ring : Ring.IsRing h.next h.prev (.head q) (L.map .item)
  length : h.fLength q = L.length
  member : ∀ i, h.mQueue (.item i) = some q ↔ i ∈ L

theorem item_injective : Injective (Node.item : I → Node Q I) := by
  intro i j h
  exact Node.item.inj h

/-- The items of a queue are pairwise distinct. -/
theorem Represents.nodup {h : Heap Q I} {q : Q} {L : List I} (hr : Represents h q L) : L.Nodup :=
  (List.nodup_cons.1 hr.ring.nodup).2.of_map

/-- The pointers determine the list. -/
theorem Represents.unique {h : Heap Q I} {q : Q} {L M : List I} (hL : Represents h q L)
    (hM : Represents h q M) : L = M :=
  List.map_injective_iff.2 item_injective (hL.ring.unique hM.ring)

/-- Every queue represents the list that `A` gives it, and no sentinel is in a queue. -/
structure Shape (h : Heap Q I) (A : Q → List I) : Prop where
  represents : ∀ q, Represents h q (A q)
  sentinel : ∀ q, h.mQueue (.head q) = none

/-- The nodes of the ring of `q`. -/
def ringNodes (A : Q → List I) (q : Q) : List (Node Q I) := .head q :: (A q).map .item

/-- The nodes of the items, when the items of one queue change. -/
theorem nodes_update [DecidableEq Q] (A : Q → List I) (q : Q) (L : List I) :
    (fun r => (update A q L r).map (Node.item (Q := Q))) =
      update (fun r => (A r).map .item) q (L.map .item) := by
  funext r
  by_cases hrq : r = q
  · subst hrq
    rw [update_self, update_self]
  · rw [update_of_ne hrq, update_of_ne hrq]

/-- An item in no queue is a node of no ring. -/
theorem item_not_mem_nodes {L : List I} {i : I} (hi : i ∉ L) (q : Q) :
    (.item i : Node Q I) ∉ .head q :: L.map .item := by
  simpa using hi

namespace Shape

variable {h : Heap Q I} {A : Q → List I}

theorem mQueue_eq_iff (hs : Shape h A) {i : I} {q : Q} :
    h.mQueue (.item i) = some q ↔ i ∈ A q := (hs.represents q).member i

/-- An item without back pointer is in no queue. -/
theorem mQueue_eq_none_iff (hs : Shape h A) {i : I} :
    h.mQueue (.item i) = none ↔ ∀ q, i ∉ A q := by
  constructor
  · intro h0 q hq
    rw [hs.mQueue_eq_iff.2 hq] at h0
    exact absurd h0 (by simp)
  · intro h0
    cases hm : h.mQueue (.item i) with
    | none => rfl
    | some q => exact absurd (hs.mQueue_eq_iff.1 hm) (h0 q)

/-- An item is in at most one queue. -/
theorem eq_of_mem (hs : Shape h A) {i : I} {q r : Q} (hq : i ∈ A q) (hr : i ∈ A r) : q = r :=
  Option.some_inj.1 ((hs.mQueue_eq_iff.2 hq).symm.trans (hs.mQueue_eq_iff.2 hr))

/-- The rings of two queues have no node in common. -/
theorem eq_of_mem_ringNodes (hs : Shape h A) {y : Node Q I} {q r : Q} (hq : y ∈ ringNodes A q)
    (hr : y ∈ ringNodes A r) : q = r := by
  simp only [ringNodes, List.mem_cons, List.mem_map] at hq hr
  rcases hq with rfl | ⟨i, hi, rfl⟩
  · rcases hr with hr | ⟨j, -, hj⟩
    · exact Node.head.inj hr
    · exact absurd hj (by simp)
  · rcases hr with hr | ⟨j, hj, he⟩
    · exact absurd hr (by simp)
    · obtain rfl : j = i := Node.item.inj he
      exact hs.eq_of_mem hi hj

/-- The rings of all queues. -/
theorem rings (hs : Shape h A) :
    Ring.Rings h.next h.prev (fun _ => True) .head fun q => (A q).map .item where
  ring q _ := (hs.represents q).ring
  disjoint _ _ _ _ _ hq hr := hs.eq_of_mem_ringNodes hq hr

/-- **`fLength` is at most the number of items**: with fewer than `2 ^ 31` of them the `int` of
the source does not overflow. -/
theorem fLength_le [Fintype I] (hs : Shape h A) (q : Q) :
    0 ≤ h.fLength q ∧ h.fLength q ≤ Fintype.card I := by
  have hlen := (hs.represents q).length
  have hcard := (hs.represents q).nodup.length_le_card
  omega

variable [DecidableEq Q] [DecidableEq I]

/-! ### Linking and unlinking -/

/-- **Linking an item that is in no queue** at the tail of `q`. -/
theorem link (hs : Shape h A) {q : Q} {i : I} (hi : ∀ r, i ∉ A r) {last : Node Q I}
    (hlast : h.prev (.head q) = some last) {h' : Heap Q I}
    (hn : h'.next = update (update h.next last (some (.item i))) (.item i) (some (.head q)))
    (hp : h'.prev = update (update h.prev (.item i) (some last)) (.head q) (some (.item i)))
    (hm : h'.mQueue = update h.mQueue (.item i) (some q))
    (hl : h'.fLength = update h.fLength q (h.fLength q + 1)) :
    Shape h' (update A q (A q ++ [i])) := by
  have hrings := hs.rings.insertLast (q := q) trivial (fun r _ => item_not_mem_nodes (hi r) r) hlast
  rw [← hn, ← hp, ← List.map_singleton, ← List.map_append, ← nodes_update] at hrings
  refine ⟨fun r => ⟨hrings.ring r trivial, ?_, fun j => ?_⟩, fun r => ?_⟩
  · rw [hl]
    by_cases hrq : r = q
    · subst hrq
      rw [update_self, update_self, (hs.represents r).length]
      simp
    · rw [update_of_ne hrq, update_of_ne hrq, (hs.represents r).length]
  · rw [hm]
    by_cases hji : j = i
    · subst hji
      by_cases hrq : r = q
      · subst hrq; simp
      · simp [update_of_ne hrq, hi r, Ne.symm hrq]
    · rw [update_of_ne (fun he => hji (Node.item.inj he)), hs.mQueue_eq_iff]
      by_cases hrq : r = q
      · subst hrq; simp [hji]
      · rw [update_of_ne hrq]
  · rw [hm, update_of_ne (by simp)]
    exact hs.sentinel r

/-- **Unlinking an item of `q`**, wherever it stands. -/
theorem unlink (hs : Shape h A) {q : Q} {i : I} {l m : List I} (hA : A q = l ++ i :: m)
    {succ pred : Node Q I} (hsucc : h.next (.item i) = some succ)
    (hpred : h.prev (.item i) = some pred) {h' : Heap Q I}
    (hn : h'.next = update h.next pred (some succ))
    (hp : h'.prev = update h.prev succ (some pred))
    (hm : h'.mQueue = update h.mQueue (.item i) none)
    (hl : h'.fLength = update h.fLength q (h.fLength q - 1)) :
    Shape h' (update A q (l ++ m)) := by
  have hiq : i ∈ A q := by rw [hA]; simp
  have hil : i ∉ l ++ m := by
    have hnd : (l ++ i :: m).Nodup := hA ▸ (hs.represents q).nodup
    exact (List.nodup_cons.1 ((@List.perm_middle _ i l m).nodup_iff.1 hnd)).1
  have hmap : (A q).map .item = l.map .item ++ Node.item (Q := Q) i :: m.map .item := by
    rw [hA, List.map_append, List.map_cons]
  have hrings := hs.rings.erase (q := q) trivial hmap hsucc hpred
  rw [← hn, ← hp, ← List.map_append, ← nodes_update] at hrings
  refine ⟨fun r => ⟨hrings.ring r trivial, ?_, fun j => ?_⟩, fun r => ?_⟩
  · rw [hl]
    by_cases hrq : r = q
    · subst hrq
      rw [update_self, update_self, (hs.represents r).length, hA]
      simp
      omega
    · rw [update_of_ne hrq, update_of_ne hrq, (hs.represents r).length]
  · rw [hm]
    by_cases hji : j = i
    · subst hji
      by_cases hrq : r = q
      · subst hrq; simp [hil]
      · have hjr : j ∉ A r := fun hjr => hrq (hs.eq_of_mem hjr hiq)
        simp [update_of_ne hrq, hjr]
    · rw [update_of_ne (fun he => hji (Node.item.inj he)), hs.mQueue_eq_iff]
      by_cases hrq : r = q
      · subst hrq; simp [hA, hji]
      · rw [update_of_ne hrq]
  · rw [hm, update_of_ne (by simp)]
    exact hs.sentinel r

end Shape

/-- The memory after construction: every queue is empty. -/
theorem shape_init : Shape (Heap.init : Heap Q I) fun _ => [] where
  represents q :=
    { ring := Ring.IsRing.nil rfl rfl
      length := rfl
      member := by simp }
  sentinel _ := rfl

/-! ### One statement for each operation -/

variable [DecidableEq Q] [DecidableEq I] {h : Heap Q I} {A : Q → List I}

namespace CQueue

/-- `EnQueue` of an item that is in no queue appends it. -/
theorem enQueue_spec (hs : Shape h A) {i : I} (hi : ∀ r, i ∉ A r) (q : Q) :
    ∃ h', enQueue h q (.item i) = some h' ∧ Shape h' (update A q (A q ++ [i])) := by
  have hnone := hs.mQueue_eq_none_iff.2 hi
  obtain ⟨last, hlast⟩ : ∃ last, h.prev (.head q) = some last :=
    ⟨_, (hs.represents q).ring.prev_sentinel⟩
  refine ⟨((((h.setNext last (some (.item i))).setPrev (.item i) (some last)).setNext (.item i)
    (some (.head q))).setPrev (.head q) (some (.item i))).setMQueue (.item i)
      (some q) |>.setLength q (h.fLength q + 1), ?_, hs.link hi hlast ?_ ?_ ?_ ?_⟩
  · simp [enQueue, hnone, hlast]
  all_goals simp

/-- `EnQueue` of an item that is in some queue changes nothing. -/
theorem enQueue_of_mem (hs : Shape h A) {i : I} {r : Q} (hi : i ∈ A r) (q : Q) :
    enQueue h q (.item i) = some h := by
  simp [enQueue, hs.mQueue_eq_iff.2 hi]

/-- `DeQueue` on an empty queue returns null and changes nothing. -/
theorem deQueue_of_nil (hs : Shape h A) {q : Q} (hq : A q = []) :
    deQueue h q = some (h, none) := by
  simp [deQueue, (hs.represents q).length, hq]

/-- `DeQueue` removes and returns the first item. -/
theorem deQueue_spec (hs : Shape h A) {q : Q} {i : I} {L : List I} (hq : A q = i :: L) :
    ∃ h', deQueue h q = some (h', some (.item i)) ∧ Shape h' (update A q L) := by
  have hlen := (hs.represents q).length
  have hring := (hs.represents q).ring
  rw [hq, List.map_cons, ← List.nil_append (_ :: _)] at hring
  have hfirst : h.next (.head q) = some (.item i) := hring.next_sentinel
  have hpred : h.prev (.item i) = some (.head q) := hring.prev_mid
  obtain ⟨succ, hsucc⟩ : ∃ succ, h.next (.item i) = some succ := ⟨_, hring.next_mid⟩
  refine ⟨((h.setNext (.head q) (some succ)).setPrev succ (some (.head q))).setMQueue
    (.item i) none |>.setLength q (h.fLength q - 1), ?_,
      hs.unlink (l := []) hq hsucc hpred ?_ ?_ ?_ ?_⟩
  · have hpos : ¬ h.fLength q ≤ 0 := by rw [hlen, hq, List.length_cons]; omega
    simp [deQueue, hpos, hfirst, hsucc]
  all_goals simp

/-- `Remove` of an item of the queue takes it out, wherever it stands. -/
theorem remove_spec (hs : Shape h A) {q : Q} {i : I} (hi : i ∈ A q) :
    ∃ h', remove h q (some (.item i)) = some h' ∧ Shape h' (update A q ((A q).erase i)) := by
  obtain ⟨l, m, -, hA, herase⟩ := List.exists_erase_eq hi
  rw [herase]
  have hring := (hs.represents q).ring
  rw [hA, List.map_append, List.map_cons] at hring
  obtain ⟨succ, hsucc⟩ : ∃ succ, h.next (.item i) = some succ := ⟨_, hring.next_mid⟩
  obtain ⟨pred, hpred⟩ : ∃ pred, h.prev (.item i) = some pred := ⟨_, hring.prev_mid⟩
  have hne : (.item i : Node Q I) ≠ pred := by
    -- the predecessor stands before the item, and the nodes are distinct
    rintro rfl
    obtain he := Option.some_inj.1 (hpred.symm.trans hring.prev_mid)
    have hmem := Ring.getLastD_mem (Node.head q) (l.map Node.item)
    rw [← he, List.mem_cons] at hmem
    rcases hmem with hmem | hmem
    · exact absurd hmem (by simp)
    · have hnd := (List.nodup_cons.1 hring.nodup).2
      exact (List.nodup_append.1 hnd).2.2 _ hmem _ (List.mem_cons_self ..) rfl
  refine ⟨((h.setNext pred (some succ)).setPrev succ (some pred)).setMQueue (.item i) none
    |>.setLength q (h.fLength q - 1), ?_, hs.unlink hA hsucc hpred ?_ ?_ ?_ ?_⟩
  · simp [remove, hs.mQueue_eq_iff.2 hi, hpred, hsucc, update_of_ne hne]
  all_goals simp

/-- `Remove` of null, of a sentinel or of an item that is not in the queue changes nothing. -/
theorem remove_of_not_mem (hs : Shape h A) {q : Q} {item : Option (Node Q I)}
    (hi : ∀ i ∈ A q, item ≠ some (.item i)) : remove h q item = some h := by
  cases item with
  | none => rfl
  | some n =>
      cases n with
      | head r => simp [remove, hs.sentinel r]
      | item i =>
          have hmq : h.mQueue (.item i) ≠ some q := fun hmq => hi i (hs.mQueue_eq_iff.1 hmq) rfl
          simp [remove, hmq]

end CQueue

namespace CQueueItem

/-- `CQueueItem::Remove` of an item of some queue takes it out of that queue. -/
theorem remove_spec (hs : Shape h A) {q : Q} {i : I} (hi : i ∈ A q) :
    ∃ h', remove h (.item i) = some h' ∧ Shape h' (update A q ((A q).erase i)) := by
  obtain ⟨h', hex, hs'⟩ := CQueue.remove_spec hs hi
  exact ⟨h', by rw [remove, hs.mQueue_eq_iff.2 hi]; exact hex, hs'⟩

/-- `CQueueItem::Remove` of a sentinel or of an item that is in no queue changes nothing. -/
theorem remove_of_not_mem (hs : Shape h A) {n : Node Q I} (hn : ∀ q, ∀ i ∈ A q, n ≠ .item i) :
    remove h n = some h := by
  cases n with
  | head r => rw [remove, hs.sentinel r]
  | item i =>
      have hnone : h.mQueue (.item i) = none :=
        hs.mQueue_eq_none_iff.2 fun q hq => hn q i hq rfl
      rw [remove, hnone]

end CQueueItem

/-! ### Calls act on the lists -/

open Classical in
/-- **What a call does to the lists**, with the item it returns: `EnQueue` appends an item that is
in no queue, `DeQueue` takes the first item of the queue it names, the two forms of `Remove` take
out the item they are given if it is in the queue they name, or in any queue. -/
noncomputable def Call.effect (A : Q → List I) : Call Q I → (Q → List I) × Option I
  | .enQueue q i => (if ∃ r, i ∈ A r then A else update A q (A q ++ [i]), none)
  | .deQueue q => (update A q (A q).tail, (A q).head?)
  | .remove q (some (.item i)) => (update A q ((A q).erase i), none)
  | .remove _ _ => (A, none)
  | .itemRemove (.item i) => (fun q => (A q).erase i, none)
  | .itemRemove (.head _) => (A, none)

/-- What a sequence of calls does to the lists, with the items returned. -/
noncomputable def effects (A : Q → List I) : List (Call Q I) → (Q → List I) × List (Option I)
  | [] => (A, [])
  | c :: cs => ((effects (c.effect A).1 cs).1, (c.effect A).2 :: (effects (c.effect A).1 cs).2)

/-- Taking an item out of the one queue it is in is taking it out of all of them. -/
theorem Shape.update_erase (hs : Shape h A) {q : Q} {i : I} (hi : i ∈ A q) :
    update A q ((A q).erase i) = fun r => (A r).erase i := by
  funext r
  by_cases hrq : r = q
  · subst hrq; rw [update_self]
  · rw [update_of_ne hrq, List.erase_of_not_mem]
    exact fun hr => hrq (hs.eq_of_mem hr hi)

/-- **One call** keeps the shape and acts on the lists as its effect says. -/
theorem Call.exec_spec (hs : Shape h A) (c : Call Q I) :
    ∃ h', c.exec h = some (h', (c.effect A).2.map .item) ∧ Shape h' (c.effect A).1 := by
  cases c with
  | enQueue q i =>
      by_cases hi : ∃ r, i ∈ A r
      · obtain ⟨r, hr⟩ := hi
        refine ⟨h, ?_, ?_⟩
        · simp [exec, effect, CQueue.enQueue_of_mem hs hr]
        · simpa [effect, show ∃ r, i ∈ A r from ⟨r, hr⟩] using hs
      · obtain ⟨h', hex, hs'⟩ := CQueue.enQueue_spec hs (fun r hr => hi ⟨r, hr⟩) q
        exact ⟨h', by simp [exec, effect, hex], by simpa [effect, hi] using hs'⟩
  | deQueue q =>
      cases hq : A q with
      | nil =>
          refine ⟨h, by simp [exec, effect, CQueue.deQueue_of_nil hs hq, hq], ?_⟩
          have hA : update A q (A q).tail = A := by rw [hq, List.tail_nil, ← hq, update_eq_self]
          rw [effect, hA]
          exact hs
      | cons i L =>
          obtain ⟨h', hex, hs'⟩ := CQueue.deQueue_spec hs hq
          exact ⟨h', by simp [exec, effect, hex, hq], by simpa [effect, hq] using hs'⟩
  | remove q item =>
      by_cases hi : ∃ i ∈ A q, item = some (.item i)
      · obtain ⟨i, hi, rfl⟩ := hi
        obtain ⟨h', hex, hs'⟩ := CQueue.remove_spec hs hi
        exact ⟨h', by simp [exec, effect, hex], hs'⟩
      · have hex := CQueue.remove_of_not_mem hs fun i hi' he => hi ⟨i, hi', he⟩
        have hA : (effect A (.remove q item)).1 = A := by
          match item with
          | none => rfl
          | some (.head _) => rfl
          | some (.item i) =>
              have hi' : i ∉ A q := fun hi' => hi ⟨i, hi', rfl⟩
              simp [effect, List.erase_of_not_mem hi']
        have hr : (effect A (.remove q item)).2 = none := by
          match item with
          | none => rfl
          | some (.head _) => rfl
          | some (.item _) => rfl
        exact ⟨h, by simp [exec, hex, hr], by rw [hA]; exact hs⟩
  | itemRemove n =>
      cases n with
      | head r =>
          have hex := CQueueItem.remove_of_not_mem hs (n := .head r) (by simp)
          exact ⟨h, by simp [exec, effect, hex], hs⟩
      | item i =>
          by_cases hi : ∃ q, i ∈ A q
          · obtain ⟨q, hi⟩ := hi
            obtain ⟨h', hex, hs'⟩ := CQueueItem.remove_spec hs hi
            rw [hs.update_erase hi] at hs'
            exact ⟨h', by simp [exec, effect, hex], hs'⟩
          · have hex := CQueueItem.remove_of_not_mem hs (n := .item i)
              fun q j hj he => hi ⟨q, Node.item.inj he ▸ hj⟩
            have hA : (fun q => (A q).erase i) = A :=
              funext fun q => List.erase_of_not_mem fun hq => hi ⟨q, hq⟩
            exact ⟨h, by simp [exec, effect, hex], by rw [effect, hA]; exact hs⟩

/-- A sequence of calls from a heap of the right shape. -/
theorem runCalls_spec (hs : Shape h A) (cs : List (Call Q I)) :
    ∃ h', runCalls h cs = some (h', (effects A cs).2.map (Option.map .item)) ∧
      Shape h' (effects A cs).1 := by
  induction cs generalizing h A with
  | nil => exact ⟨h, rfl, hs⟩
  | cons c cs ih =>
      obtain ⟨h₁, hex, hs₁⟩ := c.exec_spec hs
      obtain ⟨h₂, hrun, hs₂⟩ := ih hs₁
      exact ⟨h₂, by simp [runCalls, hex, hrun, effects], hs₂⟩

/-- **The queues refine lists.**  Every sequence of calls, from the memory the constructors leave,
runs without dereferencing a null pointer; the pointers it returns are the items the abstract
queues return, and afterwards the pointers of each queue represent exactly one list, the one the
abstract queues hold. -/
theorem runCalls_refines (cs : List (Call Q I)) :
    ∃ h, runCalls Heap.init cs =
        some (h, (effects (fun _ => []) cs).2.map (Option.map .item)) ∧
      ∀ q L, Represents h q L ↔ L = (effects (fun _ => []) cs).1 q := by
  obtain ⟨h, hrun, hs⟩ := runCalls_spec (shape_init (Q := Q) (I := I)) cs
  refine ⟨h, hrun, fun q L => ⟨fun hL => hL.unique (hs.represents q), ?_⟩⟩
  rintro rfl
  exact hs.represents q

end VModule
