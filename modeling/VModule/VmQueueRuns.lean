/-
**Every sequence of calls on C queues, and the end of a queue.**

`VModule/VmQueue.lean` compares a single `MQUEUE` with a `CQueue`.  Here any number of them share
their items, and all functions of `sutils/VmQueue.cpp` may be called, in any order.  Two of them
leave more behind than they should.

`mqueue_clear` and `mqueue_free`, and likewise `CQueue::~CQueue`, only touch the sentinel, so that
the items that were in the queue go on naming it as theirs.  A back pointer then means less than it
does in `VModule/QueueShape.lean`: it is right for every linked item, and it may be stale for
others.

`mqueue_remove` does nothing unless it is called on a queue of length one, and there it lowers
`fLength` twice.

Main definitions:

* `VModule.MCall`, `VModule.mqueueMachine` — the calls, and the runs made of them;
* `VModule.MShape` — the shape of the queues, stale back pointers allowed;
* `VModule.RemoveLaw` — what removing an item should do;
* `VModule.cqueueMachine` — the runs of `CQueue`s that also end.

Main results:

* `VModule.MCall.step_spec` — every call but one keeps the shape;
* `VModule.mqueue_remove_law` — **`mqueue_remove` never removes an item**;
* `VModule.teardown_iff` — **which queues leave their items fit for use**.
-/

import VModule.Machine
import VModule.VmQueue

set_option relaxedAutoImplicit false
set_option autoImplicit false

namespace VModule

open Function

variable {Q I : Type} [DecidableEq Q] [DecidableEq I]

/-! ### Calls -/

/-- A call of one of the functions of `sutils/VmQueue.cpp`. -/
inductive MCall (Q I : Type) where
  | init (q : Q)
  | push (q : Q) (i : I)
  | pop (q : Q)
  | clear (q : Q)
  | free (q : Q)
  | remove (q : Q) (elem : Option (Node Q I))

/-- The effect of one call on the memory and the pointer it returns (null for `void`). -/
def MCall.exec (m : MHeap Q I) : MCall Q I → Option (MHeap Q I × Option (Node Q I))
  | .init q => some (mqueueInit m q, none)
  | .push q i => (mqueuePush m q (some (.item i))).map (·, none)
  | .pop q => mqueuePop m q
  | .clear q => some (mqueueClear m q, none)
  | .free q => some (mqueueFree m q, none)
  | .remove q elem => (mqueueRemove m q elem).map (·, none)

/-- Sequences of calls that succeed, from memory in which nothing has been initialised. -/
def mqueueMachine : Machine (MHeap Q I) (MCall Q I) where
  init m := m = MHeap.blank
  step m c m' := ∃ r, c.exec m = some (m', r)

/-- No item is removed from a queue of length one. -/
def Spares (m : MHeap Q I) (c : MCall Q I) : Prop :=
  ∀ q elem, c = .remove q elem → m.fLength q ≠ 1

/-! ### The shape of the queues -/

/-- The queues that are initialised form rings as long as `fLength` says, and the back pointers of
the items in them are right. -/
structure MShape (m : MHeap Q I) (A : Q → List I) : Prop where
  head : ∀ q, m.head q = none ∧ A q = [] ∨ m.head q = some (.head q)
  rings : Ring.Rings m.next m.prev (fun q => m.head q ≠ none) .head fun q => (A q).map .item
  length : ∀ q, m.fLength q = (A q).length
  marked : ∀ q, ∀ i ∈ A q, m.mQueue (.item i) = some q

omit [DecidableEq Q] [DecidableEq I] in
theorem mshape_blank : MShape (MHeap.blank : MHeap Q I) fun _ => [] where
  head _ := .inl ⟨rfl, rfl⟩
  rings := ⟨fun _ h => absurd rfl h, fun _ _ _ h => absurd rfl h⟩
  length _ := rfl
  marked := by simp

namespace MShape

variable {m : MHeap Q I} {A : Q → List I}

omit [DecidableEq Q] [DecidableEq I]

/-- A queue with a member is initialised. -/
theorem head_of_mem (hm : MShape m A) {q : Q} {i : I} (hi : i ∈ A q) :
    m.head q = some (.head q) := by
  refine (hm.head q).resolve_left fun h => ?_
  rw [h.2] at hi
  simp at hi

/-- An item without back pointer is in no queue. -/
theorem not_mem (hm : MShape m A) {i : I} (hi : m.mQueue (.item i) = none) (q : Q) : i ∉ A q := by
  intro hq
  rw [hm.marked q i hq] at hi
  exact absurd hi (by simp)

/-- An item is in at most one queue. -/
theorem eq_of_mem (hm : MShape m A) {i : I} {q r : Q} (hq : i ∈ A q) (hr : i ∈ A r) : q = r :=
  Option.some_inj.1 ((hm.marked q i hq).symm.trans (hm.marked r i hr))

/-- A sentinel is in no ring but its own. -/
theorem sentinel_not_mem (q : Q) : ∀ r, m.head r ≠ none → r ≠ q →
    (.head q : Node Q I) ∉ .head r :: (A r).map .item := by
  intro r _ hrq hq
  simp only [List.mem_cons, Node.head.injEq, List.mem_map, reduceCtorEq, and_false, exists_false,
    or_false] at hq
  exact hrq hq.symm

end MShape

/-! ### What the calls do to the shape -/

section

variable {m m' : MHeap Q I} {A : Q → List I}

namespace MShape

/-- **Linking an item** that no queue has marked. -/
theorem link (hm : MShape m A) {q : Q} (hq : m.head q = some (.head q)) {i : I}
    (hi : m.mQueue (.item i) = none) {last : Node Q I} (hlast : m.prev (.head q) = some last)
    (hhead : m'.head = m.head)
    (hn : m'.next = update (update m.next last (some (.item i))) (.item i) (some (.head q)))
    (hp : m'.prev = update (update m.prev (.item i) (some last)) (.head q) (some (.item i)))
    (hmq : m'.mQueue = update m.mQueue (.item i) (some q))
    (hl : m'.fLength = update m.fLength q (m.fLength q + 1)) :
    MShape m' (update A q (A q ++ [i])) := by
  have hlive : m.head q ≠ none := by simp [hq]
  have hrings := hm.rings.insertLast hlive (fun r _ => item_not_mem_nodes (hm.not_mem hi r) r) hlast
  rw [← hn, ← hp, ← List.map_singleton, ← List.map_append, ← nodes_update] at hrings
  refine ⟨fun r => ?_, by rwa [hhead], fun r => ?_, fun r j hj => ?_⟩
  · rw [hhead]
    by_cases hrq : r = q
    · exact .inr (hrq ▸ hq)
    · rw [update_of_ne hrq]
      exact hm.head r
  · rw [hl]
    by_cases hrq : r = q
    · subst hrq
      rw [update_self, update_self, hm.length]
      simp
    · rw [update_of_ne hrq, update_of_ne hrq, hm.length]
  · rw [hmq]
    by_cases hji : j = i
    · subst hji
      by_cases hrq : r = q
      · rw [hrq, update_self]
      · rw [update_of_ne hrq] at hj
        exact absurd hj (hm.not_mem hi r)
    · rw [update_of_ne (fun he => hji (Node.item.inj he))]
      refine hm.marked r j ?_
      by_cases hrq : r = q
      · subst hrq
        simpa [hji] using hj
      · rwa [update_of_ne hrq] at hj

/-- **Unlinking an item**, wherever it stands. -/
theorem unlink (hm : MShape m A) {q : Q} {i : I} {l b : List I} (hA : A q = l ++ i :: b)
    {succ pred : Node Q I} (hsucc : m.next (.item i) = some succ)
    (hpred : m.prev (.item i) = some pred) (hhead : m'.head = m.head)
    (hn : m'.next = update m.next pred (some succ))
    (hp : m'.prev = update m.prev succ (some pred))
    (hmq : m'.mQueue = update m.mQueue (.item i) none)
    (hl : m'.fLength = update m.fLength q (m.fLength q - 1)) :
    MShape m' (update A q (l ++ b)) := by
  have hiq : i ∈ A q := by rw [hA]; simp
  have hlive : m.head q ≠ none := by simp [hm.head_of_mem hiq]
  have hmap : (A q).map .item = l.map .item ++ Node.item (Q := Q) i :: b.map .item := by
    rw [hA, List.map_append, List.map_cons]
  have hnd := (hm.rings.ring q hlive).nodup
  have hrings := hm.rings.erase hlive hmap hsucc hpred
  rw [← hn, ← hp, ← List.map_append, ← nodes_update] at hrings
  refine ⟨fun r => ?_, by rwa [hhead], fun r => ?_, fun r j hj => ?_⟩
  · rw [hhead]
    by_cases hrq : r = q
    · exact .inr (hrq ▸ hm.head_of_mem hiq)
    · rw [update_of_ne hrq]
      exact hm.head r
  · rw [hl]
    by_cases hrq : r = q
    · subst hrq
      rw [update_self, update_self, hm.length, hA]
      simp
      omega
    · rw [update_of_ne hrq, update_of_ne hrq, hm.length]
  · rw [hmq]
    have hjr : j ∈ A r := by
      by_cases hrq : r = q
      · subst hrq
        rw [update_self] at hj
        rw [hA]
        exact ((List.sublist_cons_self i b).append_left l).subset hj
      · rwa [update_of_ne hrq] at hj
    have hji : j ≠ i := by
      -- the nodes of the ring are distinct
      rintro rfl
      obtain rfl := hm.eq_of_mem hjr hiq
      rw [update_self] at hj
      rw [hA] at hnd
      have hperm := (@List.perm_middle _ j l b).nodup_iff.1
        ((List.nodup_cons.1 hnd).2.of_map)
      exact (List.nodup_cons.1 hperm).1 hj
    rw [update_of_ne (fun he => hji (Node.item.inj he))]
    exact hm.marked r j hjr

omit [DecidableEq I] in
/-- An empty queue may lose its sentinel. -/
theorem retire (hm : MShape m A) {q : Q} (hA : A q = []) :
    MShape { m with head := update m.head q none } A := by
  refine ⟨fun r => ?_, hm.rings.mono fun r hr => ?_, hm.length, hm.marked⟩
  · by_cases hrq : r = q
    · subst hrq
      exact .inl ⟨update_self .., hA⟩
    · simpa [update_of_ne hrq] using hm.head r
  · by_cases hrq : r = q
    · subst hrq
      simp at hr
    · simpa [update_of_ne hrq] using hr

end MShape

/-- `mqueue_init`, also of a queue that has members. -/
theorem mqueueInit_spec (hm : MShape m A) (q : Q) : MShape (mqueueInit m q) (update A q []) := by
  have hrings := hm.rings.reset q (MShape.sentinel_not_mem q)
  rw [← List.map_nil (f := Node.item), ← nodes_update] at hrings
  refine ⟨fun r => ?_, hrings.mono fun r hr => ?_, fun r => ?_, fun r i hi => ?_⟩
  · by_cases hrq : r = q
    · subst hrq
      right
      simp [mqueueInit]
    · simpa [mqueueInit, update_of_ne hrq] using hm.head r
  · by_cases hrq : r = q
    · exact .inl hrq
    · right
      simpa [mqueueInit, update_of_ne hrq] using hr
  · by_cases hrq : r = q
    · subst hrq
      simp [mqueueInit]
    · simpa [mqueueInit, update_of_ne hrq] using hm.length r
  · by_cases hrq : r = q
    · subst hrq
      rw [update_self] at hi
      simp at hi
    · rw [update_of_ne hrq] at hi
      exact hm.marked r i hi

/-- A queue that is not initialised is cleared already. -/
theorem mqueueClear_of_none {q : Q} (hq : m.head q = none) : mqueueClear m q = m := by
  simp [mqueueClear, hq]

/-- Clearing a queue is initialising it again, in the sentinel it has. -/
theorem mqueueClear_eq {q : Q} (hq : m.head q = some (.head q)) :
    mqueueClear m q = mqueueInit m q := by
  have hhead : update m.head q (some (.head q)) = m.head := by rw [← hq, update_eq_self]
  simp only [mqueueClear, mqueueInit, hq, hhead]

theorem mqueueClear_spec (hm : MShape m A) (q : Q) : MShape (mqueueClear m q) (update A q []) := by
  rcases hm.head q with ⟨hq, hA⟩ | hq
  · rw [mqueueClear_of_none hq, ← hA, update_eq_self]
    exact hm
  · rw [mqueueClear_eq hq]
    exact mqueueInit_spec hm q

theorem mqueueFree_spec (hm : MShape m A) (q : Q) : MShape (mqueueFree m q) (update A q []) := by
  have hclear := mqueueClear_spec hm q
  unfold mqueueFree
  cases hq : (mqueueClear m q).head q with
  | none => simpa [hq] using hclear
  | some n => simpa [hq] using hclear.retire (update_self ..)

/-- `mqueue_push` has linked an item that no queue has marked. -/
theorem mqueuePush_spec (hm : MShape m A) {q : Q} {i : I}
    (h : mqueuePush m q (some (.item i)) = some m') :
    m.mQueue (.item i) = none ∧ MShape m' (update A q (A q ++ [i])) := by
  have hq : m.head q = some (.head q) := by
    refine (hm.head q).resolve_left fun hq => ?_
    simp [mqueuePush, hq.1] at h
  have hi : m.mQueue (.item i) = none := by
    by_contra hi
    simp [mqueuePush, hq, hi] at h
  have hlive : m.head q ≠ none := by simp [hq]
  have hlast := (hm.rings.ring q hlive).prev_sentinel
  rw [mqueuePush_eq hq hi, CQueue.enQueue, if_neg (by simp [hi]), hlast] at h
  obtain rfl := Option.some_inj.1 h
  refine ⟨hi, hm.link hq hi hlast rfl ?_ ?_ ?_ ?_⟩
  all_goals simp [hlast]

/-- `mqueue_pop` of an empty queue. -/
theorem mqueuePop_of_nil (hm : MShape m A) {q : Q} (hA : A q = []) :
    mqueuePop m q = some (m, none) := by
  simp [mqueuePop, hm.length, hA]

/-- `mqueue_pop` takes out the first item. -/
theorem mqueuePop_spec (hm : MShape m A) {q : Q} {i : I} {L : List I} (hA : A q = i :: L) :
    ∃ m', mqueuePop m q = some (m', some (.item i)) ∧ m'.head = m.head ∧
      MShape m' (update A q L) := by
  have hq : m.head q = some (.head q) := hm.head_of_mem (i := i) (by simp [hA])
  have hring := hm.rings.ring q (by simp [hq])
  rw [hA, List.map_cons, ← List.nil_append (_ :: _)] at hring
  have hfirst : m.next (.head q) = some (.item i) := hring.next_sentinel
  have hpred : m.prev (.item i) = some (.head q) := hring.prev_mid
  obtain ⟨succ, hsucc⟩ : ∃ succ, m.next (.item i) = some succ := ⟨_, hring.next_mid⟩
  have hlen : m.fLength q ≠ 0 := by
    rw [hm.length, hA, List.length_cons]
    omega
  refine ⟨{ m with toHeap := ((m.toHeap.setNext (.head q) (some succ)).setPrev succ
    (some (.head q))).setMQueue (.item i) none |>.setLength q (m.fLength q - 1) }, ?_, rfl,
      hm.unlink (l := []) hA hsucc hpred rfl ?_ ?_ ?_ ?_⟩
  · simp [mqueuePop, hlen, hq, hfirst, hsucc]
  all_goals simp

/-- What `mqueue_remove` has found, and what it has done. -/
theorem mqueueRemove_cases {q : Q} {elem : Option (Node Q I)}
    (h : mqueueRemove m q elem = some m') :
    (m.fLength q ≠ 1 ∧ m' = m) ∨
      ∃ n m₁ r, elem = some n ∧ m.fLength q = 1 ∧ mqueuePop m q = some (m₁, r) ∧
        m' = { m₁ with
          toHeap := (m₁.toHeap.setMQueue n none).setLength q (m₁.fLength q - 1) } := by
  cases elem with
  | none => simp [mqueueRemove] at h
  | some n =>
      simp only [mqueueRemove, Option.bind_eq_bind, Option.bind_some] at h
      split_ifs at h with h₁ h₂ h₃ h₄
      · obtain ⟨⟨m₁, r⟩, hpop, he⟩ := Option.bind_eq_some_iff.1 h
        exact .inr ⟨n, m₁, r, rfl, h₄, hpop, (Option.some_inj.1 he).symm⟩
      · exact .inl ⟨h₄, (Option.some_inj.1 h).symm⟩

/-- A pop that returns has lowered the length, unless it was zero. -/
theorem mqueuePop_fLength {q : Q} {r : Option (Node Q I)} (hl : m.fLength q ≠ 0)
    (h : mqueuePop m q = some (m', r)) : m'.fLength q = m.fLength q - 1 := by
  rw [mqueuePop, if_neg hl] at h
  obtain ⟨head, -, h⟩ := Option.bind_eq_some_iff.1 h
  obtain ⟨item, -, h⟩ := Option.bind_eq_some_iff.1 h
  obtain ⟨succ, -, h⟩ := Option.bind_eq_some_iff.1 h
  obtain ⟨rfl, -⟩ := Prod.ext_iff.1 (Option.some_inj.1 h)
  simp

/-- `mqueue_remove` lowers the length by two, or not at all. -/
theorem mqueueRemove_fLength {q : Q} {elem : Option (Node Q I)}
    (h : mqueueRemove m q elem = some m') :
    m'.fLength q = if m.fLength q = 1 then -1 else m.fLength q := by
  rcases mqueueRemove_cases h with ⟨hl, rfl⟩ | ⟨n, m₁, r, -, hl, hpop, rfl⟩
  · rw [if_neg hl]
  · have hpop' := mqueuePop_fLength (by omega) hpop
    rw [if_pos hl]
    simp
    omega

/-- **Every call keeps the shape**, except the removal from a queue of length one. -/
theorem MCall.step_spec (hm : MShape m A) {c : MCall Q I} (hc : Spares m c)
    (h : mqueueMachine.step m c m') : ∃ A', MShape m' A' := by
  obtain ⟨r, h⟩ := h
  cases c with
  | init q =>
      obtain ⟨rfl, -⟩ := Prod.ext_iff.1 (Option.some_inj.1 h)
      exact ⟨_, mqueueInit_spec hm q⟩
  | push q i =>
      obtain ⟨m₁, hpush, he⟩ := Option.map_eq_some_iff.1 h
      obtain ⟨rfl, -⟩ := Prod.ext_iff.1 he
      exact ⟨_, (mqueuePush_spec hm hpush).2⟩
  | pop q =>
      change mqueuePop m q = _ at h
      cases hA : A q with
      | nil =>
          rw [mqueuePop_of_nil hm hA] at h
          obtain ⟨rfl, -⟩ := Prod.ext_iff.1 (Option.some_inj.1 h)
          exact ⟨A, hm⟩
      | cons i L =>
          obtain ⟨m₁, hpop, -, hm₁⟩ := mqueuePop_spec hm hA
          rw [hpop] at h
          obtain ⟨rfl, -⟩ := Prod.ext_iff.1 (Option.some_inj.1 h)
          exact ⟨_, hm₁⟩
  | clear q =>
      obtain ⟨rfl, -⟩ := Prod.ext_iff.1 (Option.some_inj.1 h)
      exact ⟨_, mqueueClear_spec hm q⟩
  | free q =>
      obtain ⟨rfl, -⟩ := Prod.ext_iff.1 (Option.some_inj.1 h)
      exact ⟨_, mqueueFree_spec hm q⟩
  | remove q elem =>
      obtain ⟨m₁, hremove, he⟩ := Option.map_eq_some_iff.1 h
      obtain ⟨rfl, -⟩ := Prod.ext_iff.1 he
      rcases mqueueRemove_cases hremove with ⟨-, rfl⟩ | ⟨-, -, -, -, hl, -⟩
      · exact ⟨A, hm⟩
      · exact absurd hl (hc q elem rfl)

theorem reachable_mshape (h : (mqueueMachine.restrict Spares).Reachable m) : ∃ A, MShape m A := by
  have hinv : (mqueueMachine.restrict Spares).Invariant fun m : MHeap Q I => ∃ A, MShape m A := by
    refine ⟨?_, ?_⟩
    · rintro m rfl
      exact ⟨_, mshape_blank⟩
    · rintro m c m' ⟨A, hm⟩ ⟨hs, hc⟩
      exact MCall.step_spec hm hc hs
  exact hinv.reachable h

end

/-! ### What `mqueue_remove` does -/

/-- What removing the member `elem` of `q` should do: unlink it, keep the others in their order, and
set `mQueue` and `fLength` right. -/
structure RemoveLaw (m m' : MHeap Q I) (q : Q) (elem : Node Q I) : Prop where
  unlinked : ∀ L, Ring.IsRing m.next m.prev (.head q) L →
    Ring.IsRing m'.next m'.prev (.head q) (L.erase elem)
  mQueue : m'.mQueue elem = none
  fLength : m'.fLength q = m.fLength q - 1

/-- No length is negative, and no pop returns a sentinel. -/
def Sound (m : MHeap Q I) : Prop :=
  ∀ q, 0 ≤ m.fLength q ∧ ∀ m' r, mqueuePop m q ≠ some (m', some (.head r))

section

variable {m m' : MHeap Q I} {A : Q → List I}

theorem MShape.sound (hm : MShape m A) : Sound m := by
  intro q
  refine ⟨by rw [hm.length]; omega, fun m' r h => ?_⟩
  cases hA : A q with
  | nil =>
      rw [mqueuePop_of_nil hm hA] at h
      simp at h
  | cons i L =>
      obtain ⟨m₁, hpop, -, -⟩ := mqueuePop_spec hm hA
      rw [hpop] at h
      simp at h

/-- A removal from a queue of length one leaves a negative length. -/
theorem not_sound {c : MCall Q I} (h : mqueueMachine.step m c m') (hc : ¬ Spares m c) :
    ¬ Sound m' := by
  obtain ⟨q, hc⟩ := not_forall.1 hc
  obtain ⟨elem, hc⟩ := not_forall.1 hc
  obtain ⟨rfl, hl⟩ := Classical.not_imp.1 hc
  obtain ⟨r, h⟩ := h
  obtain ⟨m₁, hremove, he⟩ := Option.map_eq_some_iff.1 h
  obtain ⟨rfl, -⟩ := Prod.ext_iff.1 he
  have hlen := mqueueRemove_fLength hremove
  rw [if_pos (not_not.1 hl)] at hlen
  intro hs
  have hpos : 0 ≤ m₁.fLength q := (hs q).1
  omega

/-- The only member of a queue is removed, and the next pop returns the sentinel. -/
theorem mqueueRemove_only (hm : MShape m A) {q : Q} {i : I} (hA : A q = [i]) :
    ∃ m', mqueueRemove m q (some (.item i)) = some m' ∧
      Ring.IsRing m'.next m'.prev (.head q) [] ∧ m'.mQueue (.item i) = none ∧
      m'.fLength q = -1 ∧ ∃ m'', mqueuePop m' q = some (m'', some (.head q)) := by
  have hi : i ∈ A q := by simp [hA]
  have hhead := hm.head_of_mem hi
  have hl : m.fLength q = 1 := by simp [hm.length, hA]
  obtain ⟨m₁, hpop, hhead₁, hm₁⟩ := mqueuePop_spec hm hA
  have hhead' : m₁.head q = some (.head q) := by rw [hhead₁, hhead]
  have hring := hm₁.rings.ring q (by simp [hhead'])
  have hl₁ : m₁.fLength q = 0 := by simp [hm₁.length]
  rw [update_self, List.map_nil] at hring
  have hnext : m₁.next (.head q) = some (.head q) := hring.next_sentinel
  have hexec : mqueueRemove m q (some (.item i)) = some { m₁ with
      toHeap := (m₁.toHeap.setMQueue (.item i) none).setLength q (m₁.fLength q - 1) } := by
    simp [mqueueRemove, hm.marked q i hi, hhead, hl, hpop]
  refine ⟨_, hexec, hring, ?_, ?_, ?_⟩
  · simp
  · simp [hl₁]
  · simp [mqueuePop, hl₁, hhead', hnext]

/-- A member of a longer queue stays where it is. -/
theorem mqueueRemove_among (hm : MShape m A) {q : Q} {i : I} (hi : i ∈ A q) (hA : A q ≠ [i]) :
    mqueueRemove m q (some (.item i)) = some m := by
  have hl : m.fLength q ≠ 1 := by
    rw [hm.length]
    intro h1
    obtain ⟨j, hj⟩ := List.length_eq_one_iff.1 (by exact_mod_cast h1)
    rw [hj] at hi hA
    exact hA (by rw [List.mem_singleton.1 hi])
  simp [mqueueRemove, hm.marked q i hi, hm.head_of_mem hi, hl]

end

/-- **`mqueue_remove` never removes an item as it should**: whatever the memory is, what it leaves
breaks the law.  In a queue that has been used without such a removal, an item that is the only
member is unlinked and unmarked, but then `fLength` is -1 and the next `mqueue_pop` returns the
sentinel; any other member stays.  Along a run no length is negative and no pop can return a
sentinel exactly as long as nothing is removed from a queue of length one. -/
theorem mqueue_remove_law :
    (∀ (m : MHeap Q I) (q : Q) (elem : Node Q I),
      ¬ ∃ m', mqueueRemove m q (some elem) = some m' ∧ RemoveLaw m m' q elem) ∧
    (∀ m : MHeap Q I, (mqueueMachine.restrict Spares).Reachable m →
      ∀ q, m.head q ≠ none → ∃ L : List I,
        Ring.IsRing m.next m.prev (.head q) (L.map .item) ∧ m.fLength q = L.length ∧
        ∀ i ∈ L, m.mQueue (.item i) = some q ∧
          if L = [i] then
            ∃ m', mqueueRemove m q (some (.item i)) = some m' ∧
              Ring.IsRing m'.next m'.prev (.head q) [] ∧ m'.mQueue (.item i) = none ∧
              m'.fLength q = -1 ∧ ∃ m'', mqueuePop m' q = some (m'', some (.head q))
          else mqueueRemove m q (some (.item i)) = some m) ∧
    ∀ (tr : List (MHeap Q I × MCall Q I)) (m : MHeap Q I), mqueueMachine.Run MHeap.blank tr m →
      ((∀ s ∈ Machine.visited tr m, Sound s) ↔ ∀ p ∈ tr, Spares p.1 p.2) := by
  refine ⟨?_, fun m h q hq => ?_, fun tr m h => ?_⟩
  · rintro m q elem ⟨m', h, hlaw⟩
    have hlen := mqueueRemove_fLength h
    rw [hlaw.fLength] at hlen
    split_ifs at hlen <;> omega
  · obtain ⟨A, hm⟩ := reachable_mshape h
    refine ⟨A q, hm.rings.ring q hq, hm.length q, fun i hi => ⟨hm.marked q i hi, ?_⟩⟩
    split_ifs with hA
    · exact mqueueRemove_only hm hA
    · exact mqueueRemove_among hm hi hA
  · refine h.forall_visited_iff (fun s hs => ?_) (fun s c s' _ hs hc => not_sound hs hc) rfl
    obtain ⟨A, hs⟩ := reachable_mshape hs
    exact hs.sound

/-- The one item of a queue is removed: `fLength` is -1, and a pop returns the sentinel. -/
theorem mqueue_remove_twice : ∃ m m' m'' : MHeap Unit ℕ,
    mqueuePush (mqueueInit MHeap.blank ()) () (some (.item 0)) = some m ∧
    mqueueRemove m () (some (.item 0)) = some m' ∧ m.fLength () = 1 ∧ m'.fLength () = -1 ∧
    mqueuePop m' () = some (m'', some (.head ())) ∧ ¬ RemoveLaw m m' () (.item 0) := by
  refine ⟨_, _, _, rfl, rfl, rfl, rfl, rfl, fun hlaw => ?_⟩
  exact absurd hlaw.fLength (by decide)

/-! ### The end of a queue -/

/-- `CQueue`s and their items in memory, and which of the queues are no more. -/
structure CQueues (Q I : Type) where
  heap : Heap Q I
  destroyed : Q → Bool

/-- A call, or the end of a queue. -/
inductive CCall (Q I : Type) where
  | call (c : Call Q I)
  | destroy (q : Q)

/-- The queue a call works on still exists. -/
def Call.Live (s : CQueues Q I) : Call Q I → Prop
  | .enQueue q _ => s.destroyed q = false
  | .deQueue q => s.destroyed q = false
  | .remove q _ => s.destroyed q = false
  | .itemRemove item => ∀ q, s.heap.mQueue item = some q → s.destroyed q = false

/-- Sequences of calls on queues that exist, from the memory the constructors leave. -/
def cqueueMachine : Machine (CQueues Q I) (CCall Q I) where
  init s := s = ⟨Heap.init, fun _ => false⟩
  step
    | s, .call c, s' => c.Live s ∧ (∃ r, c.exec s.heap = some (s'.heap, r)) ∧
        s'.destroyed = s.destroyed
    | s, .destroy q, s' => s.destroyed q = false ∧ CQueue.destroy s.heap q = some s'.heap ∧
        s'.destroyed = update s.destroyed q true

section

variable {m : MHeap Q I}

omit [DecidableEq Q] [DecidableEq I] in
/-- A destructor changes no memory. -/
theorem destroy_eq {h h' : Heap Q I} {q : Q} (hd : CQueue.destroy h q = some h') : h' = h := by
  unfold CQueue.destroy CQueueItem.destroy at hd
  split_ifs at hd
  exact (Option.some_inj.1 hd).symm

/-- The memory of a queue that is no more keeps its shape: nobody writes there. -/
theorem reachable_shape {s : CQueues Q I} (h : cqueueMachine.Reachable s) :
    ∃ A, Shape s.heap A := by
  have hinv : cqueueMachine.Invariant fun s : CQueues Q I => ∃ A, Shape s.heap A := by
    refine ⟨?_, ?_⟩
    · rintro s rfl
      exact ⟨_, shape_init⟩
    · rintro s c s' ⟨A, hs⟩ hstep
      cases c with
      | call c =>
          obtain ⟨-, ⟨r, hexec⟩, -⟩ := hstep
          obtain ⟨h', hexec', hs'⟩ := c.exec_spec hs
          rw [hexec] at hexec'
          obtain ⟨rfl, -⟩ := Prod.ext_iff.1 (Option.some_inj.1 hexec')
          exact ⟨_, hs'⟩
      | destroy q =>
          rw [destroy_eq hstep.2.1]
          exact ⟨A, hs⟩
  exact hinv.reachable h

/-- `mqueue_clear` touches no item. -/
theorem mqueueClear_mQueue (m : MHeap Q I) (q : Q) : (mqueueClear m q).mQueue = m.mQueue := by
  unfold mqueueClear
  split <;> rfl

/-- `mqueue_free` touches no item. -/
theorem mqueueFree_mQueue (m : MHeap Q I) (q : Q) : (mqueueFree m q).mQueue = m.mQueue := by
  rw [← mqueueClear_mQueue m q]
  unfold mqueueFree
  cases hq : (mqueueClear m q).head q <;> simp [hq]

omit [DecidableEq Q] [DecidableEq I] in
/-- The members of a list are all unmarked only if there are none. -/
theorem unmarked_iff {mQueue : Node Q I → Option Q} {q : Q} {L : List I}
    (hL : ∀ i ∈ L, mQueue (.item i) = some q) : (∀ i ∈ L, mQueue (.item i) = none) ↔ L = [] := by
  constructor
  · intro hnone
    refine List.eq_nil_iff_forall_not_mem.2 fun i hi => ?_
    have hi' := hnone i hi
    rw [hL i hi] at hi'
    exact absurd hi' (by simp)
  · rintro rfl
    simp

end

/-- **Which queues leave their items fit for use when they end.**  An `MQUEUE` that has been used
without the removal of `VModule.mqueue_remove_law` holds a list of items, and so does every `CQueue`
that exists.  After `mqueue_clear`, after `mqueue_free`, and after the destruction of the `CQueue`,
all items that were in the list have `mQueue` equal to null exactly if there were none.  An item
that was there cannot be pushed, is ignored by `EnQueue`, and fails the assertion of its destructor.
-/
theorem teardown_iff :
    (∀ m : MHeap Q I, (mqueueMachine.restrict Spares).Reachable m → ∀ q, m.head q ≠ none →
      ∃ L : List I, Ring.IsRing m.next m.prev (.head q) (L.map .item) ∧
        m.fLength q = L.length ∧ (∀ i ∈ L, m.mQueue (.item i) = some q) ∧
        ((∀ i ∈ L, (mqueueClear m q).mQueue (.item i) = none) ↔ L = []) ∧
        ((∀ i ∈ L, (mqueueFree m q).mQueue (.item i) = none) ↔ L = []) ∧
        ∀ i ∈ L, ∀ r, mqueuePush (mqueueClear m q) r (some (.item i)) = none ∧
          mqueuePush (mqueueFree m q) r (some (.item i)) = none) ∧
    ∀ s : CQueues Q I, cqueueMachine.Reachable s → ∀ q, s.destroyed q = false →
      ∃ (L : List I) (s' : CQueues Q I), Represents s.heap q L ∧
        cqueueMachine.step s (.destroy q) s' ∧
        ((∀ i ∈ L, s'.heap.mQueue (.item i) = none) ↔ L = []) ∧
        ∀ i ∈ L, CQueueItem.destroy s'.heap (.item i) = none ∧
          ∀ r, CQueue.enQueue s'.heap r (.item i) = some s'.heap := by
  constructor
  · intro m h q hq
    obtain ⟨A, hm⟩ := reachable_mshape h
    have hmarked := hm.marked q
    refine ⟨A q, hm.rings.ring q hq, hm.length q, hmarked, ?_, ?_, fun i hi r => ⟨?_, ?_⟩⟩
    · rw [mqueueClear_mQueue]
      exact unmarked_iff hmarked
    · rw [mqueueFree_mQueue]
      exact unmarked_iff hmarked
    · cases hr : (mqueueClear m q).head r <;>
        simp [mqueuePush, hr, mqueueClear_mQueue, hmarked i hi]
    · cases hr : (mqueueFree m q).head r <;>
        simp [mqueuePush, hr, mqueueFree_mQueue, hmarked i hi]
  · intro s h q hq
    obtain ⟨A, hs⟩ := reachable_shape h
    have hrep := hs.represents q
    have hmarked : ∀ i ∈ A q, s.heap.mQueue (.item i) = some q := fun i hi => (hrep.member i).2 hi
    refine ⟨A q, ⟨s.heap, update s.destroyed q true⟩, hrep, ⟨hq, ?_, rfl⟩, unmarked_iff hmarked,
      fun i hi => ⟨?_, fun r => ?_⟩⟩
    · simp [CQueue.destroy, CQueueItem.destroy, hs.sentinel q]
    · simp [CQueueItem.destroy, hmarked i hi]
    · simp [CQueue.enQueue, hmarked i hi]

/-- An item is in a queue that ends: it is still marked, cannot be pushed, is ignored by `EnQueue`,
and fails the assertion of its destructor. -/
theorem teardown_leaves_marks :
    (∃ m : MHeap Unit ℕ, mqueuePush (mqueueInit MHeap.blank ()) () (some (.item 0)) = some m ∧
      (mqueueClear m ()).mQueue (.item 0) = some () ∧
      (mqueueFree m ()).mQueue (.item 0) = some () ∧
      mqueuePush (mqueueClear m ()) () (some (.item 0)) = none) ∧
    ∃ h h' : Heap Bool ℕ, CQueue.enQueue Heap.init false (.item 0) = some h ∧
      CQueue.destroy h false = some h' ∧ h'.mQueue (.item 0) = some false ∧
      CQueue.enQueue h' true (.item 0) = some h' ∧ CQueueItem.destroy h' (.item 0) = none :=
  ⟨⟨_, rfl, rfl, rfl, rfl⟩, _, _, rfl, rfl, rfl, rfl, rfl⟩

end VModule
