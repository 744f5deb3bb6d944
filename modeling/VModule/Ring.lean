/-
**Cyclic doubly linked lists with a sentinel.**

The nodes come from any type and the links are two functions `next` and `prev` from nodes to
nullable pointers.  A ring is a sentinel `s` with a list `l` of other nodes such that following
`next` from `s` visits exactly `l` and comes back to `s`, and following `prev` visits the same
nodes in the reverse order.  Only the links of `s` and of the nodes of `l` matter: the rest of the
heap may hold anything, stale pointers included.

Main definitions:

* `Ring.Path` — following one link function from a node visits a list of nodes and reaches a node;
* `Ring.IsRing` — the links form a ring;
* `Ring.Rings` — the links form a family of rings that have no node in common.

Main results:

* `Ring.IsRing.insertLast` — the four writes that link a new node in front of the sentinel;
* `Ring.IsRing.erase` — the two writes that unlink a node, wherever it stands;
* `Ring.IsRing.congr` — a ring does not depend on the links of other nodes;
* `Ring.IsRing.unique` — the links determine the list;
* `Ring.IsRing.next_eq_iff` — within a ring, `prev` is the inverse of `next`;
* `Ring.Rings.insertLast`, `Ring.Rings.erase`, `Ring.Rings.reset` — the same writes, and the two
  that empty a ring, leave the other rings alone.
-/

import Mathlib.Data.List.Nodup
import Mathlib.Logic.Function.Basic

set_option relaxedAutoImplicit false
set_option autoImplicit false

universe u v

namespace Ring

open Function

variable {α : Type u}

/-! ### Paths along one link function -/

/-- Following `f` from `a` visits exactly the nodes of `l`, in that order, and then reaches `b`. -/
def Path (f : α → Option α) : α → List α → α → Prop
  | a, [], b => f a = some b
  | a, x :: l, b => f a = some x ∧ Path f x l b

/-- A path through a node is a path to it and a path from it. -/
theorem path_append {f : α → Option α} {a x b : α} {l m : List α} :
    Path f a (l ++ x :: m) b ↔ Path f a l x ∧ Path f x m b := by
  induction l generalizing a with
  | nil => rfl
  | cons y l ih =>
      simp only [List.cons_append, Path, ih]
      exact and_assoc.symm

/-- A path only reads the links of its start and of the nodes it visits. -/
theorem Path.congr {f g : α → Option α} {a b : α} {l : List α} (h : Path f a l b)
    (hfg : ∀ y ∈ a :: l, g y = f y) : Path g a l b := by
  induction l generalizing a with
  | nil =>
      change g a = some b
      rw [hfg a (by simp)]
      exact h
  | cons y l ih =>
      refine ⟨?_, ih h.2 fun z hz => hfg z (List.mem_cons_of_mem _ hz)⟩
      rw [hfg a (by simp)]
      exact h.1

/-- The first link of a path. -/
theorem Path.first {f : α → Option α} {a b : α} {l : List α} (h : Path f a l b) :
    f a = some (l.headD b) := by
  cases l with
  | nil => exact h
  | cons y l => exact h.1

/-- The node before the end of a path is its start or one of the nodes visited. -/
theorem getLastD_mem (a : α) (l : List α) : l.getLastD a ∈ a :: l := by
  induction l generalizing a with
  | nil => simp
  | cons y l ih =>
      rw [List.getLastD_cons]
      exact List.mem_cons_of_mem _ (ih y)

/-- Rewriting the last link of a path redirects the path. -/
theorem Path.retarget [DecidableEq α] {f : α → Option α} {a b : α} {l : List α}
    (h : Path f a l b) (hnd : (a :: l).Nodup) (c : α) :
    Path (update f (l.getLastD a) (some c)) a l c := by
  induction l generalizing a with
  | nil => exact update_self a (some c) f
  | cons y l ih =>
      obtain ⟨hay, hnd'⟩ := List.nodup_cons.1 hnd
      rw [List.getLastD_cons]
      refine ⟨?_, ih h.2 hnd'⟩
      have hne : a ≠ l.getLastD y := fun he => hay (he ▸ getLastD_mem y l)
      rw [update_of_ne hne]
      exact h.1

/-- A path to a node it does not visit is determined by its ends. -/
theorem Path.unique {f : α → Option α} {a b : α} {l m : List α} (hl : Path f a l b)
    (hm : Path f a m b) (hbl : b ∉ l) (hbm : b ∉ m) : l = m := by
  induction l generalizing a m with
  | nil =>
      cases m with
      | nil => rfl
      | cons z m =>
          have hz : some b = some z := hl.symm.trans hm.1
          exact absurd (Option.some_inj.1 hz) fun he => hbm (by simp [he])
  | cons y l ih =>
      cases m with
      | nil =>
          have hy : some y = some b := hl.1.symm.trans hm
          exact absurd (Option.some_inj.1 hy) fun he => hbl (by simp [he])
      | cons z m =>
          obtain rfl : y = z := Option.some_inj.1 (hl.1.symm.trans hm.1)
          rw [ih hl.2 hm.2 (fun h => hbl (List.mem_cons_of_mem _ h))
            (fun h => hbm (List.mem_cons_of_mem _ h))]

/-! ### Rings -/

/-- The links form a ring: a sentinel `s` and the nodes `l`, pairwise distinct. -/
structure IsRing (next prev : α → Option α) (s : α) (l : List α) : Prop where
  forward : Path next s l s
  backward : Path prev s l.reverse s
  nodup : (s :: l).Nodup

variable {next prev : α → Option α} {s : α} {l m : List α}

/-- A sentinel that points at itself is the empty ring. -/
theorem IsRing.nil (hn : next s = some s) (hp : prev s = some s) : IsRing next prev s [] where
  forward := hn
  backward := hp
  nodup := by simp

/-- Exchanging the two link functions reverses the ring. -/
theorem IsRing.symm (h : IsRing next prev s l) : IsRing prev next s l.reverse where
  forward := h.backward
  backward := by rw [List.reverse_reverse]; exact h.forward
  nodup := by
    have := h.nodup
    rw [List.nodup_cons] at this ⊢
    simpa using this

/-- A ring does not depend on the links of nodes outside it. -/
theorem IsRing.congr (h : IsRing next prev s l) {next' prev' : α → Option α}
    (hn : ∀ y ∈ s :: l, next' y = next y) (hp : ∀ y ∈ s :: l, prev' y = prev y) :
    IsRing next' prev' s l where
  forward := h.forward.congr hn
  backward := h.backward.congr fun y hy => hp y (by simpa using hy)
  nodup := h.nodup

/-- The links determine the list. -/
theorem IsRing.unique (hl : IsRing next prev s l) (hm : IsRing next prev s m) : l = m :=
  hl.forward.unique hm.forward (List.nodup_cons.1 hl.nodup).1 (List.nodup_cons.1 hm.nodup).1

/-- The sentinel points at the first node. -/
theorem IsRing.next_sentinel (h : IsRing next prev s l) : next s = some (l.headD s) :=
  h.forward.first

/-- The sentinel points back at the last node. -/
theorem IsRing.prev_sentinel (h : IsRing next prev s l) : prev s = some (l.getLastD s) := by
  have := h.symm.next_sentinel
  rwa [List.headD_eq_head?_getD, List.head?_reverse, ← List.getLastD_eq_getLast?] at this

/-- The successor of a node of the ring. -/
theorem IsRing.next_mid {x : α} (h : IsRing next prev s (l ++ x :: m)) :
    next x = some (m.headD s) :=
  (path_append.1 h.forward).2.first

/-- The predecessor of a node of the ring. -/
theorem IsRing.prev_mid {x : α} (h : IsRing next prev s (l ++ x :: m)) :
    prev x = some (l.getLastD s) := by
  have hs : IsRing prev next s (m.reverse ++ x :: l.reverse) := by
    have := h.symm
    simpa using this
  have := hs.next_mid
  rwa [List.headD_eq_head?_getD, List.head?_reverse, ← List.getLastD_eq_getLast?] at this

/-- Following `next` and then `prev` comes back, within the ring. -/
theorem IsRing.prev_next (h : IsRing next prev s l) {x : α} (hx : x ∈ s :: l) :
    ∃ y, next x = some y ∧ prev y = some x := by
  rcases List.mem_cons.1 hx with rfl | hx
  · refine ⟨_, h.next_sentinel, ?_⟩
    cases l with
    | nil => exact h.prev_sentinel
    | cons y l => exact h.prev_mid (l := [])
  · obtain ⟨a, b, rfl⟩ := List.append_of_mem hx
    refine ⟨_, h.next_mid, ?_⟩
    cases b with
    | nil =>
        rw [List.headD_nil, h.prev_sentinel]
        simp
    | cons y b =>
        have hy : IsRing next prev s ((a ++ [x]) ++ y :: b) := by simpa using h
        rw [List.headD_cons, hy.prev_mid]
        simp

/-- **Within a ring, `prev` is the inverse of `next`.** -/
theorem IsRing.next_eq_iff (h : IsRing next prev s l) {x y : α} (hx : x ∈ s :: l)
    (hy : y ∈ s :: l) : next x = some y ↔ prev y = some x := by
  constructor
  · intro hn
    obtain ⟨z, hz, hp⟩ := h.prev_next hx
    obtain rfl := Option.some_inj.1 (hn.symm.trans hz)
    exact hp
  · intro hp
    obtain ⟨z, hz, hn⟩ := h.symm.prev_next (x := y) (by simpa using hy)
    obtain rfl := Option.some_inj.1 (hp.symm.trans hz)
    exact hn

variable [DecidableEq α]

/-- Skipping a node of a closed path: its predecessor is linked to its successor. -/
theorem Path.skip {f : α → Option α} {x : α} (h : Path f s (l ++ x :: m) s)
    (hnd : (s :: (l ++ x :: m)).Nodup) :
    Path (update f (l.getLastD s) (some (m.headD s))) s (l ++ m) s := by
  obtain ⟨hl, hm⟩ := path_append.1 h
  have hsub : (s :: l).Nodup := by
    rw [← List.cons_append] at hnd
    exact hnd.of_append_left
  have hl' := hl.retarget hsub (m.headD s)
  cases m with
  | nil => simpa using hl'
  | cons y m =>
      refine path_append.2 ⟨hl', hm.2.congr fun z hz => update_of_ne ?_ _ _⟩
      rintro rfl
      -- the predecessor of `x` stands before `x`, so it is not one of the nodes after it
      rw [← List.cons_append] at hnd
      exact (List.nodup_append.1 hnd).2.2 _ (getLastD_mem s l) _ (List.mem_cons_of_mem _ hz) rfl

/-- **Unlinking a node**: its predecessor and its successor are linked to each other. -/
theorem IsRing.erase {x n p : α} (h : IsRing next prev s (l ++ x :: m)) (hn : next x = some n)
    (hp : prev x = some p) :
    IsRing (update next p (some n)) (update prev n (some p)) s (l ++ m) := by
  obtain rfl : n = m.headD s := Option.some_inj.1 (hn.symm.trans h.next_mid)
  obtain rfl : p = l.getLastD s := Option.some_inj.1 (hp.symm.trans h.prev_mid)
  refine ⟨h.forward.skip h.nodup, ?_, ?_⟩
  · -- backwards it is the same skip, in the reversed ring
    have hs : IsRing prev next s (m.reverse ++ x :: l.reverse) := by
      have := h.symm
      simpa using this
    have hskip := hs.forward.skip hs.nodup
    rw [List.headD_eq_head?_getD, List.head?_reverse, ← List.getLastD_eq_getLast?,
      List.getLastD_eq_getLast?, List.getLast?_reverse, ← List.headD_eq_head?_getD] at hskip
    rwa [List.reverse_append]
  · have hsub : (l ++ m).Sublist (l ++ x :: m) := (List.sublist_cons_self x m).append_left l
    exact h.nodup.sublist (hsub.cons_cons s)

/-- **Linking a new node** between the last node and the sentinel. -/
theorem IsRing.insertLast {x p : α} (h : IsRing next prev s l) (hx : x ∉ s :: l)
    (hp : prev s = some p) :
    IsRing (update (update next p (some x)) x (some s))
      (update (update prev x (some p)) s (some x)) s (l ++ [x]) := by
  obtain rfl : p = l.getLastD s := Option.some_inj.1 (hp.symm.trans h.prev_sentinel)
  have hne : ∀ y ∈ s :: l, y ≠ x := fun y hy he => hx (he ▸ hy)
  have hsx : x ≠ s := fun he => hx (by simp [he])
  refine ⟨?_, ?_, ?_⟩
  · refine path_append.2 ⟨?_, update_self ..⟩
    exact (h.forward.retarget h.nodup x).congr fun y hy => update_of_ne (hne y hy) _ _
  · rw [List.reverse_append, List.reverse_singleton]
    refine ⟨update_self .., ?_⟩
    -- the new node takes over the old backward link of the sentinel
    have hxl : update (update prev x (some (l.getLastD s))) s (some x) x = prev s := by
      rw [update_of_ne hsx, update_self, hp]
    have hb := h.backward
    have hnd := h.nodup
    have hrev : ∀ y ∈ l.reverse, y ≠ s ∧ y ≠ x := by
      intro y hy
      have hyl : y ∈ l := List.mem_reverse.1 hy
      exact ⟨fun he => (List.nodup_cons.1 hnd).1 (he ▸ hyl), hne y (List.mem_cons_of_mem _ hyl)⟩
    cases hr : l.reverse with
    | nil =>
        rw [hr] at hb
        exact hxl.trans hb
    | cons y r =>
        rw [hr] at hb hrev
        refine ⟨hxl.trans hb.1, hb.2.congr fun z hz => ?_⟩
        rw [update_of_ne (hrev z hz).1, update_of_ne (hrev z hz).2]
  · have hperm : List.Perm (s :: (l ++ [x])) (x :: s :: l) := by
      have := @List.perm_append_comm _ (s :: l) [x]
      simpa using this
    exact hperm.nodup_iff.2 (List.nodup_cons.2 ⟨hx, h.nodup⟩)

/-! ### Families of rings -/

/-- For the indices in `live`, rings with sentinels `sent` and nodes `L`; no two have a node in
common. -/
structure Rings {ι : Type v} (next prev : α → Option α) (live : ι → Prop) (sent : ι → α)
    (L : ι → List α) : Prop where
  ring : ∀ q, live q → IsRing next prev (sent q) (L q)
  disjoint : ∀ q r y, live q → live r → y ∈ sent q :: L q → y ∈ sent r :: L r → q = r

namespace Rings

variable {ι : Type v} {live live' : ι → Prop} {sent : ι → α} {L : ι → List α}

omit [DecidableEq α] in
/-- Some rings are forgotten. -/
theorem mono (h : Rings next prev live sent L) (hlive : ∀ q, live' q → live q) :
    Rings next prev live' sent L where
  ring q hq := h.ring q (hlive q hq)
  disjoint q r y hq hr := h.disjoint q r y (hlive q hq) (hlive r hr)

omit [DecidableEq α] in
/-- One ring is replaced by a ring without the nodes of the others, and these are left alone. -/
theorem replace [DecidableEq ι] (h : Rings next prev live sent L) {q : ι} {l' : List α}
    {next' prev' : α → Option α} (hq : IsRing next' prev' (sent q) l')
    (hout : ∀ r, live r → r ≠ q → ∀ y ∈ sent r :: L r,
      y ∉ sent q :: l' ∧ next' y = next y ∧ prev' y = prev y) :
    Rings next' prev' (fun r => r = q ∨ live r) sent (update L q l') := by
  refine ⟨fun r hr => ?_, fun r r' y hr hr' hy hy' => ?_⟩
  · by_cases hrq : r = q
    · subst hrq
      rwa [update_self]
    · rw [update_of_ne hrq]
      have hlr := hr.resolve_left hrq
      exact (h.ring r hlr).congr (fun y hy => (hout r hlr hrq y hy).2.1)
        fun y hy => (hout r hlr hrq y hy).2.2
  · by_cases hrq : r = q
    · by_cases hrq' : r' = q
      · rw [hrq, hrq']
      · subst hrq
        rw [update_self] at hy
        rw [update_of_ne hrq'] at hy'
        exact absurd hy (hout r' (hr'.resolve_left hrq') hrq' y hy').1
    · rw [update_of_ne hrq] at hy
      by_cases hrq' : r' = q
      · subst hrq'
        rw [update_self] at hy'
        exact absurd hy' (hout r (hr.resolve_left hrq) hrq y hy).1
      · rw [update_of_ne hrq'] at hy'
        exact h.disjoint r r' y (hr.resolve_left hrq) (hr'.resolve_left hrq') hy hy'

variable [DecidableEq ι]

/-- **Linking a node that is in no ring** at the end of one of them. -/
theorem insertLast (h : Rings next prev live sent L) {q : ι} (hq : live q) {x p : α}
    (hx : ∀ r, live r → x ∉ sent r :: L r) (hp : prev (sent q) = some p) :
    Rings (update (update next p (some x)) x (some (sent q)))
      (update (update prev x (some p)) (sent q) (some x)) live sent (update L q (L q ++ [x])) := by
  have hring := h.ring q hq
  have hpmem : p ∈ sent q :: L q := by
    obtain rfl := Option.some_inj.1 (hp.symm.trans hring.prev_sentinel)
    exact getLastD_mem _ _
  refine (h.replace (hring.insertLast (hx q hq) hp) fun r hr hrq y hy => ?_).mono fun r => Or.inr
  have hyq : y ∉ sent q :: L q := fun hyq => hrq (h.disjoint r q y hr hq hy hyq)
  have hyx : y ≠ x := fun he => hx r hr (he ▸ hy)
  have hyp : y ≠ p := fun he => hyq (he ▸ hpmem)
  have hys : y ≠ sent q := fun he => hyq (by simp [he])
  refine ⟨?_, ?_, ?_⟩
  · rw [← List.cons_append, List.mem_append, List.mem_singleton]
    exact fun hor => hor.elim hyq hyx
  · rw [update_of_ne hyx, update_of_ne hyp]
  · rw [update_of_ne hys, update_of_ne hyx]

/-- **Unlinking a node** of one of the rings. -/
theorem erase (h : Rings next prev live sent L) {q : ι} (hq : live q) {x n p : α}
    (hL : L q = l ++ x :: m) (hn : next x = some n) (hp : prev x = some p) :
    Rings (update next p (some n)) (update prev n (some p)) live sent (update L q (l ++ m)) := by
  have hring := h.ring q hq
  have hnmem : n ∈ sent q :: L q := by
    rw [hL] at hring ⊢
    obtain rfl := Option.some_inj.1 (hn.symm.trans hring.next_mid)
    cases m <;> simp
  have hpmem : p ∈ sent q :: L q := by
    rw [hL] at hring ⊢
    obtain rfl := Option.some_inj.1 (hp.symm.trans hring.prev_mid)
    have hlast := getLastD_mem (sent q) l
    rw [← List.cons_append]
    exact List.mem_append_left _ hlast
  rw [hL] at hring
  refine (h.replace (hring.erase hn hp) fun r hr hrq y hy => ?_).mono fun r => Or.inr
  have hyq : y ∉ sent q :: L q := fun hyq => hrq (h.disjoint r q y hr hq hy hyq)
  have hyp : y ≠ p := fun he => hyq (he ▸ hpmem)
  have hyn : y ≠ n := fun he => hyq (he ▸ hnmem)
  have hsub : (l ++ m).Sublist (L q) := by
    rw [hL]
    exact (List.sublist_cons_self x m).append_left l
  refine ⟨fun hor => hyq ?_, update_of_ne hyp _ _, update_of_ne hyn _ _⟩
  exact (hsub.cons_cons (sent q)).subset hor

/-- **Emptying a ring, or making one**: a sentinel that is in no other ring points at itself. -/
theorem reset (h : Rings next prev live sent L) (q : ι)
    (hq : ∀ r, live r → r ≠ q → sent q ∉ sent r :: L r) :
    Rings (update next (sent q) (some (sent q))) (update prev (sent q) (some (sent q)))
      (fun r => r = q ∨ live r) sent (update L q []) := by
  refine h.replace (.nil (update_self ..) (update_self ..)) fun r hr hrq y hy => ?_
  have hys : y ≠ sent q := fun he => hq r hr hrq (he ▸ hy)
  exact ⟨by simpa using hys, update_of_ne hys _ _, update_of_ne hys _ _⟩

end Rings

end Ring
