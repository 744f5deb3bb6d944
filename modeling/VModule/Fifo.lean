/-
**The interface of a first-in first-out queue.**

A queue implementation has a memory of its own, operations on it that may fail, and a relation
that says which list the memory holds.  A `Fifo` packs these with the proofs that the operations
do what a queue is for, so that what is built on a queue is verified once, for every
implementation.

Main definitions:

* `Fifo` — a verified queue implementation;
* `Fifo.Request`, `Fifo.run` — what a user asks of a queue, and the answers to a sequence of
  requests;
* `Fifo.Permits` — a sequence pushes only items that are in no queue.

Main results:

* `Fifo.holds_of_push`, `Fifo.of_pop` — what an operation that succeeds leaves behind;
* `Fifo.run_spec` — an implementation answers as the list does;
* `Fifo.agree` — **two implementations answer the same**.
-/

import Mathlib.Data.List.Basic

set_option relaxedAutoImplicit false
set_option autoImplicit false

/-- A verified queue implementation for items of type `ι`. -/
structure Fifo (ι : Type) where
  /-- The memory the implementation works on. -/
  Mem : Type
  /-- The memory of an empty queue. -/
  empty : Mem
  push : Mem → ι → Option Mem
  pop : Mem → Option (Mem × Option ι)
  length : Mem → Int
  /-- The item is in no queue, as far as the memory tells. -/
  Free : Mem → ι → Prop
  /-- The memory holds this list of items, first in first. -/
  Holds : Mem → List ι → Prop
  holds_empty : Holds empty []
  holds_unique : ∀ {m L M}, Holds m L → Holds m M → L = M
  length_eq : ∀ {m L}, Holds m L → length m = L.length
  free_iff : ∀ {m L}, Holds m L → ∀ i, Free m i ↔ i ∉ L
  push_spec : ∀ {m L}, Holds m L → ∀ i, i ∉ L → ∃ m', push m i = some m' ∧ Holds m' (L ++ [i])
  pop_spec : ∀ {m L}, Holds m L → ∃ m', pop m = some (m', L.head?) ∧ Holds m' L.tail

namespace Fifo

variable {ι : Type} {F : Fifo ι}

theorem length_eq_zero_iff {m : F.Mem} {L : List ι} (h : F.Holds m L) :
    F.length m = 0 ↔ L = [] := by
  rw [F.length_eq h]
  cases L with
  | nil => simp
  | cons i L => simp; omega

/-- What a push that succeeds leaves behind. -/
theorem holds_of_push {m m' : F.Mem} {L : List ι} (h : F.Holds m L) {i : ι} (hi : F.Free m i)
    (hp : F.push m i = some m') : F.Holds m' (L ++ [i]) := by
  obtain ⟨m₁, hp₁, hm₁⟩ := F.push_spec h i ((F.free_iff h i).1 hi)
  obtain rfl : m₁ = m' := Option.some_inj.1 (hp₁.symm.trans hp)
  exact hm₁

/-- What a pop that succeeds returns and leaves behind. -/
theorem of_pop {m m' : F.Mem} {L : List ι} (h : F.Holds m L) {r : Option ι}
    (hp : F.pop m = some (m', r)) : r = L.head? ∧ F.Holds m' L.tail := by
  obtain ⟨m₁, hp₁, hm₁⟩ := F.pop_spec h
  have he := Option.some_inj.1 (hp₁.symm.trans hp)
  simp only [Prod.mk.injEq] at he
  obtain ⟨rfl, rfl⟩ := he
  exact ⟨rfl, hm₁⟩

/-- An item goes through an empty queue. -/
theorem push_pop_empty (F : Fifo ι) (i : ι) : ∃ m m', F.Free F.empty i ∧
    F.push F.empty i = some m ∧ F.length m ≠ 0 ∧ F.pop m = some (m', some i) ∧
      F.Holds m' [] := by
  have hfree : F.Free F.empty i := (F.free_iff F.holds_empty i).2 List.not_mem_nil
  obtain ⟨m, hpush, hm⟩ := F.push_spec F.holds_empty i List.not_mem_nil
  obtain ⟨m', hpop, hm'⟩ := F.pop_spec hm
  have hlength : F.length m ≠ 0 := mt (length_eq_zero_iff hm).1 (List.cons_ne_nil _ _)
  exact ⟨m, m', hfree, hpush, hlength, hpop, hm'⟩

/-! ### Sequences of requests -/

/-- What a user asks of a queue. -/
inductive Request (ι : Type) where
  | push (i : ι)
  | pop
  | length

/-- What a queue answers. -/
inductive Answer (ι : Type) where
  | done
  | item (r : Option ι)
  | length (n : Int)

/-- An implementation answers one request. -/
def respond (F : Fifo ι) (m : F.Mem) : Request ι → Option (F.Mem × Answer ι)
  | .push i => (F.push m i).map (·, .done)
  | .pop => (F.pop m).map fun p => (p.1, .item p.2)
  | .length => some (m, .length (F.length m))

/-- An implementation answers a sequence of requests. -/
def run (F : Fifo ι) (m : F.Mem) : List (Request ι) → Option (F.Mem × List (Answer ι))
  | [] => some (m, [])
  | c :: cs => do
      let (m, r) ← F.respond m c
      let (m, rs) ← F.run m cs
      return (m, r :: rs)

/-- Every item pushed is in no queue at that moment. -/
def Permits (F : Fifo ι) (m : F.Mem) : List (Request ι) → Prop
  | [] => True
  | c :: cs => (∀ i, c = .push i → F.Free m i) ∧
      ∀ m' r, F.respond m c = some (m', r) → F.Permits m' cs

/-- A list answers one request. -/
def reply (L : List ι) : Request ι → List ι × Answer ι
  | .push i => (L ++ [i], .done)
  | .pop => (L.tail, .item L.head?)
  | .length => (L, .length L.length)

/-- A list answers a sequence of requests. -/
def replies (L : List ι) : List (Request ι) → List ι × List (Answer ι)
  | [] => (L, [])
  | c :: cs => ((replies (reply L c).1 cs).1, (reply L c).2 :: (replies (reply L c).1 cs).2)

/-- Every item pushed is not in the list at that moment. -/
def Fresh (L : List ι) : List (Request ι) → Prop
  | [] => True
  | c :: cs => (∀ i, c = .push i → i ∉ L) ∧ Fresh (reply L c).1 cs

/-- One request is answered as the list answers it. -/
theorem respond_spec {m : F.Mem} {L : List ι} (h : F.Holds m L) {c : Request ι}
    (hc : ∀ i, c = .push i → i ∉ L) :
    ∃ m', F.respond m c = some (m', (reply L c).2) ∧ F.Holds m' (reply L c).1 := by
  cases c with
  | push i =>
      obtain ⟨m', hp, hm'⟩ := F.push_spec h i (hc i rfl)
      exact ⟨m', by simp [respond, hp, reply], hm'⟩
  | pop =>
      obtain ⟨m', hp, hm'⟩ := F.pop_spec h
      exact ⟨m', by simp [respond, hp, reply], hm'⟩
  | length => exact ⟨m, by simp [respond, F.length_eq h, reply], h⟩

/-- Which sequences an implementation permits depends on the list only. -/
theorem permits_iff {m : F.Mem} {L : List ι} (h : F.Holds m L) (cs : List (Request ι)) :
    F.Permits m cs ↔ Fresh L cs := by
  induction cs generalizing m L with
  | nil => exact Iff.rfl
  | cons c cs ih =>
      have hfree : (∀ i, c = .push i → F.Free m i) ↔ ∀ i, c = .push i → i ∉ L := by
        simp only [F.free_iff h]
      refine and_congr_right_iff.2 (fun hc => ?_) |>.trans (and_congr_left_iff.2 fun _ => hfree)
      obtain ⟨m', hr, hm'⟩ := respond_spec h (hfree.1 hc)
      simp [hr, ih hm']

/-- **An implementation answers as the list does.** -/
theorem run_spec {m : F.Mem} {L : List ι} (h : F.Holds m L) {cs : List (Request ι)}
    (hcs : Fresh L cs) :
    ∃ m', F.run m cs = some (m', (replies L cs).2) ∧ F.Holds m' (replies L cs).1 := by
  induction cs generalizing m L with
  | nil => exact ⟨m, rfl, h⟩
  | cons c cs ih =>
      obtain ⟨m₁, hr, hm₁⟩ := respond_spec h hcs.1
      obtain ⟨m₂, hrun, hm₂⟩ := ih hm₁ hcs.2
      exact ⟨m₂, by simp [run, hr, hrun, replies], hm₂⟩

/-- **Two implementations answer the same**, and hold the same list afterwards. -/
theorem agree (F G : Fifo ι) {cs : List (Request ι)} (h : F.Permits F.empty cs) :
    G.Permits G.empty cs ∧ ∃ m n answers L, F.run F.empty cs = some (m, answers) ∧
      G.run G.empty cs = some (n, answers) ∧ F.Holds m L ∧ G.Holds n L := by
  have hcs := (permits_iff F.holds_empty cs).1 h
  obtain ⟨m, hm, hmL⟩ := run_spec F.holds_empty hcs
  obtain ⟨n, hn, hnL⟩ := run_spec G.holds_empty hcs
  exact ⟨(permits_iff G.holds_empty cs).2 hcs, m, n, _, _, hm, hn, hmL, hnL⟩

end Fifo
