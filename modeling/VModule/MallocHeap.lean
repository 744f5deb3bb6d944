/-
**A heap with `malloc`, `realloc` and `free`.**

Every block that was ever allocated has a number of its own, so that a block freed and a block
allocated afterwards at its address are told apart.  A live block has contents.  Whether an
allocation succeeds, and what the new memory contains, is up to whoever calls: it is an argument.

Main definitions:

* `MallocHeap` — the live blocks with their contents, and the proof that no others exist yet;
* `MallocHeap.malloc`, `MallocHeap.realloc`, `MallocHeap.free` — the functions; there is no result
  where a block is freed that is not live.

Main results:

* `MallocHeap.free_of_live` — a live block may be freed;
* `MallocHeap.length_resized` — what `realloc` returns has the size that was asked for.
-/

import Mathlib.Data.List.Basic
import Mathlib.Logic.Function.Basic

set_option relaxedAutoImplicit false
set_option autoImplicit false

open Function

universe u

/-- The live blocks and their contents; the blocks from `next` on have not been allocated. -/
structure MallocHeap (β : Type u) where
  blocks : ℕ → Option (List β)
  next : ℕ
  fresh : ∀ i, next ≤ i → blocks i = none

namespace MallocHeap

variable {β : Type u} (h : MallocHeap β)

/-- The heap of a program that has allocated nothing. -/
def empty : MallocHeap β where
  blocks _ := none
  next := 0
  fresh _ _ := rfl

/-- A block that is live has been allocated. -/
theorem lt_next {h : MallocHeap β} {i : ℕ} {data : List β} (hi : h.blocks i = some data) :
    i < h.next := by
  by_contra hge
  have hnone := h.fresh i (by omega)
  simp [hi] at hnone

/-- A new block. -/
def new (data : List β) : MallocHeap β where
  blocks := update h.blocks h.next (some data)
  next := h.next + 1
  fresh i hi := by
    rw [update_of_ne (by omega)]
    exact h.fresh i (by omega)

/-- A block is no longer live. -/
def drop (i : ℕ) : MallocHeap β where
  blocks := update h.blocks i none
  next := h.next
  fresh j hj := by
    by_cases hji : j = i
    · rw [hji, update_self]
    · rw [update_of_ne hji]
      exact h.fresh j hj

/-- The contents of a live block are overwritten. -/
def write (i : ℕ) (data : List β) : MallocHeap β where
  blocks := update h.blocks i ((h.blocks i).map fun _ => data)
  next := h.next
  fresh j hj := by
    by_cases hji : j = i
    · rw [hji, update_self, ← hji, h.fresh j hj]
      rfl
    · rw [update_of_ne hji]
      exact h.fresh j hj

@[simp] theorem new_next (data : List β) : (h.new data).next = h.next + 1 := rfl

@[simp] theorem new_self (data : List β) : (h.new data).blocks h.next = some data :=
  update_self ..

theorem new_of_ne (data : List β) {i : ℕ} (hi : i ≠ h.next) :
    (h.new data).blocks i = h.blocks i :=
  update_of_ne hi ..

@[simp] theorem drop_next (i : ℕ) : (h.drop i).next = h.next := rfl

@[simp] theorem drop_self (i : ℕ) : (h.drop i).blocks i = none := update_self ..

theorem drop_of_ne {i j : ℕ} (hj : j ≠ i) : (h.drop i).blocks j = h.blocks j :=
  update_of_ne hj ..

theorem write_of_ne {i j : ℕ} (data : List β) (hj : j ≠ i) :
    (h.write i data).blocks j = h.blocks j :=
  update_of_ne hj ..

theorem write_self {i : ℕ} {old : List β} (data : List β) (hi : h.blocks i = some old) :
    (h.write i data).blocks i = some data := by
  simp [write, hi]

/-! ### The functions -/

/-- `free(p)`. -/
def free : Option ℕ → Option (MallocHeap β)
  | none => some h
  | some i => if (h.blocks i).isSome then some (h.drop i) else none

/-- `malloc(size)`; if it succeeds `granted` is what the memory contains. -/
def malloc (size : ℕ) : Option (ℕ → β) → Option ℕ × MallocHeap β
  | none => (none, h)
  | some junk => (some h.next, h.new ((List.range size).map junk))

/-- The first `size` elements of `old`, with `junk` where there are none. -/
def resized (old : List β) (size : ℕ) (junk : ℕ → β) : List β :=
  (List.range size).map fun i => old.getD i (junk i)

/-- `realloc(p, size)`. -/
def realloc (p : Option ℕ) (size : ℕ) (granted : Option (ℕ → β)) :
    Option (Option ℕ × MallocHeap β) :=
  match p with
  | none => some (h.malloc size granted)
  | some i =>
      match h.blocks i, granted with
      | none, _ => none
      | some _, none => some (none, h)
      | some old, some junk => some (some h.next, (h.drop i).new (resized old size junk))

@[simp] theorem length_resized (old : List β) (size : ℕ) (junk : ℕ → β) :
    (resized old size junk).length = size := by
  simp [resized]

@[simp] theorem free_none : h.free none = some h := rfl

/-- A live block may be freed. -/
theorem free_of_live {h : MallocHeap β} {i : ℕ} {data : List β} (hi : h.blocks i = some data) :
    h.free (some i) = some (h.drop i) := by
  rw [free, hi]
  rfl

end MallocHeap
