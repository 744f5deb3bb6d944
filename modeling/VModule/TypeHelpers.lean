/-
**Moving objects: `sutils/TypeHelpers.h`.**

`move_forward_type` and `move_backward_type` move `n` objects to a place that may overlap with the
one they come from: with `memmove`, if the traits of the type allow it, and otherwise one by one,
from the end or from the beginning, where each object is copied and the original is destroyed.

Memory is a row of slots, each of which holds an object or none.  An object must not be made where
there is one that would have to be destroyed, and only an object can be copied or destroyed; a
function that does otherwise has no result.

Main definitions:

* `VModule.TypeHelpers.Members` — the traits of a type and what its members do;
* `VModule.TypeHelpers.moveForwardType`, `VModule.TypeHelpers.moveBackwardType` — the templates;
* `VModule.TypeHelpers.memmove` — the objects at their new places;
* `VModule.TypeHelpers.copyType`, `VModule.TypeHelpers.destroyType` — the templates that copy and
  destroy.

Main results:

* `VModule.TypeHelpers.forwardLoop_eq`, `VModule.TypeHelpers.backwardLoop_eq` — the loops move
  objects to where `memmove` does;
* `VModule.TypeHelpers.destroyLoop_filled` — what has been copied can be destroyed;
* `VModule.move_type_eq` — **objects that are moved one by one**.
-/

import Mathlib.Data.List.Induction
import Mathlib.Logic.Function.Basic
import Mathlib.Tactic.SplitIfs

set_option relaxedAutoImplicit false
set_option autoImplicit false

namespace VModule

open Function

namespace TypeHelpers

variable {α σ : Type}

/-! ### Objects -/

/-- `traits<TYPE>`, and what the copy constructor and the destructor do besides. -/
structure Members (α σ : Type) where
  hasTrivialDtor : Bool
  hasTrivialCopy : Bool
  hasTrivialMove : Bool
  copy : α → σ → σ
  destroy : α → σ → σ

/-- The slots, and whatever the members of the objects change. -/
@[ext] structure State (α σ : Type) where
  slot : ℕ → Option α
  world : σ

variable (m : Members α σ)

/-- `new(d) TYPE(x)`. -/
def construct (d : ℕ) (x : α) (st : State α σ) : Option (State α σ) :=
  if st.slot d = none ∨ m.hasTrivialDtor then
    some ⟨update st.slot d (some x), m.copy x st.world⟩
  else none

/-- `p->~TYPE()`. -/
def destruct (p : ℕ) (st : State α σ) : Option (State α σ) :=
  match st.slot p with
  | none => none
  | some x => some ⟨update st.slot p none, m.destroy x st.world⟩

/-- `new(d) TYPE(*s)`, or `*d = *s` for a type that is copied with `memcpy`. -/
def copyOne (d s : ℕ) (st : State α σ) : Option (State α σ) :=
  match st.slot s with
  | none => none
  | some x =>
      if m.hasTrivialCopy then some ⟨update st.slot d (some x), st.world⟩
      else construct m d x st

/-- What both loops do in a round. -/
def moveOne (d s : ℕ) (st : State α σ) : Option (State α σ) :=
  match copyOne m d s st with
  | none => none
  | some st => if m.hasTrivialDtor then some st else destruct m s st

/-! ### Moving -/

/-- The loop of `move_forward_type`, with pointers behind the objects. -/
def forwardLoop : ℕ → ℕ → ℕ → State α σ → Option (State α σ)
  | 0, _, _, st => some st
  | n + 1, d, s, st =>
      match moveOne m (d - 1) (s - 1) st with
      | none => none
      | some st => forwardLoop n (d - 1) (s - 1) st

/-- The loop of `move_backward_type`. -/
def backwardLoop : ℕ → ℕ → ℕ → State α σ → Option (State α σ)
  | 0, _, _, st => some st
  | n + 1, d, s, st =>
      match moveOne m d s st with
      | none => none
      | some st => backwardLoop n (d + 1) (s + 1) st

/-- The slots after a move: what is left behind is an object only if it need not be destroyed. -/
def moved (trivialDtor : Bool) (d s n : ℕ) (slot : ℕ → Option α) (j : ℕ) : Option α :=
  if d ≤ j ∧ j < d + n then slot (s + (j - d))
  else if s ≤ j ∧ j < s + n then if trivialDtor then slot j else none
  else slot j

/-- `memmove(d, s, n * sizeof(TYPE))`. -/
def memmove (d s n : ℕ) (st : State α σ) : State α σ :=
  ⟨moved m.hasTrivialDtor d s n st.slot, st.world⟩

/-- Whether objects are moved with `memmove`. -/
def movesBytes : Bool := (m.hasTrivialDtor && m.hasTrivialCopy) || m.hasTrivialMove

def moveForwardType (d s n : ℕ) (st : State α σ) : Option (State α σ) :=
  if movesBytes m then some (memmove m d s n st) else forwardLoop m n (d + n) (s + n) st

def moveBackwardType (d s n : ℕ) (st : State α σ) : Option (State α σ) :=
  if movesBytes m then some (memmove m d s n st) else backwardLoop m n d s st

/-- The objects `xs` are in the slots from `s` on. -/
def Row (s : ℕ) (xs : List α) (slot : ℕ → Option α) : Prop :=
  ∀ k x, xs[k]? = some x → slot (s + k) = some x

/-- There are objects to move, and room for them where no other object is. -/
structure Ready (d s : ℕ) (xs : List α) (slot : ℕ → Option α) : Prop where
  row : Row s xs slot
  room : ∀ j, d ≤ j → j < d + xs.length → ¬(s ≤ j ∧ j < s + xs.length) →
    slot j = none ∨ m.hasTrivialDtor = true

/-- What a round makes of the slots. -/
def shifted (trivialDtor : Bool) (d s : ℕ) (slot : ℕ → Option α) : ℕ → Option α :=
  if trivialDtor then update slot d (slot s) else update (update slot d (slot s)) s none

/-- What the members of an object do in a round. -/
def passOn (x : α) (w : σ) : σ :=
  let w := if m.hasTrivialCopy then w else m.copy x w
  if m.hasTrivialDtor then w else m.destroy x w

/-- The state after a round. -/
def moveObject (d s : ℕ) (x : α) (st : State α σ) : State α σ :=
  ⟨shifted m.hasTrivialDtor d s st.slot, passOn m x st.world⟩

variable {m} {d s n : ℕ} {st : State α σ} {x : α} {xs : List α} {t : Bool} {slot : ℕ → Option α}

/-- A round, from a slot with an object to another one where there is room. -/
theorem moveOne_eq (hne : d ≠ s) (hx : st.slot s = some x)
    (hroom : st.slot d = none ∨ m.hasTrivialDtor = true) :
    moveOne m d s st = some (moveObject m d s x st) := by
  have hcopy : copyOne m d s st = some ⟨update st.slot d (some x),
      if m.hasTrivialCopy then st.world else m.copy x st.world⟩ := by
    rw [copyOne, hx]
    dsimp only
    split
    · rfl
    · rw [construct, if_pos hroom]
  rw [moveOne, hcopy]
  dsimp only
  cases hdtor : m.hasTrivialDtor with
  | true => simp [moveObject, shifted, passOn, hdtor, hx]
  | false =>
      have hkept : update st.slot d (some x) s = some x := by
        rw [update_of_ne hne.symm, hx]
      simp [destruct, moveObject, shifted, passOn, hdtor, hx, hkept]

theorem moved_zero : moved t d s 0 slot = slot := by
  funext j
  rw [moved, if_neg (by omega), if_neg (by omega)]

/-- A slot that a round leaves alone. -/
theorem moveObject_of_ne {j : ℕ} (hd : j ≠ d) (hs : j ≠ s) :
    (moveObject m d s x st).slot j = st.slot j := by
  dsimp only [moveObject, shifted]
  split
  · exact update_of_ne hd _ _
  · exact (update_of_ne hs _ _).trans (update_of_ne hd _ _)

/-- There is room in the slot that the object of a round has left. -/
theorem moveObject_source :
    (moveObject m d s x st).slot s = none ∨ m.hasTrivialDtor = true := by
  dsimp only [moveObject, shifted]
  split
  · exact .inr ‹_›
  · exact .inl (update_self _ _ _)

/-! ### From the end -/

/-- The last object goes first. -/
theorem moved_succ_last (h : s < d ∨ d + (n + 1) ≤ s) (slot : ℕ → Option α) :
    moved t d s (n + 1) slot = moved t d s n (shifted t (d + n) (s + n) slot) := by
  funext j
  cases t <;> simp only [moved, shifted] <;> split_ifs <;> grind

theorem Row.concat (h : Row s (xs ++ [x]) slot) :
    Row s xs slot ∧ slot (s + xs.length) = some x := by
  constructor
  · intro k y hk
    refine h k y ?_
    rw [List.getElem?_append_left (List.getElem?_eq_some_iff.mp hk).1, hk]
  · exact h xs.length x (by simp)

theorem Ready.concat (hdir : s < d ∨ d + (xs.length + 1) ≤ s)
    (h : Ready m d s (xs ++ [x]) st.slot) :
    Ready m d s xs (moveObject m (d + xs.length) (s + xs.length) x st).slot := by
  obtain ⟨hrow, -⟩ := h.row.concat
  have hroom := h.room
  simp only [List.length_append, List.length_singleton] at hroom
  constructor
  · intro k y hk
    have hlt := (List.getElem?_eq_some_iff.mp hk).1
    rw [moveObject_of_ne (by omega) (by omega), hrow k y hk]
  · intro j hj hlt hout
    rcases eq_or_ne j (s + xs.length) with rfl | hne
    · exact moveObject_source
    · rw [moveObject_of_ne (by omega) hne]
      exact hroom j hj (by omega) (by omega)

/-- The first round of `move_forward_type`. -/
theorem Ready.last (hdir : s < d ∨ d + (xs.length + 1) ≤ s) (h : Ready m d s (xs ++ [x]) st.slot) :
    moveOne m (d + xs.length) (s + xs.length) st =
      some (moveObject m (d + xs.length) (s + xs.length) x st) := by
  refine moveOne_eq (by omega) h.row.concat.2 (h.room _ (by omega) ?_ ?_)
  · simp
  · simp only [List.length_append, List.length_singleton]
    omega

/-- `move_forward_type` moves objects that are to go up, or far down. -/
theorem forwardLoop_eq (hdir : xs = [] ∨ s < d ∨ d + xs.length ≤ s) (h : Ready m d s xs st.slot) :
    forwardLoop m xs.length (d + xs.length) (s + xs.length) st =
      some ⟨moved m.hasTrivialDtor d s xs.length st.slot, xs.foldr (passOn m) st.world⟩ := by
  induction xs using List.reverseRecOn generalizing st with
  | nil =>
      rw [List.length_nil, forwardLoop, moved_zero]
      rfl
  | append_singleton xs x ih =>
      replace hdir := hdir.resolve_left (by simp)
      rw [List.length_append, List.length_singleton] at hdir
      rw [List.length_append, List.length_singleton, forwardLoop]
      simp only [← Nat.add_assoc, Nat.add_sub_cancel]
      rw [h.last hdir]
      dsimp only
      rw [ih (.inr (by omega)) (h.concat hdir), moved_succ_last hdir, List.foldr_append]
      rfl

/-! ### From the beginning -/

/-- The first object goes first. -/
theorem moved_succ_first (h : d < s ∨ s + (n + 1) ≤ d) (slot : ℕ → Option α) :
    moved t d s (n + 1) slot = moved t (d + 1) (s + 1) n (shifted t d s slot) := by
  funext j
  cases t <;> simp only [moved, shifted] <;> split_ifs <;> grind

theorem Row.cons (h : Row s (x :: xs) slot) : Row (s + 1) xs slot ∧ slot s = some x := by
  constructor
  · intro k y hk
    rw [Nat.add_right_comm]
    exact h (k + 1) y hk
  · exact h 0 x rfl

theorem Ready.cons (hdir : d < s ∨ s + (xs.length + 1) ≤ d) (h : Ready m d s (x :: xs) st.slot) :
    Ready m (d + 1) (s + 1) xs (moveObject m d s x st).slot := by
  obtain ⟨hrow, -⟩ := h.row.cons
  have hroom := h.room
  simp only [List.length_cons] at hroom
  constructor
  · intro k y hk
    have hlt := (List.getElem?_eq_some_iff.mp hk).1
    rw [moveObject_of_ne (by omega) (by omega), hrow k y hk]
  · intro j hj hlt hout
    rcases eq_or_ne j s with rfl | hne
    · exact moveObject_source
    · rw [moveObject_of_ne (by omega) hne]
      exact hroom j (by omega) (by omega) (by omega)

/-- The first round of `move_backward_type`. -/
theorem Ready.first (hdir : d < s ∨ s + (xs.length + 1) ≤ d)
    (h : Ready m d s (x :: xs) st.slot) : moveOne m d s st = some (moveObject m d s x st) := by
  refine moveOne_eq (by omega) h.row.cons.2 (h.room _ (by omega) ?_ ?_)
  · simp
  · simp only [List.length_cons]
    omega

/-- `move_backward_type` moves objects that are to go down, or far up. -/
theorem backwardLoop_eq (hdir : xs = [] ∨ d < s ∨ s + xs.length ≤ d)
    (h : Ready m d s xs st.slot) :
    backwardLoop m xs.length d s st =
      some ⟨moved m.hasTrivialDtor d s xs.length st.slot,
        xs.foldl (fun w x => passOn m x w) st.world⟩ := by
  induction xs generalizing d s st with
  | nil =>
      rw [List.length_nil, backwardLoop, moved_zero]
      rfl
  | cons x xs ih =>
      replace hdir := hdir.resolve_left (by simp)
      rw [List.length_cons] at hdir
      rw [List.length_cons, backwardLoop, h.first hdir]
      dsimp only
      rw [ih (.inr (by omega)) (h.cons hdir), moved_succ_first hdir]
      rfl

/-! ### The wrong way -/

theorem Row.exists {j : ℕ} (h : Row s xs slot) (hle : s ≤ j) (hlt : j < s + xs.length) :
    ∃ x, slot j = some x := by
  obtain ⟨k, rfl⟩ := Nat.exists_eq_add_of_le hle
  exact ⟨xs[k], h k _ (List.getElem?_eq_getElem (by omega))⟩

/-- A round that would make an object where there is one. -/
theorem moveOne_occupied (hcopy : m.hasTrivialCopy = false) (hdtor : m.hasTrivialDtor = false)
    {y : α} (hx : st.slot s = some x) (hy : st.slot d = some y) : moveOne m d s st = none := by
  simp [moveOne, copyOne, construct, hx, hy, hcopy, hdtor]

/-- The last object would be made where there is one. -/
theorem forwardLoop_none (hcopy : m.hasTrivialCopy = false) (hdtor : m.hasTrivialDtor = false)
    (h : Row s xs st.slot) (hle : d ≤ s) (hlt : s < d + xs.length) (hpos : 0 < xs.length) :
    forwardLoop m xs.length (d + xs.length) (s + xs.length) st = none := by
  obtain ⟨n, hn⟩ := Nat.exists_eq_add_of_lt hpos
  rw [Nat.zero_add] at hn
  obtain ⟨x, hx⟩ := h.exists (j := s + n) (by omega) (by omega)
  obtain ⟨y, hy⟩ := h.exists (j := d + n) (by omega) (by omega)
  rw [hn, forwardLoop]
  simp only [← Nat.add_assoc, Nat.add_sub_cancel, moveOne_occupied hcopy hdtor hx hy]

/-- The first object would be made where there is one. -/
theorem backwardLoop_none (hcopy : m.hasTrivialCopy = false) (hdtor : m.hasTrivialDtor = false)
    (h : Row s xs st.slot) (hle : s ≤ d) (hlt : d < s + xs.length) (hpos : 0 < xs.length) :
    backwardLoop m xs.length d s st = none := by
  obtain ⟨n, hn⟩ := Nat.exists_eq_add_of_lt hpos
  obtain ⟨x, hx⟩ := h.exists (j := s) (by omega) (by omega)
  obtain ⟨y, hy⟩ := h.exists (j := d) (by omega) (by omega)
  rw [hn, backwardLoop]
  simp only [moveOne_occupied hcopy hdtor hx hy]

/-! ### Copying and destroying -/

variable (m)

/-- `memcpy`, whose ranges must not overlap. -/
def memcpy (d s n : ℕ) (st : State α σ) : Option (State α σ) :=
  if n = 0 ∨ d + n ≤ s ∨ s + n ≤ d then
    some ⟨fun j => if d ≤ j ∧ j < d + n then st.slot (s + (j - d)) else st.slot j, st.world⟩
  else none

/-- The loop of `copy_type`. -/
def copyLoop : ℕ → ℕ → ℕ → State α σ → Option (State α σ)
  | 0, _, _, st => some st
  | n + 1, d, s, st =>
      match copyOne m d s st with
      | none => none
      | some st => copyLoop n (d + 1) (s + 1) st

def copyType (d s n : ℕ) (st : State α σ) : Option (State α σ) :=
  if m.hasTrivialCopy then memcpy d s n st else copyLoop m n d s st

/-- The loop of `destroy_type`. -/
def destroyLoop : ℕ → ℕ → State α σ → Option (State α σ)
  | 0, _, st => some st
  | n + 1, p, st =>
      match destruct m p st with
      | none => none
      | some st => destroyLoop n (p + 1) st

def destroyType (p n : ℕ) (st : State α σ) : Option (State α σ) :=
  if m.hasTrivialDtor then some st else destroyLoop m n p st

/-- The objects `xs` are copied to the slots from `d` on. -/
def constructRow : ℕ → List α → State α σ → Option (State α σ)
  | _, [], st => some st
  | d, x :: xs, st =>
      match construct m d x st with
      | none => none
      | some st => constructRow (d + 1) xs st

/-- There are no objects in the slots from `d` on. -/
def Room (d n : ℕ) (slot : ℕ → Option α) : Prop :=
  ∀ j, d ≤ j → j < d + n → slot j = none

/-- The slots with the objects `xs` from `d` on. -/
def filled (d : ℕ) (xs : List α) (slot : ℕ → Option α) (j : ℕ) : Option α :=
  if d ≤ j ∧ j < d + xs.length then xs[j - d]? else slot j

variable {m}

theorem construct_eq (h : st.slot d = none) :
    construct m d x st = some ⟨update st.slot d (some x), m.copy x st.world⟩ :=
  if_pos (.inl h)

theorem Room.update {v : Option α} (h : Room d (n + 1) slot) :
    Room (d + 1) n (update slot d v) := by
  intro j hj hlt
  rw [update_of_ne (by omega)]
  exact h j (by omega) (by omega)

theorem Row.update {v : Option α} (h : Row s xs slot) (hne : d < s ∨ s + xs.length ≤ d) :
    Row s xs (update slot d v) := by
  intro k x hk
  have hlt := (List.getElem?_eq_some_iff.mp hk).1
  rw [update_of_ne (by omega)]
  exact h k x hk

theorem filled_nil : filled d [] slot = slot := by
  funext j
  rw [filled, if_neg (by simp)]

theorem filled_cons : filled d (x :: xs) slot = filled (d + 1) xs (update slot d (some x)) := by
  funext j
  rcases Nat.lt_trichotomy j d with hlt | rfl | hgt
  · rw [filled, filled, if_neg (by omega), if_neg (by omega), update_of_ne (by omega)]
  · rw [filled, filled, if_pos (by simp), if_neg (by omega), update_self, Nat.sub_self]
    rfl
  · obtain ⟨k, rfl⟩ := Nat.exists_eq_add_of_lt hgt
    have hk : d + k + 1 - d = k + 1 := by omega
    have hk' : d + k + 1 - (d + 1) = k := by omega
    simp only [filled, hk, hk', List.length_cons, List.getElem?_cons_succ]
    rw [update_of_ne (by omega)]
    congr 1
    simp only [eq_iff_iff]
    omega

theorem constructRow_eq (h : Room d xs.length st.slot) :
    constructRow m d xs st =
      some ⟨filled d xs st.slot, xs.foldl (fun w x => m.copy x w) st.world⟩ := by
  induction xs generalizing d st with
  | nil =>
      rw [constructRow, filled_nil]
      rfl
  | cons x xs ih =>
      rw [constructRow, construct_eq (h d (Nat.le_refl _) (by simp)), filled_cons]
      exact ih h.update

/-- There is room only apart from a row of objects. -/
theorem Row.apart (hrow : Row s xs slot) (hroom : Room d xs.length slot) :
    xs = [] ∨ d + xs.length ≤ s ∨ s + xs.length ≤ d := by
  by_contra hno
  rw [not_or, not_or, ← List.length_eq_zero_iff] at hno
  obtain ⟨x, hx⟩ := hrow.exists (j := max d s) (by omega) (by omega)
  rw [hroom (max d s) (by omega) (by omega)] at hx
  exact absurd hx (by simp)

/-- Objects are copied to free slots. -/
theorem copyLoop_eq (hcopy : m.hasTrivialCopy = false) (hrow : Row s xs st.slot)
    (hroom : Room d xs.length st.slot) :
    copyLoop m xs.length d s st = constructRow m d xs st := by
  induction xs generalizing d s st with
  | nil => rfl
  | cons x xs ih =>
      obtain ⟨hrest, hx⟩ := hrow.cons
      have hapart := (hrow.apart hroom).resolve_left (by simp)
      rw [List.length_cons] at hroom hapart
      have hd := hroom d (Nat.le_refl _) (by omega)
      rw [List.length_cons, copyLoop, copyOne, hx, constructRow]
      simp only [hcopy, Bool.false_eq_true, if_false, construct_eq hd]
      exact ih (hrest.update (by omega)) hroom.update

/-- The first of the objects is destroyed. -/
theorem destruct_filled (hd : slot d = none) (w : σ) :
    destruct m d ⟨filled d (x :: xs) slot, w⟩ =
      some ⟨filled (d + 1) xs slot, m.destroy x w⟩ := by
  have hx : filled d (x :: xs) slot d = some x := by
    rw [filled, if_pos (by simp), Nat.sub_self]
    rfl
  have hrest : Function.update (filled d (x :: xs) slot) d none = filled (d + 1) xs slot := by
    rw [filled_cons]
    funext j
    rcases eq_or_ne j d with rfl | hne
    · rw [update_self, filled, if_neg (by omega), hd]
    · rw [update_of_ne hne, filled, filled, update_of_ne hne]
  rw [destruct]
  simp only [hx, hrest]

/-- What has been copied is destroyed. -/
theorem destroyLoop_filled (hroom : Room d xs.length slot) (w : σ) :
    destroyLoop m xs.length d ⟨filled d xs slot, w⟩ =
      some ⟨slot, xs.foldl (fun w x => m.destroy x w) w⟩ := by
  induction xs generalizing d w with
  | nil =>
      rw [filled_nil]
      rfl
  | cons x xs ih =>
      rw [List.length_cons] at hroom
      rw [List.length_cons, destroyLoop, destruct_filled (hroom d (Nat.le_refl _) (by omega))]
      exact ih (fun j hj hlt => hroom j (by omega) (by omega)) _

end TypeHelpers

open TypeHelpers

variable {α σ : Type} {m : Members α σ} {d s : ℕ} {st : State α σ} {xs : List α}

/-- **Objects that are moved one by one.**  Objects with a copy constructor and a destructor of
their own are moved to where `memmove` would move them, each copied and then destroyed, from the end
or from the beginning, unless an object would be made where there is one that has not been moved
yet. -/
theorem move_type_eq (hcopy : m.hasTrivialCopy = false) (hdtor : m.hasTrivialDtor = false)
    (hmove : m.hasTrivialMove = false) (h : Ready m d s xs st.slot) :
    (moveForwardType m d s xs.length st =
        if xs = [] ∨ s < d ∨ d + xs.length ≤ s then
          some ⟨(memmove m d s xs.length st).slot,
            xs.foldr (fun x w => m.destroy x (m.copy x w)) st.world⟩
        else none) ∧
      moveBackwardType m d s xs.length st =
        if xs = [] ∨ d < s ∨ s + xs.length ≤ d then
          some ⟨(memmove m d s xs.length st).slot,
            xs.foldl (fun w x => m.destroy x (m.copy x w)) st.world⟩
        else none := by
  have hbytes : movesBytes m = false := by simp [movesBytes, hdtor, hmove]
  have hpass : passOn m = fun x w => m.destroy x (m.copy x w) := by
    funext x w
    simp [passOn, hcopy, hdtor]
  rw [moveForwardType, moveBackwardType, hbytes, ← hpass]
  simp only [Bool.false_eq_true, if_false]
  have hempty : xs = [] ↔ ¬0 < xs.length := by
    rw [Nat.not_lt, Nat.le_zero, List.length_eq_zero_iff]
  constructor
  · split
    · exact forwardLoop_eq ‹_› h
    · rename_i hwrong
      rw [not_or, not_or, hempty] at hwrong
      exact forwardLoop_none hcopy hdtor h.row (by omega) (by omega) (by omega)
  · split
    · have heq := backwardLoop_eq ‹_› h
      simp only [hpass] at heq
      exact heq
    · rename_i hwrong
      rw [not_or, not_or, hempty] at hwrong
      exact backwardLoop_none hcopy hdtor h.row (by omega) (by omega) (by omega)

/-- Two objects that are written down when they are copied and when they are destroyed go up by one
slot. -/
theorem move_type_eq_up :
    let m : Members ℕ (List ℕ) := ⟨false, false, false, .cons, fun x w => w ++ [x]⟩
    let st : State ℕ (List ℕ) := ⟨fun j => [5, 6][j]?, []⟩
    (moveForwardType m 1 0 2 st).map State.world = some [5, 6, 6, 5] ∧
      (moveBackwardType m 1 0 2 st).isNone := by
  intro m st
  have hready : Ready m 1 0 [5, 6] st.slot := by
    constructor
    · intro k x hk
      rw [Nat.zero_add]
      exact hk
    · intro j hj hlt hout
      have hj2 : j = 2 := by
        simp only [List.length_cons, List.length_nil] at hlt hout
        omega
      exact .inl (hj2 ▸ rfl)
  obtain ⟨hforward, hbackward⟩ := move_type_eq (m := m) rfl rfl rfl hready
  rw [show (2 : ℕ) = [5, 6].length from rfl, hforward, hbackward]
  decide

end VModule
