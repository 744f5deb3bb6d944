/-
**Moving a block of bytes in parts.**

A call that moves bytes between a memory and something else may move fewer than it was asked for,
and the usual loop calls it again for the rest until the block is complete or a call fails.  This
module has the memory and the loop, for any state and any call.

Main definitions:

* `VModule.Bytes.load`, `VModule.Bytes.store` — a block of a memory;
* `VModule.Transfer.toCInt` — the `int` that is left of a count;
* `VModule.Transfer.loop` — the loop;
* `VModule.Transfer.Moves` — rounds of it in which no call fails.

Main results:

* `VModule.Bytes.load_store`, `VModule.Bytes.load_add` — a block that was stored is there, and
  blocks that meet are one block;
* `VModule.Transfer.Moves.loop_eq` — rounds only cost fuel;
* `VModule.Transfer.exists_moves` — calls that always move something complete the block;
* `VModule.Transfer.loop_ends` — a loop ends with the block complete or with a call that fails;
* `VModule.Transfer.loop_returns` — a loop has an end if its rounds fail or decrease a measure;
* `VModule.Transfer.loop_eq_none` — a loop whose calls never fail and never complete the block has
  no end.
-/

import Mathlib.Data.Int.Notation
import Mathlib.Data.List.GetD

set_option relaxedAutoImplicit false
set_option autoImplicit false

namespace VModule

/-! ### Blocks of a memory -/

namespace Bytes

variable {α : Type*}

/-- The block of `n` cells from `a` on. -/
def load (mem : ℕ → α) (a n : ℕ) : List α := (List.range' a n).map mem

/-- The memory with the block from `a` on overwritten. -/
def store (mem : ℕ → α) (a : ℕ) (bs : List α) : ℕ → α :=
  fun i => if a ≤ i then bs.getD (i - a) (mem i) else mem i

@[simp] theorem length_load (mem : ℕ → α) (a n : ℕ) : (load mem a n).length = n := by
  simp [load]

@[simp] theorem load_zero (mem : ℕ → α) (a : ℕ) : load mem a 0 = [] := rfl

/-- Two blocks that meet. -/
theorem load_add (mem : ℕ → α) (a j k : ℕ) :
    load mem a (j + k) = load mem a j ++ load mem (a + j) k := by
  rw [load, ← List.range'_append_1, List.map_append]
  rfl

theorem take_load (mem : ℕ → α) (a : ℕ) {k n : ℕ} (h : k ≤ n) :
    (load mem a n).take k = load mem a k := by
  obtain ⟨m, rfl⟩ := Nat.exists_eq_add_of_le h
  rw [load_add]
  exact List.take_left' (length_load mem a k)

/-- A block says what its cells hold. -/
theorem load_eq_iff {mem : ℕ → α} {bs : List α} {a : ℕ} :
    load mem a bs.length = bs ↔ ∀ i (h : i < bs.length), mem (a + i) = bs[i] := by
  constructor
  · intro hload i hi
    have hget := List.getElem_of_eq hload (by rwa [length_load])
    simpa [load] using hget
  · intro h
    refine List.ext_getElem (length_load mem a _) ?_
    intro i h₁ h₂
    rw [← h i h₂]
    simp [load]

theorem store_of_lt (mem : ℕ → α) (a : ℕ) {bs : List α} {i : ℕ} (h : i < bs.length) :
    store mem a bs (a + i) = bs[i] := by
  rw [store, if_pos (Nat.le_add_right a i), Nat.add_sub_cancel_left]
  exact List.getD_eq_getElem _ _ h

theorem store_zero_of_lt (mem : ℕ → α) {bs : List α} {i : ℕ} (h : i < bs.length) :
    store mem 0 bs i = bs[i] := by
  have hcell := store_of_lt mem 0 h
  rwa [Nat.zero_add] at hcell

@[simp] theorem store_singleton (mem : ℕ → α) (a : ℕ) (b : α) : store mem a [b] a = b := by
  simp [store]

/-- What lies behind is left alone. -/
theorem store_of_le (mem : ℕ → α) {a : ℕ} {bs : List α} {i : ℕ} (h : a + bs.length ≤ i) :
    store mem a bs i = mem i := by
  rw [store, if_pos (by omega)]
  exact List.getD_eq_default _ _ (by omega)

/-- What lies before is left alone. -/
theorem store_of_gt (mem : ℕ → α) {a : ℕ} (bs : List α) {i : ℕ} (h : i < a) :
    store mem a bs i = mem i :=
  if_neg (Nat.not_le.2 h)

/-- The block that was stored is there. -/
theorem load_store (mem : ℕ → α) (a : ℕ) (bs : List α) :
    load (store mem a bs) a bs.length = bs :=
  load_eq_iff.2 fun _ hi => store_of_lt mem a hi

theorem load_store_of_le (mem : ℕ → α) (bs : List α) {a b n : ℕ} (h : b + n ≤ a) :
    load (store mem a bs) b n = load mem b n := by
  refine List.map_congr_left fun i hi => store_of_gt mem bs ?_
  obtain ⟨-, hlt⟩ := List.mem_range'_1.1 hi
  omega

end Bytes

/-! ### The loop -/

namespace Transfer

/-- The `int` that is left of a count. -/
def toCInt (n : ℤ) : ℤ := (BitVec.ofInt 32 n).toInt

/-- A count that an `int` can hold is left as it is. -/
theorem toCInt_of_lt {k : ℕ} (h : k < 2147483648) : toCInt k = k := by
  rw [toCInt, BitVec.ofInt_natCast, BitVec.toInt_eq_toNat_of_lt] <;>
    simp only [BitVec.toNat_ofNat, Nat.reducePow] <;> omega

variable {σ : Type*} (call : ℕ → σ → ℤ × σ) (size : ℕ)

/-- `while (done < size) { n = call; if (n < 0) break; done += n; }`, as far as `fuel` rounds.  A
call knows how much is done. -/
def loop : ℕ → ℕ → σ → Option (ℕ × σ)
  | 0, _, _ => none
  | fuel + 1, done, s =>
      if done < size then
        if toCInt (call done s).1 < 0 then some (done, (call done s).2)
        else loop fuel (done + (toCInt (call done s).1).toNat) (call done s).2
      else some (done, s)

/-- Rounds of the loop in which the calls answer with counts. -/
inductive Moves : ℕ → ℕ → σ → ℕ → σ → Prop
  | refl (done : ℕ) (s : σ) : Moves 0 done s done s
  | head {j done k done' : ℕ} {s s' s'' : σ} : done < size → k < 2147483648 →
      call done s = ((k : ℤ), s') → Moves j (done + k) s' done' s'' →
      Moves (j + 1) done s done' s''

variable {call size}

theorem loop_of_le {done : ℕ} (fuel : ℕ) (s : σ) (h : size ≤ done) :
    loop call size (fuel + 1) done s = some (done, s) := by
  rw [loop, if_neg (Nat.not_lt.2 h)]

/-- A call that fails ends the loop. -/
theorem loop_of_fail {done : ℕ} {s s' : σ} (fuel : ℕ) (h : done < size)
    (hcall : call done s = (-1, s')) : loop call size (fuel + 1) done s = some (done, s') := by
  have hneg : toCInt (-1) < 0 := by decide
  rw [loop, if_pos h, hcall, if_pos hneg]

theorem loop_of_count {done k : ℕ} {s s' : σ} (fuel : ℕ) (h : done < size) (hk : k < 2147483648)
    (hcall : call done s = ((k : ℤ), s')) :
    loop call size (fuel + 1) done s = loop call size fuel (done + k) s' := by
  rw [loop, if_pos h, hcall, toCInt_of_lt hk, if_neg (Int.not_lt.2 (Int.natCast_nonneg k)),
    Int.toNat_natCast]

/-- Rounds only cost fuel. -/
theorem Moves.loop_eq {j done done' : ℕ} {s s' : σ} (h : Moves call size j done s done' s')
    (fuel : ℕ) : loop call size (fuel + j) done s = loop call size fuel done' s' := by
  induction h with
  | refl done s => rfl
  | head hlt hk hcall _ ih => rw [← Nat.add_assoc, loop_of_count _ hlt hk hcall, ih]

/-- Calls that move something, and keep `I`, complete the block. -/
theorem exists_moves (I : ℕ → σ → Prop)
    (hcall : ∀ done s, done < size → I done s → ∃ (k : ℕ) (s' : σ), call done s = (↑k, s') ∧
      0 < k ∧ k < 2147483648 ∧ done + k ≤ size ∧ I (done + k) s') :
    ∀ {done s}, done ≤ size → I done s →
      ∃ j s', Moves call size j done s size s' ∧ I size s' := by
  intro done s hle hI
  obtain ⟨m, hm⟩ := Nat.exists_eq_add_of_le hle
  induction m using Nat.strongRecOn generalizing done s with
  | _ m ih =>
      rcases Nat.eq_or_lt_of_le hle with rfl | hlt
      · exact ⟨0, s, .refl _ _, hI⟩
      · obtain ⟨k, s', heq, hpos, hk, hle', hI'⟩ := hcall done s hlt hI
        obtain ⟨j, s'', hmoves, hI''⟩ := ih (m - k) (by omega) hle' hI' (by omega)
        exact ⟨j + 1, s'', .head hlt hk heq hmoves, hI''⟩

/-- The loop ends where its rounds complete the block, however much fuel is left. -/
theorem Moves.loop_of_ge {j done : ℕ} {s s' : σ} (h : Moves call size j done s size s')
    {fuel : ℕ} (hfuel : j + 1 ≤ fuel) : loop call size fuel done s = some (size, s') := by
  obtain ⟨m, rfl⟩ := Nat.exists_eq_add_of_le' hfuel
  rw [← Nat.add_assoc, Nat.add_right_comm, h.loop_eq]
  exact loop_of_le m s' (Nat.le_refl size)

/-- **How a loop ends.**  If the calls that count keep `I` and those that fail give `J`, there is
`J` at the end, or `I` and the block is complete. -/
theorem loop_ends (I J : ℕ → σ → Prop)
    (hcall : ∀ done s, done < size → I done s →
      (∃ s', call done s = (-1, s') ∧ J done s') ∨
        ∃ (k : ℕ) (s' : σ), call done s = (↑k, s') ∧ k < 2147483648 ∧ I (done + k) s') :
    ∀ fuel {done s done' s'}, I done s → loop call size fuel done s = some (done', s') →
      J done' s' ∨ size ≤ done' ∧ I done' s' := by
  intro fuel
  induction fuel with
  | zero =>
      intro _ _ _ _ _ hloop
      cases hloop
  | succ fuel ih =>
      intro done s done' s' hI hloop
      rcases Nat.lt_or_ge done size with hlt | hge
      · rcases hcall done s hlt hI with ⟨t, heq, hJ⟩ | ⟨k, t, heq, hk, hI'⟩
        · rw [loop_of_fail fuel hlt heq] at hloop
          cases hloop
          exact .inl hJ
        · rw [loop_of_count fuel hlt hk heq] at hloop
          exact ih hI' hloop
      · rw [loop_of_le fuel s hge] at hloop
        cases hloop
        exact .inr ⟨hge, hI⟩

/-- **When a loop has an end.**  It has one if the calls fail or decrease a measure, as long as the
block is not complete. -/
theorem loop_returns (I : ℕ → σ → Prop) (φ : ℕ → σ → ℕ)
    (hcall : ∀ done s, done < size → I done s →
      (∃ s', call done s = (-1, s')) ∨
        ∃ (k : ℕ) (s' : σ), call done s = (↑k, s') ∧ k < 2147483648 ∧ I (done + k) s' ∧
          φ (done + k) s' < φ done s) :
    ∀ {done s}, I done s → ∃ fuel r, loop call size fuel done s = some r := by
  intro done s hI
  induction hm : φ done s using Nat.strongRecOn generalizing done s with
  | _ m ih =>
      rcases Nat.lt_or_ge done size with hlt | hge
      · rcases hcall done s hlt hI with ⟨s', heq⟩ | ⟨k, s', heq, hk, hI', hless⟩
        · exact ⟨1, _, loop_of_fail 0 hlt heq⟩
        · obtain ⟨fuel, r, hloop⟩ := ih _ (hm ▸ hless) hI' rfl
          exact ⟨fuel + 1, r, (loop_of_count fuel hlt hk heq).trans hloop⟩
      · exact ⟨1, _, loop_of_le 0 s hge⟩

/-- A loop whose calls never fail and never complete the block has no end. -/
theorem loop_eq_none (I : ℕ → σ → Prop)
    (hcall : ∀ done s, I done s → done < size ∧
      ∃ (k : ℕ) (s' : σ), call done s = (↑k, s') ∧ k < 2147483648 ∧ I (done + k) s') :
    ∀ fuel {done s}, I done s → loop call size fuel done s = none := by
  intro fuel
  induction fuel with
  | zero => exact fun _ => rfl
  | succ fuel ih =>
      intro done s hI
      obtain ⟨hlt, k, s', heq, hk, hI'⟩ := hcall done s hI
      rw [loop_of_count fuel hlt hk heq]
      exact ih hI'

end Transfer

end VModule
