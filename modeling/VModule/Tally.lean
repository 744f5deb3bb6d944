/-
**Counting over a table of threads.**

The state of a concurrent program has one entry for each thread, and threads may come from any
type: there is no bound on how many of them take part.  In a run, though, all but finitely many
entries are idle, and then the entries can be weighed and counted.  This module is about such
tables; what an entry is does not matter here.

Main definitions:

* `AlmostIdle d f` — all but finitely many entries of the table `f` are the idle entry `d`;
* `tally w f` — the sum of the weights `w` of the entries;
* `headcount P f` — the number of entries that satisfy `P`;
* `Due w f done n` — something that is to be done once, when the number `n` has come down to zero.

Main results:

* `tally_update` — rewriting one entry changes the tally by the two weights of that entry;
* `headcount_eq_tally` — a count is a tally;
* `le_tally`, `add_le_tally` — no entry, and no two entries, weigh more than the table;
* `tally_eq_zero_iff` — a tally is zero exactly when no entry has any weight;
* `Due.keep`, `Due.arise`, `Due.discharge` — what the rewriting of an entry may do to a duty.
-/

import Mathlib.Algebra.BigOperators.Finprod
import Mathlib.Data.Set.Card.Arithmetic

set_option relaxedAutoImplicit false
set_option autoImplicit false

universe u v w

variable {ι : Type u} {β : Type v}

/-! ### Tables that are idle almost everywhere -/

/-- All but finitely many entries of the table `f` are `d`. -/
def AlmostIdle (d : β) (f : ι → β) : Prop := {i | f i ≠ d}.Finite

theorem AlmostIdle.const (d : β) : AlmostIdle d fun _ : ι => d := by
  simp [AlmostIdle]

theorem AlmostIdle.update [DecidableEq ι] {d : β} {f : ι → β} (h : AlmostIdle d f) (i : ι)
    (b : β) : AlmostIdle d (Function.update f i b) := by
  refine Set.Finite.subset (Set.Finite.insert i h) ?_
  intro j hj
  by_cases hji : j = i
  · exact Or.inl hji
  · right
    simpa [Function.update_of_ne hji] using hj

/-- Applying to every entry a function that keeps the idle one keeps the table almost idle. -/
theorem AlmostIdle.map {d : β} {f : ι → β} (h : AlmostIdle d f) {g : β → β} (hg : g d = d) :
    AlmostIdle d fun i => g (f i) := by
  refine Set.Finite.subset h ?_
  intro i hi hf
  exact hi ((congrArg g hf).trans hg)

/-! ### The weight of a table -/

/-- The sum of the weights of the entries of `f`. -/
noncomputable def tally (w : β → ℕ) (f : ι → β) : ℕ := ∑ᶠ i, w (f i)

/-- The entries with a weight are among the entries that are not idle. -/
theorem AlmostIdle.hasFiniteSupport {d : β} {f : ι → β} (h : AlmostIdle d f) {w : β → ℕ}
    (hw : w d = 0) : Function.HasFiniteSupport fun i => w (f i) := by
  refine Set.Finite.subset h ?_
  intro i hi hf
  exact hi ((congrArg w hf).trans hw)

/-- **Rewriting one entry** trades the weight of the old entry for the weight of the new one. -/
theorem tally_update [DecidableEq ι] {d : β} {f : ι → β} (h : AlmostIdle d f) {w : β → ℕ}
    (hw : w d = 0) (i : ι) (b : β) :
    tally w (Function.update f i b) + w (f i) = tally w f + w b := by
  have hold := add_finsum_cond_ne i (h.hasFiniteSupport hw)
  have hnew := add_finsum_cond_ne i ((h.update i b).hasFiniteSupport hw)
  have hrest : (∑ᶠ (j) (_ : j ≠ i), w (Function.update f i b j)) =
      ∑ᶠ (j) (_ : j ≠ i), w (f j) := by
    refine finsum_congr fun j => finsum_congr fun hj => ?_
    rw [Function.update_of_ne hj]
  rw [hrest, Function.update_self] at hnew
  unfold tally
  omega

/-- Weights add up. -/
theorem tally_add {d : β} {f : ι → β} (h : AlmostIdle d f) {v w : β → ℕ} (hv : v d = 0)
    (hw : w d = 0) : tally (fun b => v b + w b) f = tally v f + tally w f :=
  finsum_add_distrib (h.hasFiniteSupport hv) (h.hasFiniteSupport hw)

/-- Heavier weights, heavier table. -/
theorem tally_mono {d : β} {f : ι → β} (h : AlmostIdle d f) {v w : β → ℕ} (hw : w d = 0)
    (hvw : ∀ b, v b ≤ w b) : tally v f ≤ tally w f := by
  have hv : v d = 0 := Nat.le_zero.1 (hw ▸ hvw d)
  exact finsum_le_finsum' (h.hasFiniteSupport hv) (h.hasFiniteSupport hw) fun i => hvw (f i)

/-- Moving one entry to one of the same weight. -/
theorem tally_update_eq [DecidableEq ι] {d : β} {f : ι → β} (h : AlmostIdle d f) {w : β → ℕ}
    (hw : w d = 0) {i : ι} {b : β} (hb : w b = w (f i)) :
    tally w (Function.update f i b) = tally w f := by
  have := tally_update h hw i b
  omega

/-- No entry weighs more than the table. -/
theorem le_tally {d : β} {f : ι → β} (h : AlmostIdle d f) {w : β → ℕ} (hw : w d = 0) (i : ι) :
    w (f i) ≤ tally w f :=
  single_le_finsum i (h.hasFiniteSupport hw) fun _ => Nat.zero_le _

/-- **A table weighs nothing exactly when no entry does.** -/
theorem tally_eq_zero_iff {d : β} {f : ι → β} (h : AlmostIdle d f) {w : β → ℕ} (hw : w d = 0) :
    tally w f = 0 ↔ ∀ i, w (f i) = 0 := by
  constructor
  · intro h0 i
    have := le_tally h hw i
    omega
  · intro h0
    simp [tally, h0]

/-! ### Counting entries -/

/-- The number of entries of `f` that satisfy `P`. -/
noncomputable def headcount (P : β → Prop) (f : ι → β) : ℕ := {i | P (f i)}.ncard

/-- A count is the tally of the weight that is one on the entries counted. -/
theorem headcount_eq_tally (P : β → Prop) [DecidablePred P] (f : ι → β) :
    headcount P f = tally (fun b => if P b then 1 else 0) f := by
  rw [headcount, ← finsum_one, tally]
  refine finsum_congr fun i => ?_
  by_cases h : P (f i) <;> simp [h]

/-- Nothing is counted when no entry satisfies `P`. -/
theorem headcount_eq_zero {P : β → Prop} {f : ι → β} (h : ∀ i, ¬ P (f i)) : headcount P f = 0 := by
  simp [headcount, h]

/-! ### Duties -/

/-- Something is to be done once, when `n` is zero: it has been done then, or one entry is to do
it. -/
def Due (w : β → ℕ) (f : ι → β) (done n : ℕ) : Prop := done + tally w f = if n = 0 then 1 else 0

namespace Due

variable {d : β} {w : β → ℕ} {f : ι → β} {done n n' : ℕ} {i : ι} {b : β}

theorem le_one (h : Due w f done n) : done ≤ 1 := by
  unfold Due at h
  split at h <;> omega

/-- It is done when `n` is zero, and then nobody is to do it. -/
theorem of_pos (h : Due w f done n) (hpos : 0 < done) : n = 0 ∧ tally w f = 0 := by
  unfold Due at h
  split at h <;> omega

/-- Nobody does it before `n` is zero. -/
theorem early (h : Due w f done n) (hn : 0 < n) : done = 0 ∧ tally w f = 0 := by
  unfold Due at h
  rw [if_neg (Nat.pos_iff_ne_zero.1 hn)] at h
  omega

/-- Somebody is to do it: `n` is zero. -/
theorem of_weight (h : Due w f done n) (hf : AlmostIdle d f) (hw : w d = 0) (hpos : 0 < w (f i)) :
    n = 0 := by
  have hle := le_tally hf hw i
  unfold Due at h
  split at h <;> omega

variable [DecidableEq ι]

/-- An entry keeps what it is to do, and `n` is zero if it was. -/
theorem keep (h : Due w f done n) (hf : AlmostIdle d f) (hw : w d = 0) (hb : w b = w (f i))
    (hn : n' = 0 ↔ n = 0) : Due w (Function.update f i b) done n' := by
  unfold Due at h ⊢
  rw [tally_update_eq hf hw hb, h]
  simp only [hn]

/-- The number comes down to zero, and the entry is to do it. -/
theorem arise (h : Due w f done n) (hf : AlmostIdle d f) (hw : w d = 0) (hold : w (f i) = 0)
    (hnew : w b = 1) (hn : 0 < n) (hn' : n' = 0) : Due w (Function.update f i b) done n' := by
  have hupdate := tally_update hf hw i b
  have hearly := h.early hn
  unfold Due
  rw [if_pos hn']
  omega

/-- The entry does it. -/
theorem discharge (h : Due w f done n) (hf : AlmostIdle d f) (hw : w d = 0) (hold : w (f i) = 1)
    (hnew : w b = 0) : Due w (Function.update f i b) (done + 1) n := by
  have hupdate := tally_update hf hw i b
  unfold Due at h ⊢
  rw [← h]
  omega

end Due
