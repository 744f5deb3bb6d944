/-
**Descriptors of a process.**

A process holds a finite set of open descriptors.  A call that opens something is given a number
that is not in use, a call that closes one gives the number back, and a number given back may be
given out again.  Nothing here knows what a descriptor stands for.

Main definitions:

* `FdNumbering` — a rule for the number of a new descriptor, with the proof that it is not in use;
* `FdNumbering.lowest` — the rule of the standard: the lowest number that is not in use.

Main results:

* `FdNumbering.pick_ne` — a new descriptor is none of those that are open.
-/

import Mathlib.Data.Finset.Card

set_option relaxedAutoImplicit false
set_option autoImplicit false

/-- A rule that numbers new descriptors, given those that are open. -/
structure FdNumbering where
  pick : Finset ℕ → ℕ
  pick_notMem : ∀ s, pick s ∉ s

namespace FdNumbering

/-- A new descriptor is none of those that are open. -/
theorem pick_ne (N : FdNumbering) {s : Finset ℕ} {fd : ℕ} (h : fd ∈ s) : fd ≠ N.pick s := by
  rintro rfl
  exact N.pick_notMem s h

/-- Among the first `s.card + 1` numbers one is not in `s`. -/
theorem exists_find?_range (s : Finset ℕ) :
    ∃ n, (List.range (s.card + 1)).find? (fun n => decide (n ∉ s)) = some n := by
  have hcard : s.card < (Finset.range (s.card + 1)).card := by
    rw [Finset.card_range]
    omega
  obtain ⟨n, hn, hns⟩ := Finset.exists_mem_notMem_of_card_lt_card hcard
  rw [← Option.isSome_iff_exists, List.find?_isSome]
  exact ⟨n, List.mem_range.2 (Finset.mem_range.1 hn), decide_eq_true hns⟩

/-- The lowest number that is not in use. -/
def lowest : FdNumbering where
  pick s := ((List.range (s.card + 1)).find? fun n => decide (n ∉ s)).getD 0
  pick_notMem s := by
    obtain ⟨n, hn⟩ := exists_find?_range s
    rw [hn, Option.getD_some]
    simpa using List.find?_some hn

end FdNumbering
