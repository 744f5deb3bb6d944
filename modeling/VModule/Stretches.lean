/-
**Stretches of a list.**

A log that is kept in several files, a buffer that is emptied now and then, a message that is sent
in packets: some lists are stretches of one list, which stand in it one behind the other, each
without a gap, with gaps between them.  Nothing in this module knows what the lists are.

Main definitions:

* `VModule.Stretches` — lists that are stretches of a list.

Main results:

* `VModule.Stretches.isInfix` — a stretch is a part without a gap;
* `VModule.Stretches.mono` — stretches of a beginning;
* `VModule.Stretches.hom` — what is made of the stretches, when the same is made of the list;
* `VModule.Stretches.exists_of_map` — stretches of the images come from stretches.
-/

import Mathlib.Data.List.Basic

set_option relaxedAutoImplicit false
set_option autoImplicit false

namespace VModule

variable {α β : Type*}

/-- The lists `ms` stand in `w` one behind the other, with gaps between them. -/
inductive Stretches : List (List α) → List α → Prop
  | nil : Stretches [] []
  | part {ms : List (List α)} {w : List α} (m : List α) : Stretches ms w →
      Stretches (ms ++ [m]) (w ++ m)
  | skip {ms : List (List α)} {w : List α} (g : List α) : Stretches ms w → Stretches ms (w ++ g)

namespace Stretches

variable {ms : List (List α)} {w w' : List α}

/-- A stretch has no gap. -/
theorem isInfix (h : Stretches ms w) : ∀ m ∈ ms, m <:+: w := by
  induction h with
  | nil =>
      intro m hm
      cases hm
  | @part ms w m₀ _ ih =>
      intro m hm
      rcases List.mem_append.1 hm with hm | hm
      · exact (ih m hm).trans (List.prefix_append w m₀).isInfix
      · rw [List.mem_singleton.1 hm]
        exact (List.suffix_append w m₀).isInfix
  | @skip ms w g _ ih =>
      intro m hm
      exact (ih m hm).trans (List.prefix_append w g).isInfix

/-- What comes behind is a gap. -/
theorem mono (h : Stretches ms w) (hw : w <+: w') : Stretches ms w' := by
  obtain ⟨g, rfl⟩ := hw
  exact h.skip g

/-- What `φ` makes of a list it makes of its parts. -/
theorem hom {φ : List α → List β} (hnil : φ [] = []) (happend : ∀ v w, φ (v ++ w) = φ v ++ φ w)
    (h : Stretches ms w) : Stretches (ms.map φ) (φ w) := by
  induction h with
  | nil =>
      rw [hnil]
      exact .nil
  | part m _ ih =>
      rw [List.map_append, happend]
      exact ih.part (φ m)
  | skip g _ ih =>
      rw [happend]
      exact ih.skip (φ g)

/-- Stretches of what `f` makes of a list are what it makes of stretches. -/
theorem exists_of_map {f : α → β} {ns : List (List β)} {v : List β} (h : Stretches ns v)
    (hv : v = w.map f) : ∃ ms, Stretches ms w ∧ ms.map (List.map f) = ns := by
  induction h generalizing w with
  | nil =>
      rw [List.map_eq_nil_iff.1 hv.symm]
      exact ⟨[], .nil, rfl⟩
  | part m _ ih =>
      obtain ⟨w₁, w₂, rfl, h₁, h₂⟩ := List.append_eq_map_iff.1 hv
      obtain ⟨ms, hms, hns⟩ := ih h₁.symm
      exact ⟨ms ++ [w₂], hms.part w₂, by rw [List.map_append, hns, ← h₂]; rfl⟩
  | skip g _ ih =>
      obtain ⟨w₁, w₂, rfl, h₁, -⟩ := List.append_eq_map_iff.1 hv
      obtain ⟨ms, hms, hns⟩ := ih h₁.symm
      exact ⟨ms, hms.skip w₂, hns⟩

end Stretches

end VModule
