/-
**`RemoveDuplicatedSpacesAndTabs` of `sutils/StringUtils.cpp` squeezes the runs of spaces and
tabs.**

The loop erases from the string that it goes through.  What is before its position is the result so
far, and what is from the position on is still as it was; the flag says whether the last character
of the result is a space.

Main results:

* `VModule.StringUtils.removeDuplicatedLoop_eq` — the loop, from any position;
* `VModule.removeDuplicated_squeezes` — what the function makes of a string.
-/

import VModule.Runs
import VModule.StringScans

set_option relaxedAutoImplicit false
set_option autoImplicit false

namespace VModule

open Runs

namespace StringUtils

/-- A space or a tab. -/
def isBlank (c : UInt8) : Bool := c = 32 ∨ c = 9

/-- The string with one space for each maximal run of spaces and tabs. -/
def singleSpaced (str : List UInt8) : List UInt8 := squeeze isBlank 32 str

theorem getElem?_length_append (done rest : List UInt8) (c : UInt8) :
    (done ++ c :: rest)[done.length]? = some c := by
  rw [List.getElem?_append_right (Nat.le_refl _), Nat.sub_self, List.getElem?_cons_zero]

/-- A tab is a space before it is looked at. -/
theorem rewrite_tab (done rest : List UInt8) (c : UInt8) :
    (if (done ++ c :: rest)[done.length]? = some 9 then (done ++ c :: rest).set done.length 32
      else done ++ c :: rest) = done ++ (if c = 9 then 32 else c) :: rest := by
  simp only [getElem?_length_append, Option.some_inj]
  split
  · rw [List.set_append_right _ _ (Nat.le_refl _), Nat.sub_self, List.set_cons_zero]
  · rfl

/-- One round of the loop. -/
theorem removeDuplicatedLoop_succ (done rest : List UInt8) (c : UInt8) (onSpace : Bool) (fuel : ℕ) :
    removeDuplicatedLoop (fuel + 1) (done ++ c :: rest) done.length onSpace =
      if isBlank c then
        if onSpace then removeDuplicatedLoop fuel (done ++ rest) done.length true
        else removeDuplicatedLoop fuel (done ++ 32 :: rest) (done.length + 1) true
      else removeDuplicatedLoop fuel (done ++ c :: rest) (done.length + 1) false := by
  have hlt : done.length < (done ++ c :: rest).length := by
    rw [List.length_append, List.length_cons]
    omega
  rw [removeDuplicatedLoop, if_pos hlt]
  dsimp only
  rw [rewrite_tab]
  simp only [getElem?_length_append, Option.some_inj]
  by_cases hc : isBlank c
  · have hspace : (if c = 9 then 32 else c) = 32 := by
      rcases of_decide_eq_true hc with rfl | rfl
      · rfl
      · rfl
    rw [if_pos hc, hspace, if_pos rfl]
    cases onSpace with
    | true => rw [if_pos rfl, if_pos rfl, List.eraseIdx_append_of_length_le (Nat.le_refl _),
        Nat.sub_self, List.eraseIdx_cons_zero]
    | false => rfl
  · have hno : ¬ (c = 32 ∨ c = 9) := fun h => hc (decide_eq_true h)
    rw [if_neg hc, if_neg fun h => hno (Or.inr h), if_neg fun h => hno (Or.inl h)]

/-- The characters `done` are the result so far. -/
theorem removeDuplicatedLoop_eq (done rest : List UInt8) (onSpace : Bool) {fuel : ℕ}
    (h : rest.length < fuel) :
    removeDuplicatedLoop fuel (done ++ rest) done.length onSpace =
      some (done ++ squeezeFrom isBlank 32 onSpace rest) := by
  induction rest generalizing done onSpace fuel with
  | nil =>
      obtain ⟨fuel, rfl⟩ := Nat.exists_eq_add_one_of_ne_zero (Nat.ne_zero_of_lt h)
      rw [removeDuplicatedLoop, List.append_nil, if_neg (Nat.lt_irrefl _)]
      cases onSpace <;> rw [squeezeFrom, List.append_nil]
  | cons c rest ih =>
      obtain ⟨fuel, rfl⟩ := Nat.exists_eq_add_one_of_ne_zero (Nat.ne_zero_of_lt h)
      have hfuel : rest.length < fuel := Nat.lt_of_succ_lt_succ h
      have hkeep : ∀ (d : UInt8) (on : Bool),
          removeDuplicatedLoop fuel (done ++ d :: rest) (done.length + 1) on =
            some (done ++ d :: squeezeFrom isBlank 32 on rest) := by
        intro d on
        have hih := ih (done ++ [d]) on hfuel
        rw [List.length_append, List.append_assoc, List.append_assoc] at hih
        exact hih
      rw [removeDuplicatedLoop_succ]
      by_cases hc : isBlank c
      · cases onSpace with
        | true => rw [if_pos hc, if_pos rfl, ih done true hfuel, squeezeFrom, if_pos hc]
        | false =>
            rw [if_pos hc, if_neg Bool.false_ne_true, hkeep, squeezeFrom, if_pos hc]
      · rw [if_neg hc, hkeep, squeezeFrom_cons_neg onSpace rest hc]

theorem removeDuplicated_eq (str : List UInt8) {fuel : ℕ} (h : str.length < fuel) :
    removeDuplicatedSpacesAndTabs fuel str = some (singleSpaced str) := by
  have hloop := removeDuplicatedLoop_eq [] str false h
  rw [squeezeFrom_false_eq] at hloop
  exact hloop

/-- Blanks are single spaces where there is no tab and no space beside another. -/
theorem squeezed_blank_iff {str : List UInt8} :
    Squeezed isBlank 32 str ↔ 9 ∉ str ∧ ¬ [32, 32] <:+: str := by
  have htab : (∀ c ∈ str, isBlank c → c = 32) ↔ 9 ∉ str := by
    constructor
    · exact fun h hmem => absurd (h 9 hmem rfl) (by decide)
    · intro h c hc hblank
      rcases of_decide_eq_true hblank with hspace | rfl
      · exact hspace
      · exact absurd hc h
  rw [squeezed_iff rfl, htab]

end StringUtils

open StringUtils

/-- **`RemoveDuplicatedSpacesAndTabs` squeezes the runs**: it ends, with one space for each maximal
run of spaces and tabs and all other characters as they were.  So the result has no tab and no space
beside another, it stays as it is when the function is called again, and a string is left unchanged
exactly when it has these two features already. -/
theorem removeDuplicated_squeezes (str : List UInt8) :
    ∃ result, (∀ fuel, str.length < fuel →
        removeDuplicatedSpacesAndTabs fuel str = some result) ∧
      result = singleSpaced str ∧
      9 ∉ result ∧ ¬ [32, 32] <:+: result ∧
      (∀ fuel, result.length < fuel → removeDuplicatedSpacesAndTabs fuel result = some result) ∧
      (result = str ↔ 9 ∉ str ∧ ¬ [32, 32] <:+: str) := by
  have hsqueezed : Squeezed isBlank 32 (singleSpaced str) := squeezed_squeeze str
  obtain ⟨htab, hspaces⟩ := squeezed_blank_iff.1 hsqueezed
  refine ⟨singleSpaced str, fun _ => removeDuplicated_eq str, rfl, htab, hspaces, ?_, ?_⟩
  · intro fuel hfuel
    rw [removeDuplicated_eq _ hfuel, singleSpaced, squeeze_eq_self_iff.2 hsqueezed]
  · rw [singleSpaced, squeeze_eq_self_iff, squeezed_blank_iff]

end VModule
