/-
**`StringUtils::Split` and `StringUtils::Replace`, undone.**

`Split` takes a joined row of pieces apart again, with any limit, exactly if the delimiter ends each
piece but the last, and the last has it inside only where the limit is reached.  `Replace` puts the
old string back, where it has put the new one, exactly if its scan for the new one comes to no other
place.

Main definitions:

* `VModule.StringUtils.matched` — the places where `Replace` finds a string.

Main results:

* `VModule.split_joined_iff` — **when a joined row is split into its pieces**;
* `VModule.replace_back_iff` — **when `Replace` can be undone**.
-/

import VModule.ReplaceRuns
import VModule.WordJoins
import Mathlib.Data.List.Infix

set_option relaxedAutoImplicit false
set_option autoImplicit false

open Words

namespace VModule

namespace StringUtils

variable {α : Type} [DecidableEq α] {w : ℕ}

omit [DecidableEq α] in
theorem intercalate_eq_nil_iff {f : List α} {ps : List (List α)} (hf : f ≠ []) (hps : ps ≠ []) :
    f.intercalate ps = [] ↔ ps = [[]] := by
  cases ps with
  | nil => exact absurd rfl hps
  | cons p ps =>
      cases ps with
      | nil => rw [List.intercalate_singleton, List.cons_eq_cons, and_iff_left rfl]
      | cons q ps =>
          rw [List.intercalate_cons_of_ne_nil (List.cons_ne_nil q ps)]
          simp [hf]

/-- What is returned is the row, if the row is a way to cut the text. -/
theorem results_eq_iff {text f : List α} {n : ℕ} {ps : List (List α)}
    {run : ℕ → Option (List (List α))} (hf : f ≠ [])
    (hrun : ∃ results, Pieces f text n results ∧
      ∀ fuel, text.length < fuel → run fuel = some results) {fuel : ℕ}
    (hfuel : text.length < fuel) : run fuel = some ps ↔ Pieces f text n ps := by
  obtain ⟨results, hresults, hreturned⟩ := hrun
  rw [hreturned fuel hfuel, Option.some_inj]
  constructor
  · intro heq
    exact heq ▸ hresults
  · intro hps
    exact hresults.unique hps (by rw [hresults.length_eq hf, hps.length_eq hf])

omit [DecidableEq α] in
/-- A letter ends the pieces that do not have it. -/
theorem endsAt_singleton_iff {c : α} {p : List α} : EndsAt [c] p ↔ c ∉ p := by
  rw [(unbordered_singleton c).endsAt_iff (List.cons_ne_nil c []), List.singleton_infix_iff]

/-- The text with `none` for each place where `Replace` finds the old string; it does not look for
an empty one. -/
def matched (oldStr str : List α) : List (Option α) :=
  if oldStr = [] then str.map some else marked oldStr str

/-- How many places these are. -/
def numMatched (oldStr str : List α) : ℕ := (matched oldStr str).countP Option.isNone

theorem matched_nil (str : List α) : matched [] str = str.map some := if_pos rfl

theorem matched_of_ne {oldStr : List α} (hold : oldStr ≠ []) (str : List α) :
    matched oldStr str = marked oldStr str := if_neg hold

theorem numMatched_nil (str : List α) : numMatched [] str = 0 := by
  rw [numMatched, matched_nil, List.countP_eq_zero]
  simp

theorem numMatched_of_ne {oldStr : List α} (hold : oldStr ≠ []) (str : List α) :
    numMatched oldStr str = disjoint oldStr str := by
  rw [numMatched, matched_of_ne hold, disjoint]

variable {oldStr newStr str result : List α} {fuel : ℕ} {number : ℤ}

/-- What `Replace` returns where the count is one that an `int` can have. -/
theorem replaceIn_matched (hcount : numMatched oldStr str < 2 ^ 31) (hfuel : str.length < fuel) :
    replaceIn fuel str oldStr newStr =
      some (fill newStr (matched oldStr str), (numMatched oldStr str : ℤ)) := by
  by_cases hold : oldStr = []
  · rw [hold, replaceIn, if_pos rfl, matched_nil, fill_map_some, numMatched_nil, Int.natCast_zero]
  · rw [numMatched_of_ne hold] at hcount ⊢
    rw [matched_of_ne hold, replaceIn_eq hold hcount hfuel]

/-- What `Replace` returns, if it returns. -/
theorem eq_of_replaceIn (h : replaceIn fuel str oldStr newStr = some (result, number)) :
    result = fill newStr (matched oldStr str) ∧ number = numMatched oldStr str := by
  by_cases hold : oldStr = []
  · rw [hold, replaceIn, if_pos rfl, Option.some_inj] at h
    obtain ⟨rfl, rfl⟩ := Prod.mk.inj h
    rw [hold, matched_nil, fill_map_some, numMatched_nil]
    exact ⟨rfl, rfl⟩
  · rw [replaceIn, if_neg hold] at h
    obtain ⟨hresult, hnumber⟩ := Prod.mk.inj (replaceLoop_eq hold fuel [] str 0 _ h)
    rw [matched_of_ne hold, numMatched_of_ne hold]
    exact ⟨hresult, hnumber.trans (Int.zero_add _)⟩

/-- When what has been put somewhere can be put back, the empty strings included. -/
theorem matched_back_iff (oldStr newStr str : List α) :
    fill oldStr (matched newStr (fill newStr (matched oldStr str))) = str ↔
      matched newStr (fill newStr (matched oldStr str)) = matched oldStr str := by
  by_cases hold : oldStr = []
  · rw [hold, matched_nil, fill_map_some]
    by_cases hnew : newStr = []
    · rw [hnew, matched_nil, fill_map_some]
      exact iff_of_true rfl rfl
    · rw [matched_of_ne hnew]
      exact fill_nil_iff hnew str
  · rw [matched_of_ne hold]
    by_cases hnew : newStr = []
    · -- nothing is looked for, so nothing can have been taken out
      rw [hnew, matched_nil, fill_map_some]
      constructor
      · intro h
        rw [(fill_nil_iff hold str).1 h, fill_map_some]
      · intro h
        have hself := fill_marked_self hold str
        rwa [← h, fill_map_some] at hself
    · rw [matched_of_ne hnew]
      exact fill_back_iff hold hnew str

end StringUtils

open StringUtils

variable {α : Type} [DecidableEq α]

/-- **When a joined row is split into its pieces.**  `Split` returns the pieces that have been
joined if and only if they are not the empty string alone, the delimiter does not begin earlier than
behind each of them but the last, and either the limit is reached or the last one does not have the
delimiter inside.  For the overload that splits at a character that is to say which pieces do not
have it. -/
theorem split_joined_iff (ps : List (List α)) :
    (∀ (delimiter : List α) (iMaxStrings : BitVec 32), delimiter ≠ [] → ∀ fuel,
      (delimiter.intercalate ps).length < fuel →
        (split fuel (delimiter.intercalate ps) delimiter iMaxStrings = some ps ↔
          ps ≠ [[]] ∧ (∀ p ∈ ps.dropLast, FirstAt delimiter (p ++ delimiter) p.length) ∧
            (ps.length = limit iMaxStrings ∨
              ps.length < limit iMaxStrings ∧ ∀ p ∈ ps.getLast?, ¬ delimiter <:+: p))) ∧
      ∀ (c : α) (iMaxStrings : BitVec 64) fuel, ([c].intercalate ps).length < fuel →
        (splitChar fuel ([c].intercalate ps) c iMaxStrings = some ps ↔
          ps ≠ [[]] ∧ (∀ p ∈ ps.dropLast, c ∉ p) ∧
            (ps.length = limit iMaxStrings ∨
              ps.length < limit iMaxStrings ∧ ∀ p ∈ ps.getLast?, c ∉ p)) := by
  by_cases hps : ps = []
  · subst hps
    constructor
    · intro delimiter n _ fuel _
      simp [split, limit_pos]
    · intro c n fuel _
      simp [splitChar, limit_pos]
  constructor
  · intro delimiter n hdelim fuel hfuel
    by_cases htext : delimiter.intercalate ps = []
    · rw [split, if_pos htext, (intercalate_eq_nil_iff hdelim hps).1 htext]
      simp
    · have hne : ps ≠ [[]] := fun h => htext ((intercalate_eq_nil_iff hdelim hps).2 h)
      rw [results_eq_iff hdelim (split_pieces htext hdelim n) hfuel, pieces_intercalate_iff hps,
        and_iff_right hne]
      rfl
  · intro c n fuel hfuel
    have hdelim : [c] ≠ [] := List.cons_ne_nil c []
    by_cases htext : [c].intercalate ps = []
    · rw [splitChar, if_pos htext, (intercalate_eq_nil_iff hdelim hps).1 htext]
      simp
    · have hne : ps ≠ [[]] := fun h => htext ((intercalate_eq_nil_iff hdelim hps).2 h)
      rw [results_eq_iff hdelim (splitChar_pieces htext c n) hfuel, pieces_intercalate_iff hps,
        and_iff_right hne]
      simp only [Apart, endsAt_singleton_iff, List.singleton_infix_iff]

/-- `"a"`, `""` and `"b,c"` at the first two commas. -/
theorem split_joined_iff_commas :
    split 8 [97, 44, 44, 98, 44, 99] [44] 3#32 =
      some ([[97], [], [98, 44, 99]] : List (List UInt8)) :=
  ((split_joined_iff [[97], [], [98, 44, 99]]).1 [44] 3#32 (by decide) 8 (by decide)).2
    ⟨by decide, by decide, .inl rfl⟩

/-- **When `Replace` can be undone.**  Whatever is replaced, the empty string included: to replace
the new string by the old one afterwards gives the first string back if and only if the second call
finds the new string where it has been put and nowhere else; then both calls return the same number.
So it is whenever the old string is a character and the new one ends with it and does not have it
anywhere else.  The calls return if no count becomes `2 ^ 31`. -/
theorem replace_back_iff {oldStr newStr str result : List α} {number : ℤ} {fuel fuel' : ℕ}
    (h : replaceIn fuel str oldStr newStr = some (result, number)) (hfuel : result.length < fuel')
    (hcount : numMatched newStr result < 2 ^ 31) :
    ((∃ number', replaceIn fuel' result newStr oldStr = some (str, number')) ↔
        matched newStr result = matched oldStr str) ∧
      (∀ number', replaceIn fuel' result newStr oldStr = some (str, number') → number' = number) ∧
      ∀ c w, oldStr = [c] → newStr = w ++ [c] → c ∉ w →
        replaceIn fuel' result newStr oldStr = some (str, number) := by
  obtain ⟨rfl, rfl⟩ := eq_of_replaceIn h
  have hback : replaceIn fuel' _ newStr oldStr = _ := replaceIn_matched hcount hfuel
  have hsame : matched newStr (fill newStr (matched oldStr str)) = matched oldStr str →
      numMatched newStr (fill newStr (matched oldStr str)) = numMatched oldStr str := by
    intro hmarks
    rw [numMatched, hmarks, numMatched]
  refine ⟨?_, fun number' h' => ?_, fun c w hc hw hletter => ?_⟩
  · rw [← matched_back_iff, hback]
    simp [Prod.ext_iff]
  · rw [hback, Option.some_inj] at h'
    obtain ⟨hstr, hnumber⟩ := Prod.mk.inj h'
    rw [← hnumber, hsame ((matched_back_iff oldStr newStr str).1 hstr)]
  · have hmarks : matched newStr (fill newStr (matched oldStr str)) = matched oldStr str := by
      rw [hc, hw, matched_of_ne (List.cons_ne_nil c []), matched_of_ne (by simp)]
      exact marked_fill_of_last hletter str
    rw [hback, hsame hmarks, (matched_back_iff oldStr newStr str).2 hmarks]

/-- A line feed gets a carriage return, and loses it again. -/
theorem replace_back_iff_crlf :
    replaceIn 7 [97, 13, 13, 10, 98] [13, 10] [10] = some (([97, 13, 10, 98] : List UInt8), 1) :=
  (replace_back_iff (by decide : replaceIn 5 [97, 13, 10, 98] [10] [13, 10] =
    some (([97, 13, 13, 10, 98] : List UInt8), 1)) (by decide : 5 < 7) (by decide)).2.2
      10 [13] rfl rfl (by decide)

end VModule
