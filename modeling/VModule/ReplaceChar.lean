/-
**`StringUtils::Replace` at a character.**

The overload goes along the string once, with an iterator, and writes into it.  What stands before
the iterator has been dealt with, so the loop keeps the part that is done and the part that is
ahead.  It does in one pass what the overload for strings does by searches, and what a `Split` and a
`Join` do with the pieces.

Main definitions:

* `VModule.StringUtils.replaceChar` — the overload, with what becomes of the string.

Main results:

* `VModule.StringUtils.replaceChar_eq_some_iff` — what is returned, and that the count is an `int`;
* `VModule.StringUtils.replaceLoop_singleton` — the searches go along with the one pass;
* `VModule.StringUtils.replaceChar_back_iff` — when the call can be undone;
* `VModule.replace_char` — **the overloads agree**, with `Split`, `FindNumber` and a call back.
-/

import VModule.ReplaceRuns
import VModule.WordJoins

set_option relaxedAutoImplicit false
set_option autoImplicit false

open Words

namespace VModule

namespace StringUtils

variable {α : Type} [DecidableEq α]

/-- The loop over the iterator, behind which is `done`. -/
def replaceCharLoop (oldChar newChar : α) (done : List α) :
    List α → ℤ → Option (List α × ℤ)
  | [], replacedChars => some (done, replacedChars)
  | c :: rest, replacedChars =>
      if c = oldChar then
        match increment replacedChars with
        | none => none
        | some replacedChars =>
            replaceCharLoop oldChar newChar (done ++ [newChar]) rest replacedChars
      else replaceCharLoop oldChar newChar (done ++ [c]) rest replacedChars

/-- `Replace` of a character, with what becomes of `str` and what is returned. -/
def replaceChar (str : List α) (oldChar newChar : α) : Option (List α × ℤ) :=
  replaceCharLoop oldChar newChar [] str 0

/-- The character that stands where `c` did. -/
def swapped (oldChar newChar c : α) : α := if c = oldChar then newChar else c

variable {oldChar newChar : α} {done rest str : List α} {count : ℤ}

/-! ### The one pass -/

theorem replaceCharLoop_cons_self (hcount : count < 2147483647) :
    replaceCharLoop oldChar newChar done (oldChar :: rest) count =
      replaceCharLoop oldChar newChar (done ++ [newChar]) rest (count + 1) := by
  rw [replaceCharLoop, if_pos rfl, increment_eq hcount]

theorem replaceCharLoop_cons_of_ne {c : α} (hc : c ≠ oldChar) :
    replaceCharLoop oldChar newChar done (c :: rest) count =
      replaceCharLoop oldChar newChar (done ++ [c]) rest count := by
  rw [replaceCharLoop, if_neg hc]

/-- What has no such character in it is passed over. -/
theorem replaceCharLoop_append {w : List α} (hw : oldChar ∉ w) :
    replaceCharLoop oldChar newChar done (w ++ rest) count =
      replaceCharLoop oldChar newChar (done ++ w) rest count := by
  induction w generalizing done with
  | nil => rw [List.nil_append, List.append_nil]
  | cons c w ih =>
      rw [List.mem_cons, not_or] at hw
      rw [List.cons_append, replaceCharLoop_cons_of_ne (Ne.symm hw.1), ih hw.2, ← List.append_cons]

/-- The loop comes to the end where the count stays in the range of an `int`. -/
theorem replaceCharLoop_of_le (hcount : count + rest.count oldChar ≤ 2147483647) :
    replaceCharLoop oldChar newChar done rest count =
      some (done ++ rest.map (swapped oldChar newChar), count + rest.count oldChar) := by
  induction rest generalizing done count with
  | nil =>
      rw [replaceCharLoop, List.map_nil, List.append_nil, List.count_nil, Int.natCast_zero,
        Int.add_zero]
  | cons c rest ih =>
      rw [List.map_cons, List.append_cons]
      by_cases hc : c = oldChar
      · subst hc
        have hsucc : count + (c :: rest).count c = count + 1 + rest.count c := by
          rw [List.count_cons_self]
          omega
        rw [hsucc] at hcount ⊢
        rw [replaceCharLoop_cons_self (by omega), ih hcount, swapped, if_pos rfl]
      · rw [List.count_cons_of_ne hc] at hcount ⊢
        rw [replaceCharLoop_cons_of_ne hc, ih hcount, swapped, if_neg hc]

/-- The loop overflows where it does not. -/
theorem replaceCharLoop_of_gt (hstart : count ≤ 2147483647)
    (hcount : 2147483647 < count + rest.count oldChar) :
    replaceCharLoop oldChar newChar done rest count = none := by
  induction rest generalizing done count with
  | nil =>
      rw [List.count_nil] at hcount
      omega
  | cons c rest ih =>
      by_cases hc : c = oldChar
      · subst hc
        rw [List.count_cons_self] at hcount
        by_cases hlt : count < 2147483647
        · rw [replaceCharLoop_cons_self hlt]
          exact ih (by omega) (by omega)
        · rw [replaceCharLoop, if_pos rfl, increment, if_neg hlt]
      · rw [List.count_cons_of_ne hc] at hcount
        rw [replaceCharLoop_cons_of_ne hc]
        exact ih hstart hcount

/-- **What `Replace` at a character returns.** -/
theorem replaceChar_eq_some_iff {r : List α × ℤ} :
    replaceChar str oldChar newChar = some r ↔
      str.count oldChar < 2 ^ 31 ∧
        r = (str.map (swapped oldChar newChar), (str.count oldChar : ℤ)) := by
  rw [replaceChar]
  by_cases hcount : str.count oldChar < 2 ^ 31
  · rw [replaceCharLoop_of_le (by omega), Option.some_inj, List.nil_append, Int.zero_add, eq_comm,
      and_iff_right hcount]
  · rw [replaceCharLoop_of_gt (by omega) (by omega)]
    constructor
    · intro h
      cases h
    · intro h
      exact absurd h.1 hcount

/-! ### The searches -/

omit [DecidableEq α] in
/-- Before the first place where the character is, it is not. -/
theorem not_mem_take_of_firstAt {k : ℕ} (h : FirstAt [oldChar] rest k) :
    oldChar ∉ rest.take k := by
  intro hmem
  obtain ⟨j, hj, heq⟩ := List.mem_iff_getElem.1 hmem
  rw [List.length_take] at hj
  refine h.2 j (by omega) (StdString.occursAt_singleton.2 ?_)
  rw [List.getElem?_eq_getElem (by omega), ← heq, List.getElem_take]

/-- **The searches go along with the one pass**, also to an overflow. -/
theorem replaceLoop_singleton {fuel : ℕ} (hfuel : rest.length < fuel) :
    replaceLoop [oldChar] [newChar] fuel (done ++ rest) done.length count =
      replaceCharLoop oldChar newChar done rest count := by
  induction fuel generalizing done rest count with
  | zero => omega
  | succ fuel ih =>
      have hold : [oldChar] ≠ [] := List.cons_ne_nil oldChar []
      rcases none_or_firstAt [oldChar] rest with hnone | ⟨k, hk⟩
      · have hmem : oldChar ∉ rest := by
          intro hmem
          obtain ⟨j, hj⟩ := List.mem_iff_getElem?.1 hmem
          exact hnone j (StdString.occursAt_singleton.2 hj)
        have hpass := @replaceCharLoop_append _ _ oldChar newChar done [] count rest hmem
        rw [List.append_nil, replaceCharLoop] at hpass
        rw [replaceLoop_of_none hnone, hpass]
      · have hlt := hk.lt_length hold
        have hpass : replaceCharLoop oldChar newChar done rest count =
            replaceCharLoop oldChar newChar (done ++ rest.take k)
              (oldChar :: rest.drop (k + 1)) count := by
          rw [← replaceCharLoop_append (not_mem_take_of_firstAt hk), List.append_cons]
          exact congrArg (fun r => replaceCharLoop oldChar newChar done r count) hk.eq_append
        rw [replaceLoop_of_firstAt hold hk, hpass, replaceCharLoop, if_pos rfl]
        cases increment count with
        | none => rfl
        | some count => exact ih (by omega)

/-- The overload for strings does the same, with no other fuel than it needs. -/
theorem replaceIn_singleton {fuel : ℕ} (hfuel : str.length < fuel) :
    replaceIn fuel str [oldChar] [newChar] = replaceChar str oldChar newChar := by
  have hloop : replaceLoop [oldChar] [newChar] fuel ([] ++ str) ([] : List α).length 0 =
      replaceCharLoop oldChar newChar [] str 0 := replaceLoop_singleton hfuel
  rw [replaceIn, if_neg (List.cons_ne_nil oldChar [])]
  exact hloop

/-! ### Back again -/

theorem swapped_back {c : α} (h : oldChar = newChar ∨ c ≠ newChar) :
    swapped newChar oldChar (swapped oldChar newChar c) = c := by
  by_cases hc : c = oldChar
  · rw [swapped, swapped, if_pos hc, if_pos rfl, hc]
  · have hnew : c ≠ newChar := by
      rcases h with rfl | h
      · exact hc
      · exact h
    rw [swapped, swapped, if_neg hc, if_neg hnew]

theorem swapped_new : swapped newChar oldChar (swapped oldChar newChar newChar) = oldChar := by
  by_cases h : newChar = oldChar
  · rw [swapped, swapped, if_pos h, if_pos rfl]
  · rw [swapped, swapped, if_neg h, if_pos rfl]

/-- The new characters are as many as the old ones were. -/
theorem count_map_swapped (h : oldChar = newChar ∨ newChar ∉ str) :
    (str.map (swapped oldChar newChar)).count newChar = str.count oldChar := by
  rw [List.count, List.countP_map, List.count]
  refine List.countP_congr fun c hc => ?_
  rw [Function.comp_apply, beq_iff_eq, beq_iff_eq, swapped]
  split
  case isTrue heq => exact ⟨fun _ => heq, fun _ => rfl⟩
  case isFalse hne =>
    constructor
    · rintro rfl
      rcases h with rfl | h
      · rfl
      · exact absurd hc h
    · intro heq
      exact absurd heq hne

/-- **When `Replace` at a character can be undone.** -/
theorem replaceChar_back_iff {t : List α} {n : ℤ}
    (h : replaceChar str oldChar newChar = some (t, n)) :
    replaceChar t newChar oldChar = some (str, n) ↔ oldChar = newChar ∨ newChar ∉ str := by
  obtain ⟨hcount, heq⟩ := replaceChar_eq_some_iff.1 h
  obtain ⟨rfl, rfl⟩ := Prod.mk.inj heq
  have hmap : str = (str.map (swapped oldChar newChar)).map (swapped newChar oldChar) ↔
      ∀ c ∈ str, swapped newChar oldChar (swapped oldChar newChar c) = c := by
    rw [List.map_map, eq_comm]
    conv_lhs => rhs; rw [← List.map_id str]
    exact List.map_inj_left
  rw [replaceChar_eq_some_iff, Prod.mk.injEq, hmap]
  constructor
  · intro ⟨_, hback, _⟩
    by_cases hmem : newChar ∈ str
    · exact .inl (swapped_new.symm.trans (hback newChar hmem))
    · exact .inr hmem
  · intro hback
    rw [count_map_swapped hback]
    refine ⟨hcount, fun c hc => swapped_back ?_, rfl⟩
    rcases hback with heq | hmem
    · exact .inl heq
    · exact .inr fun heq => hmem (heq ▸ hc)

end StringUtils

open StringUtils

/-- **`Replace` at a character** returns where the characters are no more than an `int` can count.
The overload for strings of one character returns the same.  So does a `Split` at the old character
whose pieces are joined by the new one, and the count is that of `FindNumber`.  A second call, with
the two characters changed over, undoes the first, and returns the same count, if and only if the
new character was not in the string, or is the old one. -/
theorem replace_char (str : List UInt8) (oldChar newChar : UInt8) :
    (∀ fuel, str.length < fuel →
      replaceString fuel str [oldChar] [newChar] = replaceChar str oldChar newChar) ∧
    ((replaceChar str oldChar newChar).isSome ↔ str.count oldChar < 2 ^ 31) ∧
    ∀ t n, replaceChar str oldChar newChar = some (t, n) →
      (replaceChar t newChar oldChar = some (str, n) ↔ oldChar = newChar ∨ newChar ∉ str) ∧
      (str ≠ [] → ∃ pieces, t = [newChar].intercalate pieces ∧ n = (pieces.length : ℤ) - 1 ∧
        ∀ fuel, str.length < fuel → splitChar fuel str oldChar 0#64 = some pieces ∧
          findNumber fuel str [oldChar] = some n) := by
  have hold : [oldChar] ≠ [] := List.cons_ne_nil oldChar []
  refine ⟨fun fuel hfuel => replaceIn_singleton hfuel, ?_, fun t n h => ⟨?_, fun hstr => ?_⟩⟩
  · rw [Option.isSome_iff_exists]
    constructor
    · intro ⟨r, hr⟩
      exact (replaceChar_eq_some_iff.1 hr).1
    · intro hcount
      exact ⟨_, replaceChar_eq_some_iff.2 ⟨hcount, rfl⟩⟩
  · exact replaceChar_back_iff h
  · obtain ⟨hcount, -⟩ := replaceChar_eq_some_iff.1 h
    rw [← disjoint_singleton] at hcount
    obtain ⟨pieces, hpieces, hrun⟩ := splitChar_pieces hstr oldChar 0#64
    have hlimit : limit 0#64 = 2 ^ 64 := rfl
    have hlen := hpieces.length_eq hold
    rw [← replaceIn_singleton (Nat.lt_succ_self _), replaceIn_eq hold hcount (Nat.lt_succ_self _),
      Option.some_inj, Prod.mk.injEq] at h
    obtain ⟨rfl, rfl⟩ := h
    refine ⟨pieces, (hpieces.join_eq_fill hold (by omega)).symm, by omega, fun fuel hfuel => ?_⟩
    refine ⟨hrun fuel hfuel, ?_⟩
    rw [(unbordered_singleton oldChar).disjoint_eq hold] at hcount ⊢
    exact findNumber_returns hcount hfuel

end VModule
