/-
**What `StringUtils::Split` returns.**

Both overloads cut their input from the left, and the counter of either says into how many pieces at
most: a counter of zero is decremented to its largest value before it is looked at, so zero means
one more than that.

Main definitions:

* `VModule.StringUtils.limit` — the number of pieces that a counter allows;
* `VModule.SplitMeets` — what is owed.

Main results:

* `VModule.StringUtils.splitLoop_pieces` — either loop comes to its end with such pieces;
* `VModule.split_meets` — the pieces of `Split` at a string;
* `VModule.split_agree` — the two overloads return the same.
-/

import VModule.StringUtils

set_option relaxedAutoImplicit false
set_option autoImplicit false

open Words

namespace VModule

namespace StringUtils

variable {α : Type} [DecidableEq α] {w : ℕ}

/-! ### The counter -/

/-- How many pieces there can be before the counter is decremented to zero. -/
def limit (iMaxStrings : BitVec w) : ℕ := if iMaxStrings = 0#w then 2 ^ w else iMaxStrings.toNat

theorem toNat_pos {c : BitVec w} (h : c ≠ 0#w) : 0 < c.toNat :=
  Nat.pos_of_ne_zero fun hzero => h (BitVec.eq_of_toNat_eq (by simpa using hzero))

theorem limit_pos (c : BitVec w) : 0 < limit c := by
  unfold limit
  split
  case isTrue => exact Nat.two_pow_pos w
  case isFalse h => exact toNat_pos h

theorem toNat_one {c : BitVec w} (h : c ≠ 0#w) : (1#w).toNat = 1 := by
  refine BitVec.toNat_one (Nat.pos_of_ne_zero ?_)
  rintro rfl
  exact h (Subsingleton.elim c _)

/-- The last piece. -/
theorem limit_of_sub_eq_zero {c : BitVec w} (h : c - 1#w = 0#w) : limit c = 1 := by
  have hone : c = 1#w := by rw [← BitVec.sub_add_cancel c 1#w, h, BitVec.zero_add]
  rw [hone, limit]
  split
  case isTrue hzero =>
    have hw := congrArg BitVec.toNat hzero
    rcases Nat.eq_zero_or_pos w with rfl | hpos
    · rfl
    · rw [BitVec.toNat_one hpos] at hw
      simp at hw
  case isFalse hzero => exact toNat_one hzero

/-- One piece less. -/
theorem limit_of_sub_ne_zero {c : BitVec w} (h : c - 1#w ≠ 0#w) :
    limit c = limit (c - 1#w) + 1 := by
  have hone := toNat_one h
  have hpow := Nat.two_pow_pos w
  unfold limit
  rw [if_neg h]
  split
  case isTrue hzero =>
    rw [hzero, BitVec.zero_sub, BitVec.toNat_neg, hone, Nat.mod_eq_of_lt (by omega)]
    omega
  case isFalse hzero =>
    have hpos := toNat_pos hzero
    have hle : 1#w ≤ c := by
      rw [BitVec.le_def, hone]
      exact hpos
    rw [BitVec.toNat_sub_of_le hle, hone]
    omega

/-! ### The loop -/

/-- **Either loop comes to its end with the pieces that its counter allows.** -/
theorem splitLoop_pieces {find : ℕ → Option ℕ} {input f : List α} (hf : f ≠ [])
    (hfind : ∀ pos, find pos = StdString.find input f pos) (fuel : ℕ) :
    ∀ (c : BitVec w) (textPos : ℕ) (results : List (List α)), textPos ≤ input.length →
      input.length < textPos + fuel → ∃ ps, Pieces f (input.drop textPos) (limit c) ps ∧
        splitLoop find f.length input fuel c textPos results = some (results ++ ps) := by
  induction fuel with
  | zero =>
      intro c textPos results hpos hfuel
      omega
  | succ fuel ih =>
      intro c textPos results hpos hfuel
      have hrest := StdString.substr_npos hpos
      by_cases hc : c - 1#w = 0#w
      · refine ⟨[input.drop textPos], ?_, by simp only [splitLoop, if_pos hc, hrest]⟩
        rw [limit_of_sub_eq_zero hc]
        exact .cut _
      · obtain ⟨n, hn⟩ := Nat.exists_eq_add_of_le' (limit_pos (c - 1#w))
        rw [limit_of_sub_ne_zero hc, hn]
        cases hnext : StdString.find input f textPos with
        | none =>
            refine ⟨[input.drop textPos], ?_,
              by simp only [splitLoop, if_neg hc, hfind, hnext, hrest]⟩
            exact .last ((StdString.find_eq_none_iff_drop hpos).1 hnext)
        | some nextDelim =>
            obtain ⟨k, rfl⟩ := StdString.exists_add_of_find hnext
            have hk := (StdString.find_eq_add_iff hpos).1 hnext
            have hlen := hk.1.add_length_le
            have hflen := List.length_pos_of_ne_nil hf
            rw [List.length_drop] at hlen
            obtain ⟨ps, hps, hloop⟩ := ih (c - 1#w) (textPos + k + f.length)
              (results ++ [(input.drop textPos).take k]) (by omega) (by omega)
            refine ⟨(input.drop textPos).take k :: ps, .next hk ?_, ?_⟩
            · rwa [List.drop_drop, ← Nat.add_assoc, ← hn]
            · simp only [splitLoop, if_neg hc, hfind, hnext, StdString.substr_count hpos,
                Nat.add_sub_cancel_left]
              rw [hloop, List.append_assoc, List.singleton_append]

/-- The pieces do not depend on the fuel. -/
theorem exists_results {input f : List α} {n : ℕ} {run : ℕ → Option (List (List α))} (hf : f ≠ [])
    (h : ∀ fuel, input.length < fuel → ∃ ps, Pieces f input n ps ∧ run fuel = some ps) :
    ∃ ps, Pieces f input n ps ∧ ∀ fuel, input.length < fuel → run fuel = some ps := by
  obtain ⟨ps, hps, -⟩ := h (input.length + 1) (Nat.lt_succ_self _)
  refine ⟨ps, hps, fun fuel hfuel => ?_⟩
  obtain ⟨ps', hps', hrun⟩ := h fuel hfuel
  rw [hrun, hps'.unique hps (by rw [hps'.length_eq hf, hps.length_eq hf])]

/-- `Split` at a string returns pieces. -/
theorem split_pieces {input delimiter : List α} (hinput : input ≠ []) (hdelim : delimiter ≠ [])
    (n : BitVec 32) : ∃ results, Pieces delimiter input (limit n) results ∧
      ∀ fuel, input.length < fuel → split fuel input delimiter n = some results := by
  refine exists_results hdelim fun fuel hfuel => ?_
  obtain ⟨ps, hps, hloop⟩ := splitLoop_pieces hdelim (fun _ => rfl) fuel n 0 [] (Nat.zero_le _)
    (by omega : input.length < 0 + fuel)
  exact ⟨ps, hps, by rw [split, if_neg hinput, if_neg hdelim, hloop, List.nil_append]⟩

/-- `Split` at a character returns pieces. -/
theorem splitChar_pieces {input : List α} (hinput : input ≠ []) (c : α) (n : BitVec 64) :
    ∃ results, Pieces [c] input (limit n) results ∧
      ∀ fuel, input.length < fuel → splitChar fuel input c n = some results := by
  refine exists_results (List.cons_ne_nil c []) fun fuel hfuel => ?_
  obtain ⟨ps, hps, hloop⟩ := splitLoop_pieces (List.cons_ne_nil c [])
    (StdString.findChar_eq_find input c) fuel n 0 [] (Nat.zero_le _)
    (by omega : input.length < 0 + fuel)
  exact ⟨ps, hps, by rw [splitChar, if_neg hinput]; exact hloop⟩

/-- A text with few enough occurrences is cut at all of them where the counter is zero. -/
theorem min_limit_zero {k : ℕ} (hk : k < 2 ^ w) : min (limit (0#w)) k = k := by
  rw [limit, if_pos rfl]
  exact Nat.min_eq_right (Nat.le_of_lt hk)

theorem min_limit_of_ne {c : BitVec w} (hc : c ≠ 0#w) (k : ℕ) :
    min (limit c) k = min c.toNat k := by
  rw [limit, if_neg hc]

/-- A counter of 32 bits allows as many pieces as the same number in 64 bits. -/
theorem min_limit_setWidth (n : BitVec 32) {k : ℕ} (hk : k < 2 ^ 32) :
    min (limit (n.setWidth 64)) k = min (limit n) k := by
  by_cases hn : n = 0#32
  · rw [hn, min_limit_zero hk]
    exact min_limit_zero (by omega)
  · have hn' : n.setWidth 64 ≠ 0#64 := by
      intro h
      refine hn (BitVec.eq_of_toNat_eq ?_)
      have htoNat := congrArg BitVec.toNat h
      rwa [BitVec.toNat_setWidth_of_le (by decide)] at htoNat
    rw [min_limit_of_ne hn, min_limit_of_ne hn', BitVec.toNat_setWidth_of_le (by decide)]

end StringUtils

open StringUtils

variable {α : Type} [DecidableEq α]

/-- What `Split` owes for an input and a delimiter that are not empty. -/
structure SplitMeets (input delimiter : List α) (iMaxStrings : BitVec 32)
    (results : List (List α)) : Prop where
  ne_nil : results ≠ []
  join : delimiter.intercalate results = input
  /-- as many pieces as are allowed; a counter of 32 bits has to be able to count them -/
  length : disjoint delimiter input + 1 < 2 ^ 32 → results.length =
    if iMaxStrings = 0#32 then disjoint delimiter input + 1
    else min iMaxStrings.toNat (disjoint delimiter input + 1)
  /-- no piece before the last one has the delimiter in it -/
  free : ∀ p ∈ results.dropLast, ¬ delimiter <:+: p
  /-- nor has any piece where the limit has cut nothing off -/
  whole : disjoint delimiter input < results.length → ∀ p ∈ results, ¬ delimiter <:+: p

/-- **`Split` returns the pieces of its input**, and as many of them as the limit allows. -/
theorem split_meets (input delimiter : List α) (iMaxStrings : BitVec 32) (hinput : input ≠ [])
    (hdelim : delimiter ≠ []) :
    ∃ results, SplitMeets input delimiter iMaxStrings results ∧
      ∀ fuel, input.length < fuel → split fuel input delimiter iMaxStrings = some results := by
  obtain ⟨results, hps, hrun⟩ := split_pieces hinput hdelim iMaxStrings
  have hlen := hps.length_eq hdelim
  refine ⟨results, ⟨hps.ne_nil, hps.join, ?_, hps.not_isInfix_of_mem_dropLast hdelim, ?_⟩, hrun⟩
  · intro hcount
    rw [hlen]
    split
    case isTrue hzero => rw [hzero, min_limit_zero hcount]
    case isFalse hzero => rw [min_limit_of_ne hzero]
  · intro hwhole
    exact hps.not_isInfix_of_mem hdelim (by omega)

/-- `"a,,b"` at the commas, into two pieces. -/
theorem split_meets_commas :
    ∃ results : List (List UInt8), SplitMeets [97, 44, 44, 98] [44] 2#32 results ∧
      ∀ fuel, 4 < fuel → split fuel [97, 44, 44, 98] [44] 2#32 = some results :=
  split_meets [97, 44, 44, 98] [44] 2#32 (by decide) (by decide)

/-- **The two overloads of `Split` return the same**, with a limit of 32 bits and with the same
limit in 64 bits. -/
theorem split_agree (input : List α) (c : α) (iMaxStrings : BitVec 32)
    (hcount : input.count c < 2 ^ 32 - 1) :
    ∃ results, ∀ fuel, input.length < fuel →
      split fuel input [c] iMaxStrings = some results ∧
        splitChar fuel input c (iMaxStrings.setWidth 64) = some results := by
  by_cases hinput : input = []
  · exact ⟨[], fun fuel _ => ⟨if_pos hinput, if_pos hinput⟩⟩
  · have hc : [c] ≠ [] := List.cons_ne_nil c []
    obtain ⟨ps, hps, hrun⟩ := split_pieces hinput hc iMaxStrings
    obtain ⟨ps', hps', hrun'⟩ := splitChar_pieces hinput c (iMaxStrings.setWidth 64)
    have hk : disjoint [c] input + 1 < 2 ^ 32 := by
      rw [disjoint_singleton]
      omega
    have heq : ps' = ps := hps'.unique hps (by
      rw [hps'.length_eq hc, hps.length_eq hc, min_limit_setWidth iMaxStrings hk])
    exact ⟨ps, fun fuel hfuel => ⟨hrun fuel hfuel, heq ▸ hrun' fuel hfuel⟩⟩

/-- `"a,,b"` at the commas, without a limit. -/
theorem split_agree_commas : ∃ results : List (List UInt8), ∀ fuel, 4 < fuel →
    split fuel [97, 44, 44, 98] [44] 0#32 = some results ∧
      splitChar fuel [97, 44, 44, 98] 44 (BitVec.setWidth 64 0#32) = some results :=
  split_agree [97, 44, 44, 98] 44 0#32 (by decide)

end VModule
