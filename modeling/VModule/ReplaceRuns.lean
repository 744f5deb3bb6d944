/-
**What `StringUtils::Replace` and `StringUtils::FindNumber` return.**

`Replace` changes the string that it scans.  What is before its index has been dealt with and is
never looked at again, and what comes after it is the end of the original, so the loop goes along
the scan of the original from the left.

Main definitions:

* `VModule.Replaces` — what is owed by either overload of `Replace`;
* `VModule.FindsNumber`, `VModule.ReplacesNumber` — the two counts that are returned.

Main results:

* `VModule.StringUtils.replaceLoop_eq`, `VModule.StringUtils.replaceLoop_returns` — the loop of
  `Replace`;
* `VModule.StringUtils.findNumberLoop_eq`, `VModule.StringUtils.findNumberLoop_returns` — the loop
  of `FindNumber`;
* `VModule.replace_replaces` — both overloads, and the join of the pieces of `Split`;
* `VModule.findNumber_counts` — `FindNumber` counts all occurrences, `Replace` those that do not
  overlap.
-/

import VModule.SplitRuns

set_option relaxedAutoImplicit false
set_option autoImplicit false

open Words

namespace VModule

namespace StringUtils

variable {α : Type} [DecidableEq α]

/-! ### The loop of Replace -/

section Replace

variable {oldStr newStr done rest : List α} {fuel k : ℕ} {count : ℤ}

/-- One round of the loop, behind which is `done`, where the scan comes to no occurrence. -/
theorem replaceLoop_of_none (h : ∀ j, ¬ OccursAt oldStr rest j) :
    replaceLoop oldStr newStr (fuel + 1) (done ++ rest) done.length count =
      some (done ++ rest, count) := by
  have hpos : done.length ≤ (done ++ rest).length := by
    rw [List.length_append]
    omega
  have hfind : StdString.find (done ++ rest) oldStr done.length = none := by
    rw [StdString.find_eq_none_iff_drop hpos, List.drop_left]
    exact h
  rw [replaceLoop, hfind]
  split <;> rfl

/-- One round of the loop where the scan comes to an occurrence. -/
theorem replaceLoop_of_firstAt (hold : oldStr ≠ []) (h : FirstAt oldStr rest k) :
    replaceLoop oldStr newStr (fuel + 1) (done ++ rest) done.length count =
      match increment count with
      | none => none
      | some count =>
          replaceLoop oldStr newStr fuel
            ((done ++ rest.take k ++ newStr) ++ rest.drop (k + oldStr.length))
            (done ++ rest.take k ++ newStr).length count := by
  have hlen := h.1.add_length_le
  have hpos := List.length_pos_of_ne_nil hold
  have hfind : StdString.find (done ++ rest) oldStr done.length = some (done.length + k) := by
    rw [StdString.find_eq_add_iff (by rw [List.length_append]; omega), List.drop_left]
    exact h
  have hindex : done.length + k + newStr.length = (done ++ rest.take k ++ newStr).length := by
    rw [List.length_append, List.length_append, List.length_take]
    omega
  rw [replaceLoop, if_pos (by rw [List.length_append]; omega), hfind, ← hindex]
  cases increment count with
  | none => rfl
  | some count => simp only [StdString.replace_append]

/-- **What the loop returns** if it returns. -/
theorem replaceLoop_eq (hold : oldStr ≠ []) (fuel : ℕ) :
    ∀ done rest count r, replaceLoop oldStr newStr fuel (done ++ rest) done.length count = some r →
      r = (done ++ fill newStr (marked oldStr rest), count + disjoint oldStr rest) := by
  induction fuel with
  | zero =>
      intro done rest count r h
      cases h
  | succ fuel ih =>
      intro done rest count r h
      rcases none_or_firstAt oldStr rest with hnone | ⟨k, hk⟩
      · rw [replaceLoop_of_none hnone, Option.some_inj] at h
        rw [← h, marked_of_none hnone, fill_map_some, disjoint_of_none hnone, Int.natCast_zero,
          Int.add_zero]
      · rw [replaceLoop_of_firstAt hold hk] at h
        split at h
        case h_1 => cases h
        case h_2 count' hcount =>
          rw [ih _ _ _ _ h, hk.marked hold, hk.disjoint hold, fill_append, fill_map_some,
            fill_cons_none, eq_of_increment hcount]
          refine Prod.ext ?_ ?_
          · simp only [List.append_assoc]
          · dsimp only
            omega

/-- The loop comes to its end where the count is one that an `int` can have. -/
theorem replaceLoop_returns (hold : oldStr ≠ []) (fuel : ℕ) :
    ∀ done rest (count : ℤ), rest.length < fuel →
      count + disjoint oldStr rest ≤ 2147483647 →
      ∃ r, replaceLoop oldStr newStr fuel (done ++ rest) done.length count = some r := by
  induction fuel with
  | zero =>
      intro done rest count hfuel
      omega
  | succ fuel ih =>
      intro done rest count hfuel hcount
      rcases none_or_firstAt oldStr rest with hnone | ⟨k, hk⟩
      · exact ⟨_, replaceLoop_of_none hnone⟩
      · rw [hk.disjoint hold] at hcount
        have hlt := hk.lt_length hold
        rw [replaceLoop_of_firstAt hold hk, increment_eq (by omega)]
        exact ih _ _ _ (by omega) (by omega)

end Replace

/-- `Replace` has put the new string in the place of each occurrence that the scan comes to. -/
theorem replaceIn_eq {str oldStr newStr : List α} (hold : oldStr ≠ [])
    (hcount : disjoint oldStr str < 2 ^ 31) {fuel : ℕ} (hfuel : str.length < fuel) :
    replaceIn fuel str oldStr newStr =
      some (fill newStr (marked oldStr str), (disjoint oldStr str : ℤ)) := by
  obtain ⟨r, hr⟩ := @replaceLoop_returns _ _ _ newStr hold fuel [] str 0 hfuel (by omega)
  rw [replaceIn, if_neg hold]
  refine hr.trans ?_
  rw [replaceLoop_eq hold fuel [] str 0 r hr, List.nil_append, Int.zero_add]

/-- What `Replace` returns, if it returns. -/
theorem replaceIn_number {str oldStr newStr : List α} (hold : oldStr ≠ []) {fuel : ℕ}
    {r : List α × ℤ} (h : replaceIn fuel str oldStr newStr = some r) :
    r.2 = disjoint oldStr str := by
  rw [replaceIn, if_neg hold] at h
  rw [replaceLoop_eq hold fuel [] str 0 r h, Int.zero_add]

/-! ### The loop of FindNumber -/

section FindNumber

variable {strInput strFind : List α}

/-- Nothing more is found. -/
theorem findNumberLoop_of_none {fuel pos : ℕ} {numfound : ℤ}
    (h : StdString.find strInput strFind pos = none) :
    findNumberLoop strInput strFind fuel (StdString.find strInput strFind pos) numfound =
      some (numfound + occurrencesFrom strFind strInput pos) := by
  rw [occurrencesFrom_eq_zero (StdString.find_eq_none_iff.1 h), h, findNumberLoop,
    Int.natCast_zero, Int.add_zero]

/-- **What the loop returns** if it returns. -/
theorem findNumberLoop_eq (fuel : ℕ) : ∀ pos numfound m,
    findNumberLoop strInput strFind fuel (StdString.find strInput strFind pos) numfound = some m →
      m = numfound + occurrencesFrom strFind strInput pos := by
  induction fuel with
  | zero =>
      intro pos numfound m h
      cases hfind : StdString.find strInput strFind pos with
      | none => exact (Option.some_inj.1 ((findNumberLoop_of_none hfind).symm.trans h)).symm
      | some i =>
          rw [hfind, findNumberLoop] at h
          cases h
  | succ fuel ih =>
      intro pos numfound m h
      cases hfind : StdString.find strInput strFind pos with
      | none => exact (Option.some_inj.1 ((findNumberLoop_of_none hfind).symm.trans h)).symm
      | some i =>
          obtain ⟨hle, hocc, hbefore⟩ := StdString.find_eq_some_iff.1 hfind
          rw [hfind, findNumberLoop] at h
          split at h
          case h_1 => cases h
          case h_2 n hn =>
            rw [ih (i + 1) n m h, occurrencesFrom_eq_succ hle hocc hbefore, eq_of_increment hn]
            omega

/-- The loop comes to its end where the count is one that an `int` can have. -/
theorem findNumberLoop_returns (fuel : ℕ) : ∀ pos (numfound : ℤ), strInput.length < pos + fuel →
    numfound + occurrencesFrom strFind strInput pos ≤ 2147483647 →
    ∃ m, findNumberLoop strInput strFind fuel (StdString.find strInput strFind pos) numfound =
      some m := by
  induction fuel with
  | zero =>
      intro pos numfound hfuel _
      have hfind : StdString.find strInput strFind pos = none :=
        StdString.find_eq_none_iff.2 fun j hj hocc => by
          have hlen := hocc.1
          omega
      exact ⟨_, findNumberLoop_of_none hfind⟩
  | succ fuel ih =>
      intro pos numfound hfuel hcount
      cases hfind : StdString.find strInput strFind pos with
      | none => exact ⟨numfound, by rw [findNumberLoop]⟩
      | some i =>
          obtain ⟨hle, hocc, hbefore⟩ := StdString.find_eq_some_iff.1 hfind
          rw [occurrencesFrom_eq_succ hle hocc hbefore] at hcount
          obtain ⟨m, hm⟩ := ih (i + 1) (numfound + 1) (by omega) (by omega)
          exact ⟨m, by rw [findNumberLoop, increment_eq (by omega)]; exact hm⟩

/-- `FindNumber` has counted the positions. -/
theorem findNumber_eq {fuel : ℕ} {m : ℤ} (h : findNumber fuel strInput strFind = some m) :
    m = occurrences strFind strInput := by
  rw [findNumberLoop_eq fuel 0 0 m h, occurrencesFrom_zero, Int.zero_add]

theorem findNumber_returns (h : occurrences strFind strInput < 2 ^ 31) {fuel : ℕ}
    (hfuel : strInput.length < fuel) :
    findNumber fuel strInput strFind = some (occurrences strFind strInput : ℤ) := by
  obtain ⟨m, hm⟩ := @findNumberLoop_returns _ _ strInput strFind fuel 0 0 (by omega)
    (by rw [occurrencesFrom_zero]; omega)
  rw [← findNumber_eq hm]
  exact hm

end FindNumber

end StringUtils

open StringUtils

/-! ### What is owed -/

/-- `Replace` comes to its end, also when the new string contains the old one; the string then has
`newStr` in the place of each occurrence of `oldStr` in the original that the scan from the left
comes to, and their number is returned. -/
def Replaces {α : Type} [DecidableEq α]
    (replace : ℕ → List α → List α → List α → Option (List α × ℤ)) : Prop :=
  ∀ str oldStr newStr, oldStr ≠ [] → disjoint oldStr str < 2 ^ 31 → ∀ fuel, str.length < fuel →
    replace fuel str oldStr newStr =
      some (fill newStr (marked oldStr str), (disjoint oldStr str : ℤ))

/-- **Both overloads of `Replace` replace**, and for a string that is not empty that is to join the
pieces of `Split`. -/
theorem replace_replaces :
    Replaces replaceString ∧ Replaces replaceWString ∧
      ∀ str oldStr newStr : List UInt8, str ≠ [] → oldStr ≠ [] → disjoint oldStr str < 2 ^ 31 →
        ∃ pieces, ∀ fuel, str.length < fuel → split fuel str oldStr 0#32 = some pieces ∧
          replaceString fuel str oldStr newStr =
            some (newStr.intercalate pieces, (pieces.length : ℤ) - 1) := by
  refine ⟨?_, ?_, ?_⟩
  · exact fun str oldStr newStr hold hcount fuel hfuel => replaceIn_eq hold hcount hfuel
  · exact fun str oldStr newStr hold hcount fuel hfuel => replaceIn_eq hold hcount hfuel
  · intro str oldStr newStr hstr hold hcount
    obtain ⟨pieces, hpieces, hrun⟩ := split_pieces hstr hold 0#32
    have hlimit : limit 0#32 = 2 ^ 32 := rfl
    have hlen := hpieces.length_eq hold
    refine ⟨pieces, fun fuel hfuel => ⟨hrun fuel hfuel, ?_⟩⟩
    rw [replaceString, replaceIn_eq hold hcount hfuel, hpieces.join_eq_fill hold (by omega),
      Option.some_inj]
    exact Prod.ext rfl (by dsimp only; omega)

/-- A new string with the old one in it. -/
theorem replace_replaces_inside :
    replaceString 4 [97, 98, 97] [98] [98, 98] = some ([97, 98, 98, 97], 1) :=
  (replace_replaces.1 [97, 98, 97] [98] [98, 98] (by decide) (by decide) 4 (by decide)).trans
    (by decide)

/-- `FindNumber(s, f)` returns `m`. -/
def FindsNumber (s f : List UInt8) (m : ℤ) : Prop := ∃ fuel, findNumber fuel s f = some m

/-- `Replace(s, f, g)` returns `r`. -/
def ReplacesNumber (s f g : List UInt8) (r : ℤ) : Prop :=
  ∃ fuel t, replaceString fuel s f g = some (t, r)

/-- **`FindNumber` counts the positions of a string**, which are no fewer than the occurrences that
`Replace` counts, and as many in every string exactly when the string that is looked for cannot
overlap itself. -/
theorem findNumber_counts (f : List UInt8) :
    (∀ s, s.length < 2 ^ 31 - 1 → ∀ fuel, s.length < fuel →
      findNumber fuel s f = some (occurrences f s : ℤ)) ∧
    (f = [] → ∀ s, occurrences f s = s.length + 1) ∧
    (f ≠ [] → ∀ g,
      (∀ s, s.length < 2 ^ 31 - 1 →
        ∃ m r, FindsNumber s f m ∧ ReplacesNumber s f g r ∧ r ≤ m) ∧
      ((∀ s m r, FindsNumber s f m → ReplacesNumber s f g r → m = r) ↔ Unbordered f)) := by
  have hfits : ∀ s, s.length < 2 ^ 31 - 1 → occurrences f s < 2 ^ 31 := by
    intro s hs
    have hle := occurrences_le f s
    omega
  refine ⟨fun s hs fuel hfuel => findNumber_returns (hfits s hs) hfuel, ?_, fun hf g => ⟨?_, ?_⟩⟩
  · rintro rfl s
    exact occurrences_nil s
  · intro s hs
    have hle := disjoint_le_occurrences hf s
    have hlt := hfits s hs
    refine ⟨_, _, ⟨_, findNumber_returns hlt (Nat.lt_succ_self _)⟩,
      ⟨_, _, replaceIn_eq hf (by omega) (Nat.lt_succ_self _)⟩, by omega⟩
  · constructor
    · intro h
      by_contra hu
      obtain ⟨s, -, hone, htwo⟩ := exists_overlap hf hu
      have hm : FindsNumber s f (occurrences f s) :=
        ⟨_, findNumber_returns (by omega) (Nat.lt_succ_self _)⟩
      have hr : ReplacesNumber s f g (disjoint f s) :=
        ⟨_, _, replaceIn_eq hf (by omega) (Nat.lt_succ_self _)⟩
      have heq := h s _ _ hm hr
      omega
    · rintro hu s m r ⟨fuel, hm⟩ ⟨fuel', t, hr⟩
      rw [findNumber_eq hm, ← hu.disjoint_eq hf]
      exact (replaceIn_number hf hr).symm

/-- A string that overlaps itself. -/
theorem findNumber_counts_overlap : findNumber 4 [97, 97, 97] [97, 97] = some 2 :=
  ((findNumber_counts [97, 97]).1 [97, 97, 97] (by decide) 4 (by decide)).trans (by decide)

end VModule
