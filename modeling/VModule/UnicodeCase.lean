/-
**`ToLower` and `ToUpper` on wide strings, of `sutils/StringUtils.cpp`.**

The tables are in the order of the lower-case letters.  The search for an upper-case letter is
misled by the letters that are out of order there, and the letters that it misses stay upper-case.

Main definitions:

* `VModule.StringUtils.tolowerUnicode`, `VModule.StringUtils.toupperUnicode` — one character;
* `VModule.StringUtils.toLowerWString`, `VModule.StringUtils.toUpperWString` — a string;
* `VModule.StringUtils.lowerOf`, `VModule.StringUtils.upperOf` — what the tables say;
* `VModule.StringUtils.missed` — the upper-case letters that the search does not find;
* `VModule.StringUtils.Tables` — what is used of the tables.

Main results:

* `VModule.StringUtils.Tables.bsearch_lowers`, `VModule.StringUtils.Tables.bsearch_uppers` — what
  is found, from what is used of the tables;
* `VModule.StringUtils.tables_hold` — the tables are evaluated;
* `VModule.changesCase_iff` — the strings whose case is changed by the tables.
-/

import Mathlib.Data.List.GetD
import VModule.HalvingSearch
import VModule.StringUtils
import VModule.UnicodeTables

set_option relaxedAutoImplicit false
set_option autoImplicit false

namespace VModule

open HalvingSearch

namespace StringUtils

def compareWchar (a b : ℤ) : ℤ := if a < b then -1 else if a > b then 1 else 0

/-- The index that is found is one of both tables, so that the last argument of `getD` is not
used. -/
def tolowerUnicode (c : ℤ) : ℤ :=
  match bsearch compareWchar c unicodeUppers with
  | some p => unicodeLowers.getD p c
  | none => c

def toupperUnicode (c : ℤ) : ℤ :=
  match bsearch compareWchar c unicodeLowers with
  | some p => unicodeUppers.getD p c
  | none => c

/-- `ToUpper` on a `std::wstring`. -/
def toUpperWString (str : List ℤ) : List ℤ := str.map toupperUnicode

/-- `ToLower` on a `std::wstring`. -/
def toLowerWString (str : List ℤ) : List ℤ := str.map tolowerUnicode

/-! ### What the tables say -/

/-- The lower-case letter at the first index of an upper-case one. -/
def lowerOf (c : ℤ) : ℤ :=
  if c ∈ unicodeUppers then unicodeLowers.getD (unicodeUppers.idxOf c) c else c

/-- The upper-case letter at the first index of a lower-case one. -/
def upperOf (c : ℤ) : ℤ :=
  if c ∈ unicodeLowers then unicodeUppers.getD (unicodeLowers.idxOf c) c else c

/-- The entries of `unicodeUppers` on the wrong side of a middle. -/
def misplaced (i : ℕ) : Bool :=
  i = 56 ∨ 79 ≤ i ∧ i ≤ 81 ∨ 167 ≤ i ∧ i ≤ 189 ∨ 220 ≤ i ∧ i ≤ 222 ∨ 251 ≤ i ∧ i ≤ 275

/-- The letters of these entries, but for the second `I` of the table. -/
def missed : List ℤ :=
  [0x012C, 0x012E, 0x0178, 0x0181, 0x0186, 0x018A, 0x018E, 0x018F, 0x0190, 0x0193, 0x0194, 0x0196,
   0x0197, 0x019C, 0x019D, 0x019F, 0x01A9, 0x01AE, 0x01B1, 0x01B2, 0x01B7, 0x020E, 0x0210, 0x0212,
   0x0214, 0x0216, 0x038C, 0x038E, 0x038F, 0x0401, 0x0402, 0x0403, 0x0404, 0x0405, 0x0406, 0x0407,
   0x0408, 0x0409, 0x040A, 0x040B, 0x040C, 0x040E, 0x040F, 0x0425, 0x0426, 0x0427, 0x0428, 0x0429,
   0x042A, 0x042B, 0x042C, 0x042D, 0x042E, 0x042F]

/-- The entries on the right side of every middle. -/
def placed : List (ℤ × ℕ) := unicodeUppers.zipIdx.filter fun e => !misplaced e.2

/-- What is used of the tables. -/
structure Tables : Prop where
  length_uppers : unicodeUppers.length = 666
  length_lowers : unicodeLowers.length = 666
  reached_uppers : reached 666 unicodeUppers 0 = placed
  all_misplaced : (unicodeUppers.zipIdx.filter fun e => misplaced e.2).all
    (fun e => e.2 = 81 ∨ e.1 ∈ missed) = true
  missed_subset : (missed.all fun c => decide (c ∈ unicodeUppers)) = true
  idxOf_I : unicodeUppers.idxOf 0x0049 = 8
  second_I : unicodeUppers[81]? = some 0x0049
  isChain_lowers : unicodeLowers.IsChain (· < ·)
  isChain_missed : missed.IsChain (· < ·)
  apart_missed_placed : apart 1000 missed (placed.map Prod.fst) = true
  apart_missed_lowers : apart 1000 missed unicodeLowers = true
  apart_placed_lowers : apart 2000 (placed.map Prod.fst) unicodeLowers = true

/-! ### What is found -/

variable {c : ℤ} {i : ℕ}

theorem compares_compareWchar : Compares compareWchar := by
  intro a b
  unfold compareWchar
  split
  · omega
  · split <;> omega

theorem mem_placed_iff : (c, i) ∈ placed ↔ unicodeUppers[i]? = some c ∧ misplaced i = false := by
  rw [placed, List.mem_filter, List.mk_mem_zipIdx_iff_getElem?, Bool.not_eq_true']

/-- The search for an upper-case letter finds the entries that are placed. -/
theorem Tables.bsearch_uppers_iff (tables : Tables) :
    bsearch compareWchar c unicodeUppers = some i ↔
      unicodeUppers[i]? = some c ∧ misplaced i = false := by
  rw [bsearch_eq_some_iff compares_compareWchar, tables.length_uppers, tables.reached_uppers,
    mem_placed_iff]

theorem Tables.pairwise_placed (tables : Tables) : (placed.map Prod.fst).Pairwise (· < ·) := by
  rw [List.pairwise_map, ← tables.reached_uppers]
  exact pairwise_reached 666 unicodeUppers 0

theorem Tables.pairwise_lowers (tables : Tables) : unicodeLowers.Pairwise (· < ·) :=
  List.isChain_iff_pairwise.1 tables.isChain_lowers

theorem Tables.pairwise_missed (tables : Tables) : missed.Pairwise (· < ·) :=
  List.isChain_iff_pairwise.1 tables.isChain_missed

theorem Tables.mem_of_missed (tables : Tables) (h : c ∈ missed) : c ∈ unicodeUppers :=
  of_decide_eq_true (List.all_eq_true.1 tables.missed_subset c h)

/-- A misplaced entry is of a missed letter, or the second `I`. -/
theorem Tables.mem_missed_of_misplaced (tables : Tables) (hget : unicodeUppers[i]? = some c)
    (h : misplaced i = true) : i = 81 ∨ c ∈ missed := by
  have hmem : (c, i) ∈ unicodeUppers.zipIdx.filter fun e => misplaced e.2 :=
    List.mem_filter.2 ⟨List.mk_mem_zipIdx_iff_getElem?.2 hget, h⟩
  exact of_decide_eq_true (List.all_eq_true.1 tables.all_misplaced (c, i) hmem)

theorem getElem?_idxOf {table : List ℤ} (h : c ∈ table) : table[table.idxOf c]? = some c := by
  rw [List.getElem?_eq_getElem (List.idxOf_lt_length_iff.2 h), List.getElem_idxOf]

/-- What the search finds is placed. -/
theorem Tables.mem_placed_of_bsearch (tables : Tables)
    (h : bsearch compareWchar c unicodeUppers = some i) : c ∈ placed.map Prod.fst :=
  List.mem_map.2 ⟨(c, i), mem_placed_iff.2 (tables.bsearch_uppers_iff.1 h), rfl⟩

/-- A missed letter is not found, and every other one at its first index. -/
theorem Tables.bsearch_uppers (tables : Tables) (hc : c ∈ unicodeUppers) :
    bsearch compareWchar c unicodeUppers =
      if c ∈ missed then none else some (unicodeUppers.idxOf c) := by
  by_cases hmissed : c ∈ missed
  · rw [if_pos hmissed, Option.eq_none_iff_forall_ne_some]
    intro i hi
    exact not_mem_of_apart tables.pairwise_missed tables.pairwise_placed
      tables.apart_missed_placed hmissed (tables.mem_placed_of_bsearch hi)
  · rw [if_neg hmissed, tables.bsearch_uppers_iff]
    have hget := getElem?_idxOf hc
    refine ⟨hget, Bool.eq_false_iff.2 fun hmis => ?_⟩
    rcases tables.mem_missed_of_misplaced hget hmis with hidx | hmem
    · -- the second entry of a letter is not its first index
      rw [hidx, tables.second_I] at hget
      rw [← Option.some_inj.1 hget, tables.idxOf_I] at hidx
      cases hidx
    · exact hmissed hmem

theorem Tables.bsearch_uppers_eq_none (tables : Tables) (hc : c ∉ unicodeUppers) :
    bsearch compareWchar c unicodeUppers = none := by
  rw [Option.eq_none_iff_forall_ne_some]
  intro i hi
  exact hc (List.mem_of_getElem? (tables.bsearch_uppers_iff.1 hi).1)

/-- The search for a lower-case letter finds it. -/
theorem Tables.bsearch_lowers (tables : Tables) :
    bsearch compareWchar c unicodeLowers =
      if c ∈ unicodeLowers then some (unicodeLowers.idxOf c) else none := by
  by_cases hc : c ∈ unicodeLowers
  · have hreached : (c, 0 + unicodeLowers.idxOf c) ∈
        reached unicodeLowers.length unicodeLowers 0 :=
      reached_of_sorted tables.pairwise_lowers (Nat.le_refl _) (getElem?_idxOf hc)
    rw [if_pos hc, bsearch_eq_some_iff compares_compareWchar]
    rw [Nat.zero_add] at hreached
    exact hreached
  · rw [if_neg hc, Option.eq_none_iff_forall_ne_some]
    intro i hi
    rw [bsearch_eq_some_iff compares_compareWchar] at hi
    exact hc (List.mem_of_getElem? (getElem?_of_mem_reached hi).2)

/-! ### One character -/

theorem Tables.toupperUnicode_eq (tables : Tables) (c : ℤ) : toupperUnicode c = upperOf c := by
  rw [toupperUnicode, tables.bsearch_lowers, upperOf]
  by_cases hc : c ∈ unicodeLowers
  · rw [if_pos hc, if_pos hc]
  · rw [if_neg hc, if_neg hc]

theorem Tables.tolowerUnicode_eq (tables : Tables) (hc : c ∉ missed) :
    tolowerUnicode c = lowerOf c := by
  rw [tolowerUnicode, lowerOf]
  by_cases hupper : c ∈ unicodeUppers
  · rw [tables.bsearch_uppers hupper, if_neg hc, if_pos hupper]
  · rw [tables.bsearch_uppers_eq_none hupper, if_neg hupper]

/-- A missed letter stays as it is. -/
theorem Tables.tolowerUnicode_missed (tables : Tables) (hc : c ∈ missed) :
    tolowerUnicode c = c := by
  rw [tolowerUnicode, tables.bsearch_uppers (tables.mem_of_missed hc), if_pos hc]

theorem Tables.getElem?_lowerOf (tables : Tables) (hc : c ∈ unicodeUppers) :
    unicodeLowers[unicodeUppers.idxOf c]? = some (lowerOf c) := by
  have hlt := List.idxOf_lt_length_iff.2 hc
  rw [tables.length_uppers, ← tables.length_lowers] at hlt
  rw [lowerOf, if_pos hc, List.getElem?_eq_getElem hlt, List.getD_eq_getElem _ _ hlt]

theorem Tables.lowerOf_ne (tables : Tables) (hc : c ∈ missed) : lowerOf c ≠ c := by
  intro h
  have hmem := List.mem_of_getElem? (tables.getElem?_lowerOf (tables.mem_of_missed hc))
  rw [h] at hmem
  exact not_mem_of_apart tables.pairwise_missed tables.pairwise_lowers tables.apart_missed_lowers hc
    hmem

/-- A string with a missed letter is not lowered. -/
theorem Tables.toLowerWString_ne (tables : Tables) {s : List ℤ} (hc : c ∈ s)
    (hmissed : c ∈ missed) : toLowerWString s ≠ s.map lowerOf := by
  intro h
  have heq := List.map_inj_left.1 h c hc
  rw [tables.tolowerUnicode_missed hmissed] at heq
  exact tables.lowerOf_ne hmissed heq.symm

/-- Raising what was lowered comes to raising. -/
theorem Tables.toupperUnicode_tolowerUnicode (tables : Tables) (c : ℤ) :
    toupperUnicode (tolowerUnicode c) = toupperUnicode c := by
  by_cases hmissed : c ∈ missed
  · rw [tables.tolowerUnicode_missed hmissed]
  · rw [tables.tolowerUnicode_eq hmissed]
    by_cases hc : c ∈ unicodeUppers
    · have hlower := tables.getElem?_lowerOf hc
      obtain ⟨hlt, hget⟩ := List.getElem?_eq_some_iff.1 hlower
      have hnodup : unicodeLowers.Nodup := tables.pairwise_lowers.imp fun h => ne_of_lt h
      have hidx : unicodeLowers.idxOf (lowerOf c) = unicodeUppers.idxOf c := by
        rw [← hget, hnodup.idxOf_getElem]
      have hup : c ∉ unicodeLowers := by
        refine not_mem_of_apart tables.pairwise_placed tables.pairwise_lowers
          tables.apart_placed_lowers ?_
        have hfound := tables.bsearch_uppers hc
        rw [if_neg hmissed] at hfound
        exact tables.mem_placed_of_bsearch hfound
      rw [tables.toupperUnicode_eq, tables.toupperUnicode_eq, upperOf, upperOf, if_neg hup,
        if_pos (List.mem_of_getElem? hlower), hidx, List.getD_eq_getElem?_getD, getElem?_idxOf hc]
      rfl
    · rw [lowerOf, if_neg hc]

/-! ### The tables are evaluated -/

theorem tables_hold : Tables := by
  have h : unicodeUppers.length = 666 ∧ unicodeLowers.length = 666 ∧
      reached 666 unicodeUppers 0 = placed ∧
      (unicodeUppers.zipIdx.filter fun e => misplaced e.2).all
        (fun e => e.2 = 81 ∨ e.1 ∈ missed) = true ∧
      (missed.all fun c => decide (c ∈ unicodeUppers)) = true ∧
      unicodeUppers.idxOf 0x0049 = 8 ∧ unicodeUppers[81]? = some 0x0049 ∧
      unicodeLowers.IsChain (· < ·) ∧ missed.IsChain (· < ·) ∧
      apart 1000 missed (placed.map Prod.fst) = true ∧ apart 1000 missed unicodeLowers = true ∧
      apart 2000 (placed.map Prod.fst) unicodeLowers = true := by
    decide +kernel
  obtain ⟨h₁, h₂, h₃, h₄, h₅, h₆, h₇, h₈, h₉, h₁₀, h₁₁, h₁₂⟩ := h
  exact ⟨h₁, h₂, h₃, h₄, h₅, h₆, h₇, h₈, h₉, h₁₀, h₁₁, h₁₂⟩

end StringUtils

open StringUtils

/-- **The case of a wide string is changed by the tables** exactly when it has no missed letter:
then `ToLower` replaces each upper-case letter by the entry of the other table at its first index
and nothing else, and `ToUpper` does the converse.  Raising what was lowered comes to raising. -/
theorem changesCase_iff (s : List ℤ) :
    (toLowerWString s = s.map lowerOf ∧ toUpperWString s = s.map upperOf ∧
      ((∀ c ∈ s, c ∈ unicodeUppers ∨ c ∈ unicodeLowers) →
        toUpperWString (toLowerWString s) = toUpperWString s)) ↔
      ∀ c ∈ s, c ∉ missed := by
  constructor
  · rintro ⟨hlower, -, -⟩ c hc hmissed
    exact tables_hold.toLowerWString_ne hc hmissed hlower
  · intro h
    refine ⟨List.map_congr_left fun c hc => tables_hold.tolowerUnicode_eq (h c hc),
      List.map_congr_left fun c _ => tables_hold.toupperUnicode_eq c, fun _ => ?_⟩
    rw [toUpperWString, toLowerWString, List.map_map]
    exact List.map_congr_left fun c _ => tables_hold.toupperUnicode_tolowerUnicode c

/-- `Ÿ` is an upper-case letter of the table and stays as it is. -/
theorem upperCase_stays : ¬ ∀ s : List ℤ,
    toLowerWString s = s.map lowerOf ∧ toUpperWString s = s.map upperOf ∧
      ((∀ c ∈ s, c ∈ unicodeUppers ∨ c ∈ unicodeLowers) →
        toUpperWString (toLowerWString s) = toUpperWString s) := by
  intro h
  have hmissed : (0x0178 : ℤ) ∈ missed := by decide
  exact tables_hold.toLowerWString_ne List.mem_cons_self hmissed (h [0x0178]).1

end VModule
