/-
**The strings of the C++ library.**

A string is the list of its characters, narrow or wide.  Positions and lengths are natural numbers,
and `none` stands for `npos`, the position that no string has.  Where a position may wrap around,
it is a word of 64 bits, and the string is one whose size is such a word.

Main definitions:

* `StdString.find`, `StdString.findChar` — the first occurrence from a position on;
* `StdString.substr`, `StdString.replace` — a part of a string, and a string with a part replaced;
* `StdString.erase`, `StdString.eraseRange` — a string without a part of it;
* `StdString.findFirstNotOf`, `StdString.findLastNotOf` — where a character is not one of some;
* `StdString.Sized`, `StdString.Sized.substr` — a string with its size, and a part of it.

Main results:

* `StdString.find_eq_some_iff`, `StdString.find_eq_none_iff` — what is found;
* `StdString.find_eq_add_iff`, `StdString.find_eq_none_iff_drop` — the search goes on in the rest;
* `StdString.findChar_eq_find` — a character is found where the string of that character is;
* `StdString.Sized.substr_of_le` — which part is taken, for positions as they are compared.
-/

import Mathlib.Algebra.Group.Nat.Defs
import VModule.Words

set_option relaxedAutoImplicit false
set_option autoImplicit false

open Words

namespace StdString

variable {α : Type*} {s f : List α} {pos i : ℕ}

/-- `substr`, which throws where the position is behind the end. -/
def substr (s : List α) (pos : ℕ) (count : Option ℕ) : Option (List α) :=
  if s.length < pos then none
  else
    match count with
    | none => some (s.drop pos)
    | some count => some ((s.drop pos).take count)

/-- `replace` at a position of the string. -/
def replace (s : List α) (pos len : ℕ) (g : List α) : List α :=
  s.take pos ++ g ++ s.drop (pos + len)

/-- `erase` of a count of characters from a position on. -/
def erase (s : List α) (pos : ℕ) : Option ℕ → List α
  | none => s.take pos
  | some count => s.take pos ++ s.drop (pos + count)

/-- `erase` between two iterators. -/
def eraseRange (s : List α) (first last : ℕ) : List α := s.take first ++ s.drop last

theorem substr_npos (h : pos ≤ s.length) : substr s pos none = some (s.drop pos) :=
  if_neg h.not_gt

theorem substr_count {count : ℕ} (h : pos ≤ s.length) :
    substr s pos (some count) = some ((s.drop pos).take count) :=
  if_neg h.not_gt

/-- A part of the end is replaced in the end. -/
theorem replace_append (s t : List α) (k len : ℕ) (g : List α) :
    replace (s ++ t) (s.length + k) len g = s ++ t.take k ++ g ++ t.drop (k + len) := by
  rw [replace, List.take_length_add_append, Nat.add_assoc, List.drop_length_add_append]

/-- A character stands where the string of that character does. -/
theorem occursAt_singleton {c : α} : OccursAt [c] s i ↔ s[i]? = some c := by
  rw [OccursAt, List.length_singleton, List.take_one, List.head?_drop]
  constructor
  · rintro ⟨-, h⟩
    cases hc : s[i]? with
    | none => simp [hc] at h
    | some x => simpa [hc] using h
  · intro h
    obtain ⟨hlt, -⟩ := List.getElem?_eq_some_iff.1 h
    exact ⟨Nat.le_of_lt hlt, by rw [h]; rfl⟩

variable [DecidableEq α]

/-- `find` of a string. -/
def find (s f : List α) (pos : ℕ) : Option ℕ :=
  (List.range' pos (s.length + 1 - pos)).find? fun i => OccursAt f s i

/-- `find` of a character. -/
def findChar (s : List α) (c : α) (pos : ℕ) : Option ℕ :=
  (List.range' pos (s.length - pos)).find? fun i => s[i]? = some c

/-- `find_first_not_of`. -/
def findFirstNotOf (s chars : List α) : Option ℕ := s.findIdx? fun c => c ∉ chars

/-- `find_last_not_of`. -/
def findLastNotOf (s chars : List α) : Option ℕ :=
  (s.reverse.findIdx? fun c => c ∉ chars).map fun i => s.length - 1 - i

theorem find_eq_some_iff :
    find s f pos = some i ↔
      pos ≤ i ∧ OccursAt f s i ∧ ∀ j, pos ≤ j → j < i → ¬ OccursAt f s j := by
  rw [find, List.find?_range'_eq_some]
  simp only [decide_eq_true_iff, List.mem_range'_1, Bool.not_eq_true', decide_eq_false_iff_not]
  constructor
  · rintro ⟨hocc, ⟨hle, -⟩, hbefore⟩
    exact ⟨hle, hocc, hbefore⟩
  · rintro ⟨hle, hocc, hbefore⟩
    have hlen := hocc.1
    exact ⟨hocc, ⟨hle, by omega⟩, hbefore⟩

theorem find_eq_none_iff : find s f pos = none ↔ ∀ j, pos ≤ j → ¬ OccursAt f s j := by
  rw [find, List.find?_range'_eq_none]
  simp only [Bool.not_eq_true', decide_eq_false_iff_not]
  constructor
  · intro h j hj hocc
    have hlen := hocc.1
    exact h j hj (by omega) hocc
  · exact fun h j hj _ => h j hj

theorem findChar_eq_find (s : List α) (c : α) (pos : ℕ) : findChar s c pos = find s [c] pos := by
  ext i
  rw [findChar, List.find?_range'_eq_some, find_eq_some_iff]
  simp only [decide_eq_true_iff, List.mem_range'_1, Bool.not_eq_true', decide_eq_false_iff_not,
    occursAt_singleton]
  constructor
  · rintro ⟨hocc, ⟨hle, -⟩, hbefore⟩
    exact ⟨hle, hocc, hbefore⟩
  · rintro ⟨hle, hocc, hbefore⟩
    obtain ⟨hlt, -⟩ := List.getElem?_eq_some_iff.1 hocc
    exact ⟨hocc, ⟨hle, by omega⟩, hbefore⟩

/-- The search is one in what comes after the position. -/
theorem find_eq_add_iff {k : ℕ} (hpos : pos ≤ s.length) :
    find s f pos = some (pos + k) ↔ FirstAt f (s.drop pos) k := by
  rw [find_eq_some_iff, FirstAt]
  constructor
  · rintro ⟨-, hocc, hbefore⟩
    refine ⟨(occursAt_drop hpos).2 hocc, fun j hj hocc' => ?_⟩
    exact hbefore (pos + j) (Nat.le_add_right _ _) (by omega) ((occursAt_drop hpos).1 hocc')
  · rintro ⟨hocc, hbefore⟩
    refine ⟨Nat.le_add_right _ _, (occursAt_drop hpos).1 hocc, fun j hle hlt hocc' => ?_⟩
    obtain ⟨j, rfl⟩ := Nat.exists_eq_add_of_le hle
    exact hbefore j (by omega) ((occursAt_drop hpos).2 hocc')

theorem find_eq_none_iff_drop (hpos : pos ≤ s.length) :
    find s f pos = none ↔ ∀ j, ¬ OccursAt f (s.drop pos) j := by
  rw [find_eq_none_iff]
  constructor
  · exact fun h j hocc => h (pos + j) (Nat.le_add_right _ _) ((occursAt_drop hpos).1 hocc)
  · intro h j hle hocc
    obtain ⟨j, rfl⟩ := Nat.exists_eq_add_of_le hle
    exact h j ((occursAt_drop hpos).2 hocc)

/-- What is found is not before the position. -/
theorem exists_add_of_find (h : find s f pos = some i) : ∃ k, i = pos + k :=
  Nat.exists_eq_add_of_le (find_eq_some_iff.1 h).1

/-! ### Positions of 64 bits -/

/-- A string whose size is a `size_t`. -/
@[ext]
structure Sized (α : Type*) where
  chars : List α
  length_lt : chars.length < 2 ^ 64

namespace Sized

variable {α : Type*}

def size (str : Sized α) : BitVec 64 := BitVec.ofNat 64 str.chars.length

theorem toNat_size (str : Sized α) : str.size.toNat = str.chars.length := by
  rw [size, BitVec.toNat_ofNat, Nat.mod_eq_of_lt str.length_lt]

/-- The empty string. -/
def empty : Sized α := ⟨[], Nat.two_pow_pos 64⟩

/-- At most `count` characters from `first` on. -/
def part (str : Sized α) (first count : ℕ) : Sized α where
  chars := (str.chars.drop first).take count
  length_lt := by
    have hle := str.length_lt
    rw [List.length_take, List.length_drop]
    omega

theorem chars_part (str : Sized α) (first count : ℕ) :
    (str.part first count).chars = (str.chars.drop first).take count := rfl

/-- `substr`, which throws where the position is behind the end. -/
def substr (str : Sized α) (pos count : BitVec 64) : Option (Sized α) :=
  if str.size < pos then none else some (str.part pos.toNat count.toNat)

theorem substr_of_le {str : Sized α} {pos count : BitVec 64} (h : pos.toNat ≤ str.chars.length) :
    str.substr pos count = some (str.part pos.toNat count.toNat) := by
  refine if_neg fun hlt => ?_
  rw [BitVec.lt_def, toNat_size] at hlt
  omega

end Sized

end StdString
