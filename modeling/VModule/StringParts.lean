/-
**`Left`, `Mid` and `Right` of `sutils/StringUtils.cpp`.**

The arithmetic on `size_t` wraps around: the sum that `Mid` compares with the size is too small for
a large count, also for `npos`.  The comparison then lets the count through, and `substr` takes what
there is.

Main definitions:

* `VModule.StringUtils.left`, `VModule.StringUtils.mid`, `VModule.StringUtils.right`.

Main results:

* `VModule.StringUtils.mid_eq`, `VModule.StringUtils.left_eq`, `VModule.StringUtils.right_eq` — the
  parts of the string;
* `VModule.parts_meet` — `Mid` drops and takes, and the parts make up the string.
-/

import VModule.StdString

set_option relaxedAutoImplicit false
set_option autoImplicit false

namespace VModule

open StdString

namespace StringUtils

/-- What ends a call without a result. -/
inductive Fault
  | assertion
  | outOfRange
  deriving DecidableEq

variable {α : Type}

def npos : BitVec 64 := BitVec.allOnes 64

/-- `substr`, with the exception for the caller. -/
def substrOrThrow (str : Sized α) (pos count : BitVec 64) : Except Fault (Sized α) :=
  match str.substr pos count with
  | none => .error .outOfRange
  | some part => .ok part

/-- `std::min` of two `size_t`. -/
def minSize (a b : BitVec 64) : BitVec 64 := if b < a then b else a

/-- `std::max` of two `size_t`. -/
def maxSize (a b : BitVec 64) : BitVec 64 := if a < b then b else a

/-- The count that `Left` and `Right` go on with. -/
def clampCount (str : Sized α) (count : BitVec 64) : BitVec 64 :=
  maxSize 0#64 (minSize count str.size)

def left (str : Sized α) (count : BitVec 64) : Except Fault (Sized α) :=
  substrOrThrow str 0#64 (clampCount str count)

def mid (str : Sized α) (first count : BitVec 64) : Except Fault (Sized α) :=
  let count := if str.size < first + count then str.size - first else count
  if str.size < first then .ok .empty
  else if first + count ≤ str.size then substrOrThrow str first count
  else .error .assertion

def right (str : Sized α) (count : BitVec 64) : Except Fault (Sized α) :=
  substrOrThrow str (str.size - clampCount str count) npos

/-! ### The parts -/

variable {str : Sized α} {first count : BitVec 64}

theorem substrOrThrow_eq (h : first.toNat ≤ str.chars.length) :
    substrOrThrow str first count = .ok (str.part first.toNat count.toNat) := by
  rw [substrOrThrow, Sized.substr_of_le h]

theorem toNat_minSize (a b : BitVec 64) : (minSize a b).toNat = min a.toNat b.toNat := by
  unfold minSize
  split <;> rw [BitVec.lt_def] at * <;> omega

theorem toNat_maxSize (a b : BitVec 64) : (maxSize a b).toNat = max a.toNat b.toNat := by
  unfold maxSize
  split <;> rw [BitVec.lt_def] at * <;> omega

theorem toNat_clampCount (str : Sized α) (count : BitVec 64) :
    (clampCount str count).toNat = min count.toNat str.chars.length := by
  rw [clampCount, toNat_maxSize, toNat_minSize, str.toNat_size, BitVec.toNat_zero, Nat.zero_max]

theorem toNat_npos : npos.toNat = 18446744073709551615 := rfl

theorem left_eq (str : Sized α) (count : BitVec 64) :
    left str count = .ok (str.part 0 count.toNat) := by
  rw [left, substrOrThrow_eq (Nat.zero_le _)]
  congr 1
  ext1
  rw [Sized.chars_part, Sized.chars_part, toNat_clampCount]
  exact List.take_eq_take_iff.2 (by rw [BitVec.toNat_zero, List.drop_zero]; omega)

theorem right_eq (str : Sized α) (count : BitVec 64) :
    right str count =
      .ok (str.part (str.chars.length - min count.toNat str.chars.length) npos.toNat) := by
  have hpos : (str.size - clampCount str count).toNat =
      str.chars.length - min count.toNat str.chars.length := by
    have hlt := str.length_lt
    rw [BitVec.toNat_sub_of_le, str.toNat_size, toNat_clampCount]
    rw [BitVec.le_def, str.toNat_size, toNat_clampCount]
    omega
  rw [right, substrOrThrow_eq (by omega), hpos]

/-- A count for which the sum wraps around is as good as any that is too large. -/
theorem mid_eq (str : Sized α) (first count : BitVec 64) :
    mid str first count = .ok (str.part (min first.toNat str.chars.length) count.toNat) := by
  have hlt := str.length_lt
  have hsize := str.toNat_size
  unfold mid
  simp only [BitVec.lt_def, BitVec.le_def, hsize]
  by_cases hfirst : str.chars.length < first.toNat
  · rw [if_pos hfirst, Nat.min_eq_right (by omega)]
    congr 1
    ext1
    rw [Sized.chars_part, List.drop_length, List.take_nil]
    rfl
  · rw [if_neg hfirst, Nat.min_eq_left (by omega)]
    by_cases hguard : str.chars.length < (first + count).toNat
    · have hrest : (str.size - first).toNat = str.chars.length - first.toNat := by
        rw [BitVec.toNat_sub_of_le (by rw [BitVec.le_def]; omega), hsize]
      have hsum : (first + (str.size - first)).toNat = str.chars.length := by
        rw [BitVec.toNat_add, hrest, Nat.mod_eq_of_lt] <;> omega
      rw [if_pos hguard, if_pos (by omega), substrOrThrow_eq (by omega), hrest]
      congr 1
      ext1
      rw [BitVec.toNat_add] at hguard
      have hcount : str.chars.length - first.toNat ≤ count.toNat := by
        have hmod := Nat.mod_le (first.toNat + count.toNat) (2 ^ 64)
        omega
      exact List.take_eq_take_iff.2 (by rw [List.length_drop]; omega)
    · rw [if_neg hguard, if_pos (by omega), substrOrThrow_eq (by omega)]

/-- Where the part that `Right` takes begins. -/
def rest (str : Sized α) (n : BitVec 64) : BitVec 64 :=
  BitVec.ofNat 64 (str.chars.length - min n.toNat str.chars.length)

theorem toNat_rest (str : Sized α) (n : BitVec 64) :
    (rest str n).toNat = str.chars.length - min n.toNat str.chars.length := by
  have hlt := str.length_lt
  rw [rest, BitVec.toNat_ofNat, Nat.mod_eq_of_lt (by omega)]

/-- Two parts that meet make up the string. -/
theorem part_append_part (str : Sized α) (n : ℕ) :
    (str.part 0 n).chars ++ (str.part (min n str.chars.length) npos.toNat).chars = str.chars := by
  have hlt := str.length_lt
  have hall : (str.chars.drop (min n str.chars.length)).take npos.toNat =
      str.chars.drop (min n str.chars.length) :=
    List.take_of_length_le (by rw [List.length_drop, toNat_npos]; omega)
  have htake : str.chars.take n = str.chars.take (min n str.chars.length) :=
    List.take_eq_take_iff.2 (by omega)
  rw [Sized.chars_part, Sized.chars_part, hall, List.drop_zero, htake, List.take_append_drop]

end StringUtils

open StringUtils

/-- **`Left`, `Mid` and `Right` take the parts of the string**: `Mid` drops the characters before
`first` and takes at most `count` of the others, whatever the two are, and neither its assertion
fails nor does `substr` throw.  `Left` and `Mid` at one place make up the string, and `Right` is the
`Mid` that has the last characters. -/
theorem parts_meet {α : Type} (str : Sized α) :
    (∀ first count, (mid str first count).map Sized.chars =
      .ok ((str.chars.drop (min first.toNat str.chars.length)).take count.toNat)) ∧
    ∀ n, ∃ leftPart midPart rightPart before,
      left str n = .ok leftPart ∧ mid str n npos = .ok midPart ∧
      leftPart.chars ++ midPart.chars = str.chars ∧
      right str n = .ok rightPart ∧ mid str (rest str n) npos = .ok rightPart ∧
      left str (rest str n) = .ok before ∧ before.chars ++ rightPart.chars = str.chars := by
  constructor
  · intro first count
    rw [mid_eq]
    rfl
  · intro n
    have hrest := toNat_rest str n
    have hmin : min (rest str n).toNat str.chars.length = (rest str n).toNat := by omega
    have happ := part_append_part str (rest str n).toNat
    rw [hmin] at happ
    refine ⟨_, _, _, _, left_eq str n, mid_eq str n npos, part_append_part str n.toNat,
      right_eq str n, ?_, left_eq str (rest str n), ?_⟩
    · rw [mid_eq, hmin, hrest]
    · rw [← hrest]
      exact happ

end VModule
