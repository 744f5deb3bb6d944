/-
**`Trim` of `sutils/StringUtils.cpp` leaves the middle of the string.**

Both implementations trim a list at its ends: the one that goes by `isspace` and iterators, and the
one that goes by a set of characters and positions, where the position may be `npos`.

Main results:

* `VModule.StringUtils.isspaceC_eq` — what counts as white space, for signed characters as well;
* `VModule.StringUtils.trimLeft_eq`, `VModule.StringUtils.trimRight_eq`,
  `VModule.StringUtils.trimLeftChars_eq`, `VModule.StringUtils.trimRightChars_eq` — the ends;
* `VModule.trim_middle` — the middle of the string, for both.
-/

import VModule.StringScans
import VModule.Trimming

set_option relaxedAutoImplicit false
set_option autoImplicit false

namespace VModule

open Trimming

namespace StringUtils

/-- The test for white space is one for these characters, however a `char` is promoted. -/
theorem isspaceC_eq (charSigned : Bool) (c : UInt8) :
    isspaceC charSigned c = decide (c ∈ whiteSpace) := by
  obtain ⟨b⟩ := c
  revert charSigned b
  decide

/-- No character with the high bit set is one of them. -/
theorem lt_of_mem_whiteSpace {c : UInt8} (h : c ∈ whiteSpace) : ¬ 128 ≤ c :=
  forall_of_all (P := fun c => ¬ 128 ≤ c) (by decide) h

/-! ### The ends -/

/-- What is behind the first character that is not of the kind. -/
theorem eraseRange_findIdx (p : UInt8 → Bool) (str : List UInt8) :
    StdString.eraseRange str 0 (str.findIdx fun c => !p c) = str.dropWhile p := by
  rw [StdString.eraseRange, List.take_zero, List.nil_append, List.dropWhile_eq_drop_findIdx_not]

/-- What is up to the last character that is not of the kind. -/
theorem take_findIdx_reverse (p : UInt8 → Bool) (str : List UInt8) :
    str.take (str.length - str.reverse.findIdx fun c => !p c) = str.rdropWhile p := by
  rw [List.rdropWhile, List.dropWhile_eq_drop_findIdx_not, List.drop_reverse, List.reverse_reverse]

theorem trimLeft_eq (charSigned : Bool) (str : List UInt8) :
    trimLeft charSigned str = str.dropWhile (· ∈ whiteSpace) := by
  rw [trimLeft, funext (isspaceC_eq charSigned), eraseRange_findIdx]

theorem trimRight_eq (charSigned : Bool) (str : List UInt8) :
    trimRight charSigned str = str.rdropWhile (· ∈ whiteSpace) := by
  rw [trimRight, funext (isspaceC_eq charSigned), StdString.eraseRange, take_findIdx_reverse,
    List.drop_length, List.append_nil]

theorem trimLeftChars_eq (chars str : List UInt8) :
    trimLeftChars chars str = str.dropWhile (· ∈ chars) := by
  rw [← eraseRange_findIdx, trimLeftChars, StdString.findFirstNotOf]
  simp only [decide_not]
  cases h : str.findIdx? fun c => !decide (c ∈ chars) with
  | none =>
      -- nothing is found, and all is erased
      rw [List.findIdx?_eq_none_iff_findIdx_eq] at h
      rw [h, StdString.eraseRange, List.drop_length]
      rfl
  | some i =>
      rw [List.findIdx?_eq_some_iff_findIdx_eq] at h
      rw [h.2, StdString.eraseRange, StdString.erase, Nat.zero_add]

theorem trimRightChars_eq (chars str : List UInt8) :
    trimRightChars chars str = str.rdropWhile (· ∈ chars) := by
  rw [← take_findIdx_reverse, trimRightChars, StdString.findLastNotOf]
  simp only [decide_not]
  cases h : str.reverse.findIdx? fun c => !decide (c ∈ chars) with
  | none =>
      rw [List.findIdx?_eq_none_iff_findIdx_eq, List.length_reverse] at h
      rw [h, Nat.sub_self]
      rfl
  | some i =>
      rw [List.findIdx?_eq_some_iff_findIdx_eq, List.length_reverse] at h
      have hlast : str.length - 1 - i + 1 = str.length - i := by omega
      rw [h.2, ← hlast]
      rfl

theorem trim_eq (charSigned : Bool) (str : List UInt8) :
    trim charSigned str = Trimming.trim (· ∈ whiteSpace) str := by
  rw [trim, trimLeft_eq, trimRight_eq, Trimming.trim]

theorem trimChars_eq (chars str : List UInt8) :
    trimChars chars str = Trimming.trim (· ∈ chars) str := by
  rw [trimChars, trimLeftChars_eq, trimRightChars_eq, Trimming.trim]

/-- What is taken off the ends is not what is looked for. -/
theorem filter_eq_of_middle {p q : UInt8 → Bool} {str m : List UInt8} (h : Middle p str m)
    (hpq : ∀ c, p c → ¬ q c) : m.filter q = str.filter q := by
  obtain ⟨a, b, rfl, ha, hb⟩ := h.between
  rw [List.filter_append, List.filter_append, List.filter_eq_nil_iff.2 fun c hc => hpq c (ha c hc),
    List.filter_eq_nil_iff.2 fun c hc => hpq c (hb c hc), List.nil_append, List.append_nil]

end StringUtils

open StringUtils

/-- **`Trim` leaves the middle of the string**, and nothing else is one: the part between white
space of ASCII that neither begins nor ends with such a character.  No character with the high bit
set is taken off, the two ends may be trimmed in either order, and trimming again changes nothing.
The implementation for a set of characters leaves the middle for that set, and for the set of the
white space it agrees with the other one. -/
theorem trim_middle (charSigned : Bool) (str : List UInt8) :
    (∀ m, Middle (· ∈ whiteSpace) str m ↔ m = trim charSigned str) ∧
    (trim charSigned str).filter (128 ≤ ·) = str.filter (128 ≤ ·) ∧
    trimRight charSigned (trimLeft charSigned str) =
      trimLeft charSigned (trimRight charSigned str) ∧
    trim charSigned (trim charSigned str) = trim charSigned str ∧
    trim charSigned str = trimChars whiteSpace str ∧
    ∀ chars m, Middle (· ∈ chars) str m ↔ m = trimChars chars str := by
  have hiff : ∀ (chars m : List UInt8),
      Middle (· ∈ chars) str m ↔ m = Trimming.trim (· ∈ chars) str := by
    intro chars m
    constructor
    · exact Middle.eq_trim
    · rintro rfl
      exact middle_trim _ _
  refine ⟨?_, ?_, ?_, ?_, ?_, ?_⟩
  · intro m
    rw [trim_eq]
    exact hiff whiteSpace m
  · rw [trim_eq]
    refine filter_eq_of_middle (middle_trim _ str) fun c hc => ?_
    rw [decide_eq_true_iff] at hc ⊢
    exact lt_of_mem_whiteSpace hc
  · rw [trimLeft_eq, trimRight_eq, trimRight_eq, trimLeft_eq, rdropWhile_dropWhile]
  · rw [trim_eq, trim_eq, trim_trim]
  · rw [trim_eq, trimChars_eq]
  · intro chars m
    rw [trimChars_eq]
    exact hiff chars m

end VModule
