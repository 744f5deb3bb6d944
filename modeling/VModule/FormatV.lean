/-
**`FormatV` of `sutils/StringUtils.cpp`.**

The loop asks `vsnprintf` for the text with a buffer of some size.  It is told the size that the
text needs, or, by an old C library, that the buffer was too small; since the loop cannot tell this
from an error that will not go away, it doubles the size for as long as it is told so.

Main definitions:

* `VModule.StringUtils.Vsnprintf` — what `vsnprintf` makes of each format;
* `VModule.StringUtils.formatV` — the function, without the Windows branch;
* `VModule.StringUtils.Formats` — what is to be expected of a call;
* `VModule.StringUtils.Grants` — the calls in which no size overflows.

Main results:

* `VModule.StringUtils.formatVLoop_text`, `VModule.StringUtils.formatVLoop_failed` — the run of the
  loop for a text and for an error;
* `VModule.StringUtils.formatVLoop_mono` — more fuel does not matter;
* `VModule.formatV_iff` — the calls that do what is expected.
-/

import Mathlib.Algebra.Group.Nat.Defs
import Mathlib.Data.Nat.Find
import VModule.StringUtils

set_option relaxedAutoImplicit false
set_option autoImplicit false

namespace VModule

namespace StringUtils

/-- The largest `int`. -/
def intMax : ℤ := 2147483647

/-- What comes of printing: the full text, or the result `-1`. -/
inductive Printed
  | text (chars : List UInt8)
  | failed

/-- What `vsnprintf` makes of each format with the arguments at hand.  The empty format prints
nothing, and the length of a text is returned as an `int`. -/
structure Vsnprintf where
  out : List UInt8 → Printed
  out_nil : out [] = .text []
  length_le : ∀ fmt chars, out fmt = .text chars → (chars.length : ℤ) ≤ intMax

/-- The buffer and the result of a call with a buffer of `size` bytes.  What an error leaves in the
buffer is not read. -/
def Printed.write (size : ℤ) : Printed → List UInt8 × ℤ
  | .text chars => (chars.take (size.toNat - 1) ++ [0], chars.length)
  | .failed => ([], -1)

/-- How the function ends: with a string, after a number of rounds, or with an overflow. -/
inductive Formatted
  | returned (str : List UInt8) (rounds : ℕ)
  | overflow

/-- `size *= 2` on an `int`. -/
def double (size : ℤ) : Option ℤ := if size * 2 ≤ intMax then some (size * 2) else none

/-- The loop in its round `k`, in which `malloc` succeeds or not. -/
def formatVLoop (out : Printed) (malloc : ℕ → Bool) : ℕ → ℤ → ℕ → Option Formatted
  | 0, _, _ => none
  | fuel + 1, size, k =>
      if malloc k then
        match out.write size with
        | (cstr, nActual) =>
            if nActual > -1 ∧ nActual < size then
              some (.returned (cstr.take nActual.toNat) (k + 1))
            else
              match if nActual > -1 then increment nActual else double size with
              | none => some .overflow
              | some size => formatVLoop out malloc fuel size (k + 1)
      else some (.returned [] (k + 1))

/-- `FormatV` of a format that may be `NULL`. -/
def formatV (print : Vsnprintf) (malloc : ℕ → Bool) (fuel : ℕ) :
    Option (List UInt8) → Option Formatted
  | none => some (.returned [] 0)
  | some [] => some (.returned [] 0)
  | some (c :: fmt) => formatVLoop (print.out (c :: fmt)) malloc fuel 512 0

/-! ### What is expected -/

/-- The call ends and no size overflows.  A text that is not too long is returned in full after two
rounds at most if `malloc` succeeds, and an error gives the empty string. -/
def Formats (print : Vsnprintf) (malloc : ℕ → Bool) (fmt : Option (List UInt8)) : Prop :=
  ∃ fuel str rounds, formatV print malloc fuel fmt = some (.returned str rounds) ∧
    (∀ chars, fmt.map print.out = some (.text chars) → (chars.length : ℤ) < intMax →
      (∀ k, malloc k = true) → str = chars ∧ rounds ≤ 2) ∧
    (fmt.map print.out = some .failed → str = [])

/-- No format to print, a text that is not of the largest length, an error before the size has
become too large, or no memory at all. -/
def Grants (print : Vsnprintf) (malloc : ℕ → Bool) : Option (List UInt8) → Prop
  | none => True
  | some [] => True
  | some (c :: fmt) =>
      match print.out (c :: fmt) with
      | .text chars => (chars.length : ℤ) < intMax ∨ malloc 0 = false
      | .failed => ∃ k < 22, malloc k = false

/-! ### The loop -/

variable {out : Printed} {malloc : ℕ → Bool} {size : ℤ} {k fuel : ℕ} {r : Formatted}

theorem formatVLoop_refused (h : malloc k = false) :
    formatVLoop out malloc (fuel + 1) size k = some (.returned [] (k + 1)) := by
  rw [formatVLoop, h]
  rfl

/-- The text fits into the buffer. -/
theorem formatVLoop_fits {chars : List UInt8} (h : malloc k = true)
    (hsize : (chars.length : ℤ) < size) :
    formatVLoop (.text chars) malloc (fuel + 1) size k = some (.returned chars (k + 1)) := by
  have htake : chars.take (size.toNat - 1) = chars := List.take_of_length_le (by omega)
  rw [formatVLoop, if_pos h]
  dsimp only [Printed.write]
  rw [if_pos ⟨by omega, hsize⟩, htake, Int.toNat_natCast, List.take_left]

/-- The text does not fit, and its size is the next one. -/
theorem formatVLoop_grows {chars : List UInt8} (h : malloc k = true)
    (hsize : size ≤ (chars.length : ℤ)) (hmax : (chars.length : ℤ) < intMax) :
    formatVLoop (.text chars) malloc (fuel + 1) size k =
      formatVLoop (.text chars) malloc fuel (chars.length + 1) (k + 1) := by
  rw [formatVLoop, if_pos h]
  dsimp only [Printed.write]
  rw [if_neg (by omega), if_pos (by omega), increment_eq hmax]

theorem formatVLoop_doubles (h : malloc k = true) (hsize : size * 2 ≤ intMax) :
    formatVLoop .failed malloc (fuel + 1) size k =
      formatVLoop .failed malloc fuel (size * 2) (k + 1) := by
  rw [formatVLoop, if_pos h]
  dsimp only [Printed.write]
  rw [if_neg (by omega), if_neg (by omega), double, if_pos hsize]

/-- More fuel does not matter. -/
theorem formatVLoop_mono (h : formatVLoop out malloc fuel size k = some r) (more : ℕ) :
    formatVLoop out malloc (fuel + more) size k = some r := by
  induction fuel generalizing size k with
  | zero => cases h
  | succ fuel ih =>
      rw [Nat.add_right_comm, formatVLoop]
      rw [formatVLoop] at h
      split
      · rename_i hmalloc
        rw [if_pos hmalloc] at h
        dsimp only at h ⊢
        split
        · rename_i hfits
          rw [if_pos hfits] at h
          exact h
        · rename_i hfits
          rw [if_neg hfits] at h
          cases hnext : if (out.write size).2 > -1 then increment (out.write size).2
              else double size with
          | none => rw [hnext] at h; exact h
          | some next => rw [hnext] at h; exact ih h
      · rename_i hmalloc
        rw [if_neg hmalloc] at h
        exact h

/-- A call has one end. -/
theorem formatVLoop_unique {fuel' : ℕ} {r' : Formatted}
    (h : formatVLoop out malloc fuel size k = some r)
    (h' : formatVLoop out malloc fuel' size k = some r') : r = r' := by
  have hmore := formatVLoop_mono h fuel'
  rw [Nat.add_comm, formatVLoop_mono h' fuel] at hmore
  exact (Option.some_inj.1 hmore).symm

/-! ### The run for a text -/

/-- What becomes of a text, in two rounds at most. -/
theorem formatVLoop_text {chars : List UInt8} (h : (chars.length : ℤ) < intMax ∨ malloc 0 = false) :
    ∃ str rounds, formatVLoop (.text chars) malloc 2 512 0 = some (.returned str rounds) ∧
      ((∀ k, malloc k = true) → str = chars ∧ rounds ≤ 2) := by
  cases hzero : malloc 0 with
  | false =>
      refine ⟨[], 1, formatVLoop_refused hzero, fun hall => ?_⟩
      rw [hall 0] at hzero
      cases hzero
  | true =>
      have hmax : (chars.length : ℤ) < intMax := by
        rcases h with h | h
        · exact h
        · rw [hzero] at h
          cases h
      by_cases hfits : (chars.length : ℤ) < 512
      · exact ⟨chars, 1, formatVLoop_fits hzero hfits, fun _ => ⟨rfl, by decide⟩⟩
      · rw [formatVLoop_grows hzero (by omega) hmax]
        cases hone : malloc 1 with
        | false =>
            refine ⟨[], 2, formatVLoop_refused hone, fun hall => ?_⟩
            rw [hall 1] at hone
            cases hone
        | true =>
            exact ⟨chars, 2, formatVLoop_fits hone (by omega), fun _ => ⟨rfl, Nat.le_refl 2⟩⟩

/-- The size of the longest text overflows. -/
theorem formatVLoop_longest {chars : List UInt8} (hlen : (chars.length : ℤ) = intMax)
    (h : malloc 0 = true) : formatVLoop (.text chars) malloc 1 512 0 = some .overflow := by
  have hnot : ¬ (chars.length : ℤ) < 512 := by
    rw [hlen]
    decide
  rw [formatVLoop, if_pos h]
  dsimp only [Printed.write]
  rw [if_neg fun hfits => hnot hfits.2, if_pos (by omega), hlen]
  rfl

/-- A text for which the call returns is not of the largest length, or there is no memory. -/
theorem lt_or_refused_of_returned {chars str : List UInt8} {rounds : ℕ}
    (hle : (chars.length : ℤ) ≤ intMax)
    (hrun : formatVLoop (.text chars) malloc fuel 512 0 = some (.returned str rounds)) :
    (chars.length : ℤ) < intMax ∨ malloc 0 = false := by
  by_contra hno
  rw [not_or, Bool.not_eq_false] at hno
  have hlen : (chars.length : ℤ) = intMax := Int.le_antisymm hle (Int.not_lt.1 hno.1)
  cases formatVLoop_unique hrun (formatVLoop_longest hlen hno.2)

/-! ### The run for an error -/

/-- The size doubles in each round. -/
theorem formatVLoop_failed (fuel k : ℕ) (hk : k ≤ 21) (h : ∀ j < k, malloc j = true) :
    formatVLoop .failed malloc (fuel + k) 512 0 =
      formatVLoop .failed malloc fuel ((512 * 2 ^ k : ℕ) : ℤ) k := by
  induction k generalizing fuel with
  | zero => rfl
  | succ k ih =>
      have hpow : 2 ^ k ≤ 2 ^ 20 := Nat.pow_le_pow_right (by decide) (by omega)
      have hsize : ((512 * 2 ^ k : ℕ) : ℤ) * 2 ≤ intMax := by
        unfold intMax
        omega
      have hnext : ((512 * 2 ^ k : ℕ) : ℤ) * 2 = ((512 * 2 ^ (k + 1) : ℕ) : ℤ) := by
        rw [Nat.pow_succ]
        omega
      rw [← Nat.add_assoc, Nat.add_right_comm, ih (fuel + 1) (by omega) fun j hj => h j (by omega),
        formatVLoop_doubles (h k (Nat.lt_succ_self k)) hsize, hnext]

/-- Without a `malloc` that fails, the doubled size overflows. -/
theorem formatVLoop_overflow (h : ∀ k < 22, malloc k = true) :
    formatVLoop .failed malloc 22 512 0 = some .overflow := by
  rw [formatVLoop_failed 1 21 (Nat.le_refl 21) fun j hj => h j (by omega), formatVLoop,
    if_pos (h 21 (by decide))]
  rfl

/-- An error for which the call returns has met a `malloc` that fails. -/
theorem exists_refused_of_returned {str : List UInt8} {rounds : ℕ}
    (hrun : formatVLoop .failed malloc fuel 512 0 = some (.returned str rounds)) :
    ∃ k < 22, malloc k = false := by
  by_contra hno
  have hall : ∀ k < 22, malloc k = true := fun k hk => by
    by_contra hk'
    exact hno ⟨k, hk, Bool.eq_false_iff.2 hk'⟩
  cases formatVLoop_unique hrun (formatVLoop_overflow hall)

/-- The first `malloc` that fails ends the call. -/
theorem formatVLoop_exhausted (h : ∃ k < 22, malloc k = false) :
    ∃ fuel rounds, formatVLoop .failed malloc fuel 512 0 = some (.returned [] rounds) := by
  classical
  obtain ⟨hlt, hfalse⟩ := Nat.find_spec h
  refine ⟨1 + Nat.find h, Nat.find h + 1, ?_⟩
  rw [formatVLoop_failed 1 (Nat.find h) (by omega), formatVLoop_refused hfalse]
  intro j hj
  by_contra hj'
  exact Nat.find_min h hj ⟨by omega, Bool.eq_false_iff.2 hj'⟩

end StringUtils

open StringUtils

/-- **`FormatV` does what is expected** exactly of the calls that are granted: for any format, any
outcome of `vsnprintf` and any success of `malloc`, it returns and no size overflows, unless the
text has the largest length or an error persists for 22 rounds. -/
theorem formatV_iff (print : Vsnprintf) (malloc : ℕ → Bool) (fmt : Option (List UInt8)) :
    Formats print malloc fmt ↔ Grants print malloc fmt := by
  cases fmt with
  | none =>
      refine iff_of_true ⟨0, [], 0, rfl, fun _ h => ?_, fun h => ?_⟩ trivial
      · cases h
      · cases h
  | some fmt =>
      cases fmt with
      | nil =>
          refine iff_of_true ⟨0, [], 0, rfl, fun chars h _ _ => ?_, fun _ => rfl⟩ trivial
          rw [Option.map_some, print.out_nil] at h
          cases h
          exact ⟨rfl, Nat.zero_le 2⟩
      | cons c fmt =>
          cases hout : print.out (c :: fmt) with
          | text chars =>
              simp only [Formats, Grants, formatV, Option.map_some, hout]
              constructor
              · rintro ⟨fuel, str, rounds, hrun, -⟩
                exact lt_or_refused_of_returned (print.length_le _ _ hout) hrun
              · intro h
                obtain ⟨str, rounds, hrun, hfull⟩ := formatVLoop_text h
                refine ⟨2, str, rounds, hrun, fun chars' heq _ hall => ?_, fun h => by cases h⟩
                cases heq
                exact hfull hall
          | failed =>
              simp only [Formats, Grants, formatV, Option.map_some, hout]
              constructor
              · rintro ⟨fuel, str, rounds, hrun, -⟩
                exact exists_refused_of_returned hrun
              · intro h
                obtain ⟨fuel, rounds, hrun⟩ := formatVLoop_exhausted h
                refine ⟨fuel, [], rounds, hrun, fun chars h => ?_, fun _ => rfl⟩
                cases h

/-- A `vsnprintf` whose argument cannot be converted: only a format without a conversion is printed,
if it is not too long. -/
def unprintable : Vsnprintf where
  out fmt := if 37 ∈ fmt ∨ intMax < fmt.length then .failed else .text fmt
  out_nil := rfl
  length_le fmt chars h := by
    split at h
    · cases h
    · rename_i hno
      cases h
      exact Int.not_lt.1 fun hlt => hno (Or.inr hlt)

/-- The format `"%ls"` with a character that cannot be converted, and enough memory. -/
theorem formatV_overflows : ¬ ∀ print malloc fmt, Formats print malloc fmt := by
  intro h
  obtain ⟨fuel, str, rounds, hrun, -⟩ := h unprintable (fun _ => true) (some [37, 108, 115])
  cases formatVLoop_unique hrun (formatVLoop_overflow fun _ _ => rfl)

end VModule
