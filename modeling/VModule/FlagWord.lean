/-
**Words of flags.**

A word of flags is built by setting the bits of one mask and clearing those of another, many times
over.  What a mask reads from the result is decided by the last operation that touches it; the
rules below say so, for words of any width, and their side conditions compare masks only.

Main definitions:

* `FlagWord.set`, `FlagWord.clear` — `w |= m` and `w &= ~m`.

Main results:

* `FlagWord.set_and_of_subset`, `FlagWord.clear_and_of_subset` — a mask reads what was set or
  cleared last;
* `FlagWord.set_and_of_disjoint`, `FlagWord.clear_and_of_disjoint` — it does not see an operation on
  other bits.
-/

import Mathlib.Data.Nat.Notation

set_option relaxedAutoImplicit false
set_option autoImplicit false

namespace FlagWord

variable {n : ℕ} (w : BitVec n) {m k : BitVec n}

/-- `w |= m`. -/
def set (w m : BitVec n) : BitVec n := w ||| m

/-- `w &= ~m`. -/
def clear (w m : BitVec n) : BitVec n := w &&& ~~~m

theorem bit_of_disjoint (h : m &&& k = 0#n) (i : ℕ) : (m.getLsbD i && k.getLsbD i) = false := by
  have hi := congrArg (fun x => x.getLsbD i) h
  simpa using hi

theorem bit_of_subset (h : k &&& m = k) (i : ℕ) (hk : k.getLsbD i = true) :
    m.getLsbD i = true := by
  have hi := congrArg (fun x => x.getLsbD i) h
  simpa [hk] using hi

/-- Bits set elsewhere are not seen through `k`. -/
theorem set_and_of_disjoint (h : m &&& k = 0#n) : set w m &&& k = w &&& k := by
  refine BitVec.eq_of_getLsbD_eq fun i _ => ?_
  have hi := bit_of_disjoint h i
  simp only [set, BitVec.getLsbD_and, BitVec.getLsbD_or]
  cases hk : k.getLsbD i with
  | false => simp
  | true =>
      rw [hk, Bool.and_true] at hi
      simp [hi]

/-- Bits cleared elsewhere are not seen through `k`. -/
theorem clear_and_of_disjoint (h : m &&& k = 0#n) : clear w m &&& k = w &&& k := by
  refine BitVec.eq_of_getLsbD_eq fun i hlt => ?_
  have hi := bit_of_disjoint h i
  simp only [clear, BitVec.getLsbD_and, BitVec.getLsbD_not]
  cases hk : k.getLsbD i with
  | false => simp
  | true =>
      rw [hk, Bool.and_true] at hi
      rw [hi]
      simp [hlt]

/-- All bits of `k` were set. -/
theorem set_and_of_subset (h : k &&& m = k) : set w m &&& k = k := by
  refine BitVec.eq_of_getLsbD_eq fun i _ => ?_
  simp only [set, BitVec.getLsbD_and, BitVec.getLsbD_or]
  cases hk : k.getLsbD i with
  | false => simp
  | true => simp [bit_of_subset h i hk]

/-- All bits of `k` were cleared. -/
theorem clear_and_of_subset (h : k &&& m = k) : clear w m &&& k = 0#n := by
  refine BitVec.eq_of_getLsbD_eq fun i _ => ?_
  simp only [clear, BitVec.getLsbD_and, BitVec.getLsbD_not, BitVec.getLsbD_zero]
  cases hk : k.getLsbD i with
  | false => simp
  | true => simp [bit_of_subset h i hk]

/-- Where `k` was clear it reads the bits that are set now. -/
theorem set_and_of_clear (h : w &&& k = 0#n) : set w m &&& k = m &&& k := by
  have hcomm : set w m = set m w := BitVec.or_comm w m
  rw [hcomm]
  exact set_and_of_disjoint m h

/-- A part of a mask is disjoint from what the mask is disjoint from. -/
theorem disjoint_of_subset {w : BitVec n} (hw : w &&& m = w) (h : m &&& k = 0#n) :
    w &&& k = 0#n := by
  rw [← hw, BitVec.and_assoc, h, BitVec.and_zero]

/-- Two masks together are disjoint from what each is disjoint from. -/
theorem or_disjoint {w : BitVec n} (hw : w &&& k = 0#n) (h : m &&& k = 0#n) :
    (w ||| m) &&& k = 0#n := by
  have hset := set_and_of_clear (m := m) w hw
  rwa [h] at hset

end FlagWord
