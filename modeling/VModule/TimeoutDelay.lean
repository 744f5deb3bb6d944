/-
**`toMillisecondTimeoutDelay` of `sutils/Timers.cpp`.**

The milliseconds to wait from a time to a timeout, both in nanoseconds.  The difference of two
`int64_t` is made in two's complement and read as `uint64_t`; the result is an `int`.

Main definitions:

* `VModule.toMillisecondTimeoutDelay` — the function;
* `VModule.DelayDocumented` — what its documentation in `sutils/Timers.h` says.

Main results:

* `VModule.toNat_sub_of_lt` — the difference is the right one, also where it overflows;
* `VModule.toInt_toMillisecondTimeoutDelay` — what the function returns;
* `VModule.toMillisecondTimeoutDelay_iff` — for which times it is what is documented.
-/

import Mathlib.Algebra.Order.Floor.Div

set_option relaxedAutoImplicit false
set_option autoImplicit false

namespace VModule

/-! ### The function -/

def toMillisecondTimeoutDelay (referenceTime timeoutTime : BitVec 64) : BitVec 32 :=
  if referenceTime.slt timeoutTime then
    let timeoutDelay := timeoutTime - referenceTime
    if timeoutDelay > (2147483647 - 1) * 1000000 then -1
    else ((timeoutDelay + 999999) / 1000000).setWidth 32
  else
    0

/-- What is documented: a timeout that has passed is not waited for, one of more than `INT_MAX`
milliseconds is not waited for with a limit, and else the time is rounded up to milliseconds.  So a
limited wait is long enough, and no shorter one is. -/
structure DelayDocumented (referenceTime timeoutTime result : ℤ) : Prop where
  past : timeoutTime ≤ referenceTime → result = 0
  infinite : 2147483647 * 1000000 < timeoutTime - referenceTime → result = -1
  roundedUp : referenceTime < timeoutTime →
    timeoutTime - referenceTime ≤ 2147483647 * 1000000 →
    result = ((timeoutTime - referenceTime).toNat ⌈/⌉ 1000000 : ℕ)
  enough : 0 ≤ result → timeoutTime ≤ referenceTime + result * 1000000
  least : 0 ≤ result → ∀ r : ℤ, 0 ≤ r → timeoutTime ≤ referenceTime + r * 1000000 → result ≤ r

/-! ### What it returns -/

/-- A difference of two `int64_t` lies below 2⁶⁴, so it is right as `uint64_t`. -/
theorem toNat_sub_of_lt {referenceTime timeoutTime : BitVec 64}
    (h : referenceTime.toInt < timeoutTime.toInt) :
    ((timeoutTime - referenceTime).toNat : ℤ) = timeoutTime.toInt - referenceTime.toInt := by
  have href := referenceTime.isLt
  have htime := timeoutTime.isLt
  rw [BitVec.toInt_eq_toNat_cond, BitVec.toInt_eq_toNat_cond] at h ⊢
  rw [BitVec.toNat_sub]
  split at h <;> split at h <;> omega

/-- Nothing overflows where the delay is rounded up and made an `int`. -/
theorem toInt_milliseconds {timeoutDelay : BitVec 64}
    (h : timeoutDelay.toNat ≤ 2147483646 * 1000000) :
    (((timeoutDelay + 999999) / 1000000).setWidth 32).toInt =
      (timeoutDelay.toNat ⌈/⌉ 1000000 : ℕ) := by
  have hup : (999999 : BitVec 64).toNat = 999999 := rfl
  have hms : (1000000 : BitVec 64).toNat = 1000000 := rfl
  have hsum : (timeoutDelay + 999999).toNat = timeoutDelay.toNat + 999999 := by
    rw [BitVec.toNat_add_of_lt, hup]
    rw [hup]
    omega
  have hnat : (((timeoutDelay + 999999) / 1000000).setWidth 32).toNat =
      timeoutDelay.toNat ⌈/⌉ 1000000 := by
    have hpred : timeoutDelay.toNat + 1000000 - 1 = timeoutDelay.toNat + 999999 := by omega
    rw [BitVec.toNat_setWidth, BitVec.toNat_udiv, hsum, hms, Nat.ceilDiv_eq_add_pred_div, hpred]
    exact Nat.mod_eq_of_lt (by omega)
  have hle : timeoutDelay.toNat ⌈/⌉ 1000000 ≤ 2147483646 :=
    (ceilDiv_le_iff_le_mul (by omega)).2 (by omega)
  rw [BitVec.toInt_eq_toNat_of_lt, hnat]
  rw [hnat]
  omega

/-- **What the function returns**, by the times as integers. -/
theorem toInt_toMillisecondTimeoutDelay (referenceTime timeoutTime : BitVec 64) :
    (toMillisecondTimeoutDelay referenceTime timeoutTime).toInt =
      if timeoutTime.toInt ≤ referenceTime.toInt then 0
      else if 2147483646 * 1000000 < timeoutTime.toInt - referenceTime.toInt then -1
      else (((timeoutTime.toInt - referenceTime.toInt).toNat ⌈/⌉ 1000000 : ℕ) : ℤ) := by
  have hslt : referenceTime.slt timeoutTime = true ↔ referenceTime.toInt < timeoutTime.toInt :=
    BitVec.slt_iff_toInt_lt
  rw [toMillisecondTimeoutDelay]
  by_cases hpast : timeoutTime.toInt ≤ referenceTime.toInt
  · rw [if_neg (mt hslt.1 (Int.not_lt.2 hpast)), if_pos hpast]
    rfl
  · have hdelay := toNat_sub_of_lt (Int.not_le.1 hpast)
    rw [if_pos (hslt.2 (Int.not_le.1 hpast)), if_neg hpast]
    dsimp only
    generalize timeoutTime - referenceTime = timeoutDelay at hdelay ⊢
    rw [← hdelay, Int.toNat_natCast]
    have hlimit : timeoutDelay > (2147483647 - 1) * 1000000 ↔
        2147483646 * 1000000 < (timeoutDelay.toNat : ℤ) := by
      rw [gt_iff_lt, BitVec.lt_def]
      change 2147483646 * 1000000 < timeoutDelay.toNat ↔ _
      omega
    by_cases hinfinite : 2147483646 * 1000000 < (timeoutDelay.toNat : ℤ)
    · rw [if_pos (hlimit.2 hinfinite), if_pos hinfinite]
      rfl
    · rw [if_neg (fun h => hinfinite (hlimit.1 h)), if_neg hinfinite]
      exact toInt_milliseconds (by omega)

/-! ### What is documented -/

/-- A time that is rounded up is the shortest that is long enough. -/
theorem ceilDiv_le_iff {referenceTime timeoutTime r : ℤ} (hr : 0 ≤ r) :
    (((timeoutTime - referenceTime).toNat ⌈/⌉ 1000000 : ℕ) : ℤ) ≤ r ↔
      timeoutTime ≤ referenceTime + r * 1000000 := by
  obtain ⟨n, rfl⟩ := Int.eq_ofNat_of_zero_le hr
  rw [Int.ofNat_le, ceilDiv_le_iff_le_mul (by omega)]
  omega

/-- The times that are rounded up, or that have passed, are waited for long enough. -/
theorem DelayDocumented.of_roundedUp {referenceTime timeoutTime : ℤ}
    (hle : timeoutTime - referenceTime ≤ 2147483647 * 1000000) :
    DelayDocumented referenceTime timeoutTime
      ((timeoutTime - referenceTime).toNat ⌈/⌉ 1000000 : ℕ) where
  past h := by
    rw [Int.toNat_of_nonpos (by omega), zero_ceilDiv]
    rfl
  infinite h := absurd hle (Int.not_le.2 h)
  roundedUp _ _ := rfl
  enough h := (ceilDiv_le_iff h).1 (Int.le_refl _)
  least _ _ hr h := (ceilDiv_le_iff hr).2 h

/-- So is what is not waited for with a limit. -/
theorem DelayDocumented.of_infinite {referenceTime timeoutTime : ℤ}
    (hlt : 2147483647 * 1000000 < timeoutTime - referenceTime) :
    DelayDocumented referenceTime timeoutTime (-1) where
  past h := by omega
  infinite _ := rfl
  roundedUp _ h := absurd hlt (Int.not_lt.2 h)
  enough h := absurd h (by omega)
  least h := absurd h (by omega)

/-- **When the function does what is documented**: unless the timeout comes more than `INT_MAX - 1`
milliseconds and at most `INT_MAX` milliseconds after the time it is referred to. -/
theorem toMillisecondTimeoutDelay_iff (referenceTime timeoutTime : BitVec 64) :
    DelayDocumented referenceTime.toInt timeoutTime.toInt
        (toMillisecondTimeoutDelay referenceTime timeoutTime).toInt ↔
      ¬(2147483646 * 1000000 < timeoutTime.toInt - referenceTime.toInt ∧
        timeoutTime.toInt - referenceTime.toInt ≤ 2147483647 * 1000000) := by
  rw [toInt_toMillisecondTimeoutDelay]
  constructor
  · intro hdoc hrange
    rw [if_neg (by omega), if_pos hrange.1] at hdoc
    have hup := hdoc.roundedUp (by omega) hrange.2
    omega
  · intro hrange
    by_cases hpast : timeoutTime.toInt ≤ referenceTime.toInt
    · have hdoc : DelayDocumented referenceTime.toInt timeoutTime.toInt _ :=
        DelayDocumented.of_roundedUp (by omega)
      rw [Int.toNat_of_nonpos (by omega), zero_ceilDiv] at hdoc
      rw [if_pos hpast]
      exact hdoc
    · rw [if_neg hpast]
      by_cases hinfinite : 2147483646 * 1000000 < timeoutTime.toInt - referenceTime.toInt
      · rw [if_pos hinfinite]
        exact DelayDocumented.of_infinite (by omega)
      · rw [if_neg hinfinite]
        exact DelayDocumented.of_roundedUp (by omega)

/-- A timeout exactly `INT_MAX` milliseconds ahead gets no limit. -/
theorem toMillisecondTimeoutDelay_intMax :
    ¬∀ referenceTime timeoutTime : BitVec 64, DelayDocumented referenceTime.toInt timeoutTime.toInt
      (toMillisecondTimeoutDelay referenceTime timeoutTime).toInt := by
  intro h
  have hdoc := h 0 2147483647000000
  have hresult : (toMillisecondTimeoutDelay 0 2147483647000000).toInt = -1 := by decide
  have htime : (2147483647000000 : BitVec 64).toInt = 2147483647000000 := by decide
  have hzero : (0 : BitVec 64).toInt = 0 := by decide
  rw [hresult, htime, hzero] at hdoc
  have hup := hdoc.roundedUp (by decide) (by decide)
  omega

end VModule
