/-
**`systemMaketime` of `sutils/Timers.cpp`.**

The seconds from 1970-01-01 to a date and a time of day.  The formula lets the year begin in March,
so that the leap day is the last one of a year.  It adds up the days as `unsigned int`, and goes on
as `unsigned long`, which has 64 bits.

Main definitions:

* `VModule.marchMaketime`, `VModule.systemMaketime` — the function;
* `VModule.epoch`, `VModule.secondsOf` — the date it counts from, and what it makes of others;
* `VModule.dayNumber` — the number of a day, as the formula has it.

Main results:

* `VModule.dayNumber_tomorrow` — the numbers go up by one from each day to the next;
* `VModule.toNat_marchMaketime` — no operation of the formula overflows;
* `VModule.systemMaketime_eq` — the seconds that have passed.
-/

import Mathlib.Tactic.IntervalCases
import VModule.Gregorian

set_option relaxedAutoImplicit false
set_option autoImplicit false

namespace VModule

open Gregorian

/-! ### The function -/

/-- What `systemMaketime` returns, with the year and the month that begin in March. -/
def marchMaketime (year mon day hour min sec : BitVec 32) : BitVec 64 :=
  ((((year / 4 - year / 100 + year / 400 + 367 * mon / 12 + day).setWidth 64 +
    (year * 365).setWidth 64 - 719499) * 24 + hour.setWidth 64) * 60 + min.setWidth 64) * 60 +
      sec.setWidth 64

def systemMaketime (year0 mon0 day hour min sec : BitVec 32) : BitVec 64 :=
  if 0 ≥ (mon0 - 2).toInt then
    marchMaketime (year0 - 1) (mon0 - 2 + 12) day hour min sec
  else
    marchMaketime year0 (mon0 - 2) day hour min sec

def epoch : Date := newYear 1970

/-! ### The number of a day -/

/-- The leap days up to a year. -/
def leapDays (year : ℕ) : ℕ := year / 4 - year / 100 + year / 400

/-- The days that the formula adds up, for a year and a month that begin in March. -/
def marchDays (year mon day : ℕ) : ℕ := leapDays year + 367 * mon / 12 + day + year * 365

/-- The number of a day. -/
def dayNumber (year month day : ℕ) : ℕ :=
  if month ≤ 2 then marchDays (year - 1) (month + 10) day else marchDays year (month - 2) day

theorem leapDays_succ (year : ℕ) :
    leapDays (year + 1) = leapDays year + if IsLeap (year + 1) then 1 else 0 := by
  have hle : year / 100 ≤ year / 4 := Nat.div_le_div_left (by omega) (by omega)
  have hof100 : 100 ∣ year + 1 → 4 ∣ year + 1 := Nat.dvd_trans (by decide)
  have hof400 : 400 ∣ year + 1 → 100 ∣ year + 1 := Nat.dvd_trans (by decide)
  rw [leapDays, leapDays, Nat.succ_div, Nat.succ_div, Nat.succ_div]
  by_cases h4 : 4 ∣ year + 1
  · rw [if_pos h4]
    by_cases h100 : 100 ∣ year + 1
    · rw [if_pos h100]
      by_cases h400 : 400 ∣ year + 1
      · rw [if_pos h400, if_pos ⟨h4, Or.inr h400⟩]
        omega
      · rw [if_neg h400, if_neg fun h => h.2.elim (· h100) h400]
        omega
    · rw [if_neg h100, if_neg (mt hof400 h100), if_pos ⟨h4, Or.inl h100⟩]
      omega
  · have h100 := mt hof100 h4
    rw [if_neg h4, if_neg h100, if_neg (mt hof400 h100), if_neg fun h => h4 h.1]
    rfl

theorem dayNumber_succ (year month day : ℕ) :
    dayNumber year month (day + 1) = dayNumber year month day + 1 := by
  rw [dayNumber, dayNumber, marchDays, marchDays, marchDays, marchDays]
  split <;> omega

/-- From March on the quotient gives the lengths of the months. -/
theorem daysIn_eq (year : ℕ) {month : ℕ} (hmonth : 3 ≤ month) (hle : month ≤ 12) :
    367 * (month + 1 - 2) / 12 = 367 * (month - 2) / 12 + daysIn year month := by
  interval_cases month <;> rfl

/-- The days of February are what is left of the year, with the leap day if it has one. -/
theorem daysIn_february (year : ℕ) :
    leapDays (year + 1) + 30 + 365 = leapDays year + 367 + daysIn (year + 1) 2 := by
  rw [leapDays_succ, daysIn, if_pos rfl]
  split <;> omega

/-- The end of a month. -/
theorem dayNumber_month {year month : ℕ} (hpos : 0 < month) (hlt : month < 12) :
    dayNumber (year + 1) (month + 1) 1 =
      dayNumber (year + 1) month (daysIn (year + 1) month) + 1 := by
  rw [dayNumber, dayNumber, Nat.add_sub_cancel]
  rcases Nat.lt_trichotomy month 2 with hjan | rfl | hmarch
  · obtain rfl : month = 1 := by omega
    have hdays : daysIn (year + 1) 1 = 31 := rfl
    rw [if_pos (by omega), if_pos (by omega), marchDays, marchDays, hdays]
    omega
  · rw [if_neg (by omega), if_pos (by omega), marchDays, marchDays]
    have hfeb := daysIn_february year
    omega
  · rw [if_neg (by omega), if_neg (by omega), marchDays, marchDays,
      daysIn_eq (year + 1) hmarch (Nat.le_of_lt hlt)]
    omega

/-- The end of a year. -/
theorem dayNumber_year (year : ℕ) :
    dayNumber (year + 1) 1 1 = dayNumber year 12 (daysIn year 12) + 1 := by
  have hdays : daysIn year 12 = 31 := rfl
  rw [dayNumber, dayNumber, Nat.add_sub_cancel, if_pos (by omega), if_neg (by omega),
    marchDays, marchDays, hdays]
  omega

/-- **The days are numbered one by one**, across the ends of months, leap days and centuries. -/
theorem dayNumber_tomorrow {d : Date} (hyear : 0 < d.year) :
    dayNumber d.tomorrow.year d.tomorrow.month d.tomorrow.day =
      dayNumber d.year d.month d.day + 1 := by
  rcases d.tomorrow_cases with ⟨-, hy, hm, hd⟩ | ⟨hday, hlt, hy, hm, hd⟩ |
    ⟨hday, hdec, hy, hm, hd⟩
  · rw [hy, hm, hd, dayNumber_succ]
  · obtain ⟨year, hsucc⟩ := Nat.exists_eq_add_one.2 hyear
    rw [hy, hm, hd, hday, hsucc, dayNumber_month d.month_pos hlt]
  · rw [hy, hm, hd, hday, hdec, dayNumber_year]

/-- The number of a day that comes so many days after the first one. -/
theorem dayNumber_iterate (n : ℕ) :
    dayNumber (Date.tomorrow^[n] epoch).year (Date.tomorrow^[n] epoch).month
      (Date.tomorrow^[n] epoch).day = 719499 + n :=
  (count_iterate (fun d => dayNumber d.year d.month d.day)
    (fun _ (hyear : 1970 ≤ _) => dayNumber_tomorrow (by omega)) (Nat.le_refl _) n).2

/-! ### The operations -/

/-- The `unsigned int` sum of the days does not overflow. -/
theorem toNat_days {year mon day : BitVec 32} (hyear : year.toNat * 365 < 4294967296)
    (hmon : mon.toNat ≤ 12) (hday : day.toNat ≤ 31) :
    (year / 4 - year / 100 + year / 400 + 367 * mon / 12 + day).toNat =
      leapDays year.toNat + 367 * mon.toNat / 12 + day.toNat := by
  have hcenturies : (year / 4 - year / 100).toNat = year.toNat / 4 - year.toNat / 100 := by
    rw [BitVec.toNat_sub_of_le]
    · rfl
    · rw [BitVec.le_def, BitVec.toNat_udiv, BitVec.toNat_udiv]
      exact Nat.div_le_div_left (by decide) (by decide)
  have hleap : (year / 4 - year / 100 + year / 400).toNat = leapDays year.toNat := by
    rw [BitVec.toNat_add_of_lt, hcenturies]
    · rfl
    · rw [hcenturies, BitVec.toNat_udiv]
      change _ - _ + year.toNat / 400 < 4294967296
      omega
  have hmonths : (367 * mon / 12).toNat = 367 * mon.toNat / 12 := by
    rw [BitVec.toNat_udiv, BitVec.toNat_mul_of_lt]
    · rfl
    · change 367 * mon.toNat < 4294967296
      omega
  have hbound : leapDays year.toNat ≤ year.toNat := by
    rw [leapDays]
    omega
  rw [BitVec.toNat_add_of_lt, BitVec.toNat_add_of_lt, hleap, hmonths]
  · rw [hleap, hmonths]
    omega
  · rw [BitVec.toNat_add_of_lt, hleap, hmonths]
    · omega
    · rw [hleap, hmonths]
      omega

/-- An `unsigned int` as `unsigned long`. -/
theorem toNat_setWidth (x : BitVec 32) : (x.setWidth 64).toNat = x.toNat :=
  BitVec.toNat_setWidth_of_le (by omega)

/-- A product with a summand, in `unsigned long`. -/
theorem toNat_mul_add {a k : BitVec 64} {b : BitVec 32}
    (h : a.toNat * k.toNat + b.toNat < 18446744073709551616) :
    (a * k + b.setWidth 64).toNat = a.toNat * k.toNat + b.toNat := by
  have hmul : (a * k).toNat = a.toNat * k.toNat :=
    BitVec.toNat_mul_of_lt (Nat.lt_of_le_of_lt (Nat.le_add_right _ _) h)
  rw [BitVec.toNat_add_of_lt, hmul, toNat_setWidth]
  rw [hmul, toNat_setWidth]
  exact h

/-- A sum of two `unsigned int`, in `unsigned long`. -/
theorem toNat_add_setWidth (x y : BitVec 32) :
    (x.setWidth 64 + y.setWidth 64).toNat = x.toNat + y.toNat := by
  have hlt := Nat.add_lt_add x.isLt y.isLt
  rw [BitVec.toNat_add_of_lt, toNat_setWidth, toNat_setWidth]
  rw [toNat_setWidth, toNat_setWidth]
  omega

/-- From the days to the seconds. -/
theorem toNat_seconds {days : BitVec 64} {hour min sec : BitVec 32}
    (hdays : days.toNat < 8589934592) (hhour : hour.toNat < 24) (hmin : min.toNat < 60)
    (hsec : sec.toNat < 60) :
    (((days * 24 + hour.setWidth 64) * 60 + min.setWidth 64) * 60 + sec.setWidth 64).toNat =
      86400 * days.toNat + 3600 * hour.toNat + 60 * min.toNat + sec.toNat := by
  have hhours : (days * 24 + hour.setWidth 64).toNat = days.toNat * 24 + hour.toNat :=
    toNat_mul_add (by change days.toNat * 24 + _ < _; omega)
  have hmins : ((days * 24 + hour.setWidth 64) * 60 + min.setWidth 64).toNat =
      (days.toNat * 24 + hour.toNat) * 60 + min.toNat := by
    rw [toNat_mul_add, hhours]
    · rfl
    · rw [hhours]
      change (days.toNat * 24 + hour.toNat) * 60 + _ < _
      omega
  rw [toNat_mul_add, hmins]
  · change ((days.toNat * 24 + hour.toNat) * 60 + min.toNat) * 60 + _ = _
    omega
  · rw [hmins]
    change ((days.toNat * 24 + hour.toNat) * 60 + min.toNat) * 60 + _ < _
    omega

/-- **No operation overflows** where the years begin in March. -/
theorem toNat_marchMaketime {year mon day hour min sec : BitVec 32}
    (hyear : year.toNat * 365 < 4294967296) (hmon : mon.toNat ≤ 12) (hday : day.toNat ≤ 31)
    (hdays : 719499 ≤ marchDays year.toNat mon.toNat day.toNat) (hhour : hour.toNat < 24)
    (hmin : min.toNat < 60) (hsec : sec.toNat < 60) :
    (marchMaketime year mon day hour min sec).toNat =
      86400 * (marchDays year.toNat mon.toNat day.toNat - 719499) + 3600 * hour.toNat +
        60 * min.toNat + sec.toNat := by
  have hsum : ((year / 4 - year / 100 + year / 400 + 367 * mon / 12 + day).setWidth 64 +
      (year * 365).setWidth 64).toNat = marchDays year.toNat mon.toNat day.toNat := by
    rw [toNat_add_setWidth, toNat_days hyear hmon hday, BitVec.toNat_mul_of_lt hyear]
    rfl
  have hoff : (719499 : BitVec 64).toNat = 719499 := rfl
  have hsub : ((year / 4 - year / 100 + year / 400 + 367 * mon / 12 + day).setWidth 64 +
      (year * 365).setWidth 64 - 719499).toNat =
      marchDays year.toNat mon.toNat day.toNat - 719499 := by
    rw [BitVec.toNat_sub_of_le, hsum, hoff]
    rw [BitVec.le_def, hsum, hoff]
    exact hdays
  rw [marchMaketime, toNat_seconds _ hhour hmin hsec, hsub]
  rw [hsub, marchDays, leapDays]
  omega

/-- The month that the function tests, as an `int`. -/
theorem toInt_sub_two {mon0 : BitVec 32} (hle : mon0.toNat ≤ 12) :
    (mon0 - 2).toInt = mon0.toNat - 2 := by
  have htwo : (2 : BitVec 32).toNat = 2 := rfl
  rw [BitVec.toInt_eq_toNat_cond, BitVec.toNat_sub, htwo]
  split <;> omega

/-- The seconds, by the number of the day. -/
theorem toNat_systemMaketime {year0 mon0 day hour min sec : BitVec 32} (hpos : 0 < year0.toNat)
    (hyear : year0.toNat * 365 < 4294967296) (hle : mon0.toNat ≤ 12) (hday : day.toNat ≤ 31)
    (hdays : 719499 ≤ dayNumber year0.toNat mon0.toNat day.toNat) (hhour : hour.toNat < 24)
    (hmin : min.toNat < 60) (hsec : sec.toNat < 60) :
    (systemMaketime year0 mon0 day hour min sec).toNat =
      86400 * (dayNumber year0.toNat mon0.toNat day.toNat - 719499) + 3600 * hour.toNat +
        60 * min.toNat + sec.toNat := by
  have htwo : (2 : BitVec 32).toNat = 2 := rfl
  rw [systemMaketime, toInt_sub_two hle]
  rw [dayNumber] at hdays ⊢
  by_cases hmarch : mon0.toNat ≤ 2
  · rw [if_pos hmarch] at hdays ⊢
    have hy : (year0 - 1).toNat = year0.toNat - 1 := by
      have hone : (1 : BitVec 32).toNat = 1 := rfl
      rw [BitVec.toNat_sub_of_le, hone]
      rw [BitVec.le_def, hone]
      exact hpos
    have hm : (mon0 - 2 + 12).toNat = mon0.toNat + 10 := by
      have htwelve : (12 : BitVec 32).toNat = 12 := rfl
      rw [BitVec.toNat_add, BitVec.toNat_sub, htwo, htwelve]
      omega
    have hyear' : (year0 - 1).toNat * 365 < 4294967296 := by
      rw [hy]
      exact Nat.lt_of_le_of_lt (Nat.mul_le_mul_right 365 (Nat.sub_le _ 1)) hyear
    have hmon : (mon0 - 2 + 12).toNat ≤ 12 := by
      rw [hm]
      exact Nat.add_le_add_right hmarch 10
    rw [← hy, ← hm] at hdays ⊢
    rw [if_pos (by omega)]
    exact toNat_marchMaketime hyear' hmon hday hdays hhour hmin hsec
  · rw [if_neg hmarch] at hdays ⊢
    have hm : (mon0 - 2).toNat = mon0.toNat - 2 := by
      rw [BitVec.toNat_sub_of_le, htwo]
      rw [BitVec.le_def, htwo]
      omega
    rw [← hm] at hdays ⊢
    rw [if_neg (by omega)]
    exact toNat_marchMaketime hyear (by omega) hday hdays hhour hmin hsec

/-- What `systemMaketime` returns for a date. -/
def secondsOf (d : Date) (hour min sec : BitVec 32) : BitVec 64 :=
  systemMaketime (.ofNat 32 d.year) (.ofNat 32 d.month) (.ofNat 32 d.day) hour min sec

/-- The seconds of a day that comes so many days after the first one. -/
theorem toNat_secondsOf {d : Date} {n : ℕ} (hn : Date.tomorrow^[n] epoch = d)
    (h1970 : 1970 ≤ d.year) (hyear : 365 * d.year < 4294967296) {hour min sec : BitVec 32}
    (hhour : hour.toNat < 24) (hmin : min.toNat < 60) (hsec : sec.toNat < 60) :
    (secondsOf d hour min sec).toNat =
      86400 * n + 3600 * hour.toNat + 60 * min.toNat + sec.toNat := by
  have hle := d.month_le
  have hday : d.day ≤ 31 := Nat.le_trans d.day_le (daysIn_bounds _ _).2
  have hnumber : dayNumber d.year d.month d.day = 719499 + n := by
    rw [← hn, dayNumber_iterate]
  have hy : (BitVec.ofNat 32 d.year).toNat = d.year := Nat.mod_eq_of_lt (by omega)
  have hm : (BitVec.ofNat 32 d.month).toNat = d.month := Nat.mod_eq_of_lt (by omega)
  have hd : (BitVec.ofNat 32 d.day).toNat = d.day := Nat.mod_eq_of_lt (by omega)
  have h : (secondsOf d hour min sec).toNat = _ :=
    toNat_systemMaketime (by omega) (by omega) (by omega) (by omega)
      (by rw [hy, hm, hd, hnumber]; omega) hhour hmin hsec
  rw [hy, hm, hd, hnumber, Nat.add_sub_cancel_left] at h
  exact h

/-- **The seconds that have passed.**  For a date from 1970-01-01 on there is a number of days from
there to it, and `systemMaketime` returns the seconds of these days and of the time of the day.
The next day, at the same time, comes 86400 seconds later. -/
theorem systemMaketime_eq {d : Date} (h1970 : 1970 ≤ d.year) (hyear : 365 * d.year < 4294967296)
    {hour min sec : BitVec 32} (hhour : hour.toNat < 24) (hmin : min.toNat < 60)
    (hsec : sec.toNat < 60) :
    (∃ n, Date.tomorrow^[n] epoch = d) ∧
      (∀ n, Date.tomorrow^[n] epoch = d →
        (secondsOf d hour min sec).toNat =
          86400 * n + 3600 * hour.toNat + 60 * min.toNat + sec.toNat) ∧
      (365 * d.tomorrow.year < 4294967296 →
        (secondsOf d.tomorrow hour min sec).toNat =
          (secondsOf d hour min sec).toNat + 86400) := by
  obtain ⟨n, hn⟩ := reaches_of_le h1970
  refine ⟨⟨n, hn⟩, fun m hm => toNat_secondsOf hm h1970 hyear hhour hmin hsec, ?_⟩
  intro hnext
  have htomorrow : Date.tomorrow^[n + 1] epoch = d.tomorrow := by
    rw [Function.iterate_succ_apply']
    exact congrArg Date.tomorrow hn
  rw [toNat_secondsOf hn h1970 hyear hhour hmin hsec,
    toNat_secondsOf htomorrow (Nat.le_trans h1970 d.year_le_tomorrow) hnext hhour hmin hsec]
  omega

/-- The leap day at the end of a century. -/
def leapDay : Date := ⟨2000, 2, 29, by decide, by decide, by decide, by decide⟩

/-- Noon of that day, and of the next one. -/
theorem systemMaketime_leapDay :
    (∃ n, Date.tomorrow^[n] epoch = leapDay ∧ 951825600 = 86400 * n + 3600 * 12) ∧
      (secondsOf leapDay.tomorrow 12 0 0).toNat = 951825600 + 86400 := by
  have hnoon : (secondsOf leapDay 12 0 0).toNat = 951825600 := by decide
  have hnil : (0 : BitVec 32).toNat < 60 := by decide
  have htwelve : (12 : BitVec 32).toNat < 24 := by decide
  obtain ⟨⟨n, hn⟩, hseconds, hnext⟩ :=
    systemMaketime_eq (d := leapDay) (by decide) (by decide) htwelve hnil hnil
  refine ⟨⟨n, hn, ?_⟩, ?_⟩
  · rw [← hnoon]
    exact hseconds n hn
  · rw [hnext (by decide), hnoon]

end VModule
