/-
**The Gregorian calendar.**

A date has a month of its year and a day of its month.  Days are counted by going from each date
to the next one, so the number of days from one date to another is a number of steps.

Main definitions:

* `VModule.Gregorian.IsLeap`, `VModule.Gregorian.daysIn` — the lengths of the months;
* `VModule.Gregorian.Date`, `VModule.Gregorian.Date.tomorrow` — dates, and the next one;
* `VModule.Gregorian.newYear` — the first day of a year;
* `VModule.Gregorian.Reaches` — a date comes some days after another.

Main results:

* `VModule.Gregorian.reaches_of_le` — every date comes some days after the first day of any year
  up to its own;
* `VModule.Gregorian.count_iterate` — what goes up by one from each day to the next counts days.
-/

import Mathlib.Data.Nat.Init
import Mathlib.Logic.Function.Iterate

set_option relaxedAutoImplicit false
set_option autoImplicit false

namespace VModule

namespace Gregorian

/-! ### Dates -/

/-- Every fourth year is a leap year, but of the full centuries only every fourth. -/
def IsLeap (year : ℕ) : Prop := 4 ∣ year ∧ (¬100 ∣ year ∨ 400 ∣ year)

instance (year : ℕ) : Decidable (IsLeap year) := inferInstanceAs (Decidable (_ ∧ _))

/-- The number of days of a month. -/
def daysIn (year month : ℕ) : ℕ :=
  if month = 2 then if IsLeap year then 29 else 28
  else if month = 4 ∨ month = 6 ∨ month = 9 ∨ month = 11 then 30
  else 31

theorem daysIn_bounds (year month : ℕ) : 28 ≤ daysIn year month ∧ daysIn year month ≤ 31 := by
  rw [daysIn]
  by_cases hfeb : month = 2
  · rw [if_pos hfeb]
    split <;> omega
  · rw [if_neg hfeb]
    split <;> omega

theorem daysIn_pos (year month : ℕ) : 0 < daysIn year month :=
  Nat.lt_of_lt_of_le (by omega) (daysIn_bounds year month).1

/-- A date of the calendar. -/
@[ext]
structure Date where
  year : ℕ
  month : ℕ
  day : ℕ
  month_pos : 0 < month
  month_le : month ≤ 12
  day_pos : 0 < day
  day_le : day ≤ daysIn year month

/-- The first day of a month. -/
def firstOf (year month : ℕ) (hpos : 0 < month) (hle : month ≤ 12) : Date :=
  ⟨year, month, 1, hpos, hle, Nat.one_pos, daysIn_pos year month⟩

/-- The first day of a year. -/
def newYear (year : ℕ) : Date := firstOf year 1 (by decide) (by decide)

namespace Date

/-- The next date. -/
def tomorrow (d : Date) : Date :=
  if hday : d.day < daysIn d.year d.month then
    { d with day := d.day + 1, day_pos := d.day.succ_pos, day_le := hday }
  else if hmonth : d.month < 12 then
    firstOf d.year (d.month + 1) d.month.succ_pos hmonth
  else
    newYear (d.year + 1)

theorem tomorrow_of_lt {d : Date} (h : d.day < daysIn d.year d.month) :
    d.tomorrow = { d with day := d.day + 1, day_pos := d.day.succ_pos, day_le := h } := dif_pos h

theorem tomorrow_of_eq {d : Date} (h : d.day = daysIn d.year d.month) (hmonth : d.month < 12) :
    d.tomorrow = firstOf d.year (d.month + 1) d.month.succ_pos hmonth := by
  rw [tomorrow, dif_neg (by omega), dif_pos hmonth]

theorem tomorrow_december {d : Date} (h : d.day = daysIn d.year d.month) (hmonth : d.month = 12) :
    d.tomorrow = newYear (d.year + 1) := by
  rw [tomorrow, dif_neg (by omega), dif_neg (by omega)]

/-- What the next date can be. -/
theorem tomorrow_cases (d : Date) :
    (d.day < daysIn d.year d.month ∧ d.tomorrow.year = d.year ∧ d.tomorrow.month = d.month ∧
      d.tomorrow.day = d.day + 1) ∨
    (d.day = daysIn d.year d.month ∧ d.month < 12 ∧ d.tomorrow.year = d.year ∧
      d.tomorrow.month = d.month + 1 ∧ d.tomorrow.day = 1) ∨
    (d.day = daysIn d.year d.month ∧ d.month = 12 ∧ d.tomorrow.year = d.year + 1 ∧
      d.tomorrow.month = 1 ∧ d.tomorrow.day = 1) := by
  rcases Nat.lt_or_eq_of_le d.day_le with hday | hday
  · refine Or.inl ⟨hday, ?_⟩
    rw [tomorrow_of_lt hday]
    exact ⟨rfl, rfl, rfl⟩
  · rcases Nat.lt_or_eq_of_le d.month_le with hmonth | hmonth
    · refine Or.inr (Or.inl ⟨hday, hmonth, ?_⟩)
      rw [tomorrow_of_eq hday hmonth]
      exact ⟨rfl, rfl, rfl⟩
    · refine Or.inr (Or.inr ⟨hday, hmonth, ?_⟩)
      rw [tomorrow_december hday hmonth]
      exact ⟨rfl, rfl, rfl⟩

theorem year_le_tomorrow (d : Date) : d.year ≤ d.tomorrow.year := by
  rcases d.tomorrow_cases with h | h | h <;> omega

end Date

/-! ### Days passed -/

/-- A date comes some days after another. -/
def Reaches (d e : Date) : Prop := ∃ n, Date.tomorrow^[n] d = e

namespace Reaches

theorem refl (d : Date) : Reaches d d := ⟨0, rfl⟩

theorem tomorrow {d e : Date} (h : Reaches d e) : Reaches d e.tomorrow := by
  obtain ⟨n, rfl⟩ := h
  exact ⟨n + 1, Function.iterate_succ_apply' _ _ _⟩

theorem trans {d e f : Date} (h : Reaches d e) (h' : Reaches e f) : Reaches d f := by
  obtain ⟨m, rfl⟩ := h
  obtain ⟨n, rfl⟩ := h'
  exact ⟨n + m, Function.iterate_add_apply _ _ _ _⟩

end Reaches

/-- The first day of a month reaches the others. -/
theorem firstOf_reaches (d : Date) :
    Reaches (firstOf d.year d.month d.month_pos d.month_le) d := by
  obtain ⟨year, month, day, hpos, hle, hday, hdays⟩ := d
  induction day, hday using Nat.le_induction with
  | base => exact Reaches.refl _
  | succ day hday ih =>
      have h := (ih (by omega)).tomorrow
      rw [Date.tomorrow_of_lt (Nat.lt_of_succ_le hdays)] at h
      exact h

/-- The last day of a month. -/
def lastOf (year month : ℕ) (hpos : 0 < month) (hle : month ≤ 12) : Date :=
  ⟨year, month, daysIn year month, hpos, hle, daysIn_pos year month, Nat.le_refl _⟩

/-- The first day of a year reaches those of its months. -/
theorem newYear_reaches_firstOf (year month : ℕ) (hpos : 0 < month) (hle : month ≤ 12) :
    Reaches (newYear year) (firstOf year month hpos hle) := by
  induction month, hpos using Nat.le_induction with
  | base => exact Reaches.refl _
  | succ month hpos ih =>
      have hlast := firstOf_reaches (lastOf year month hpos (by omega))
      have h := ((ih (by omega)).trans hlast).tomorrow
      rw [Date.tomorrow_of_eq rfl (Nat.lt_of_succ_le hle)] at h
      exact h

theorem newYear_reaches (d : Date) : Reaches (newYear d.year) d :=
  (newYear_reaches_firstOf d.year d.month d.month_pos d.month_le).trans (firstOf_reaches d)

theorem newYear_reaches_newYear {start year : ℕ} (h : start ≤ year) :
    Reaches (newYear start) (newYear year) := by
  induction year, h using Nat.le_induction with
  | base => exact Reaches.refl _
  | succ year _ ih =>
      have hlast := newYear_reaches (lastOf year 12 (by decide) (by decide))
      have h := (ih.trans hlast).tomorrow
      rw [Date.tomorrow_december rfl rfl] at h
      exact h

/-- **Every date is reached** from the first day of any year up to its own. -/
theorem reaches_of_le {start : ℕ} {d : Date} (h : start ≤ d.year) : Reaches (newYear start) d :=
  (newYear_reaches_newYear h).trans (newYear_reaches d)

/-- **Counting days.**  What goes up by one from each day to the next counts the days. -/
theorem count_iterate (count : Date → ℕ) {start : ℕ}
    (hstep : ∀ d : Date, start ≤ d.year → count d.tomorrow = count d + 1) {d : Date}
    (hd : start ≤ d.year) (n : ℕ) :
    start ≤ (Date.tomorrow^[n] d).year ∧ count (Date.tomorrow^[n] d) = count d + n := by
  induction n with
  | zero => exact ⟨hd, rfl⟩
  | succ n ih =>
      obtain ⟨hyear, hcount⟩ := ih
      rw [Function.iterate_succ_apply', hstep _ hyear, hcount]
      exact ⟨Nat.le_trans hyear (Date.year_le_tomorrow _), Nat.add_assoc _ _ _⟩

end Gregorian

end VModule
