import Mathlib.Algebra.BigOperators.Group.Finset.Basic
import Mathlib.Algebra.Order.BigOperators.Group.Finset
import Mathlib.Tactic

set_option autoImplicit false

/-! # The Gregorian calendar

Dates and times from 1970 on, and the number of seconds from 1970-01-01 00:00:00 to each: the
lengths of the years and months are added up. The number grows with the date (`seconds_lt_iff`), so a
bound on it is a bound on the date. Leap seconds are not counted.
-/

namespace Mks.Calendar

open Finset

def IsLeap (y : Nat) : Prop := y % 4 = 0 ∧ (y % 100 ≠ 0 ∨ y % 400 = 0)

instance (y : Nat) : Decidable (IsLeap y) := inferInstanceAs (Decidable (_ ∧ _))

def daysInYear (y : Nat) : Nat := if IsLeap y then 366 else 365

/-- The length of month `m`, which is 1 for January. -/
def daysInMonth (y m : Nat) : Nat :=
  if m = 2 then if IsLeap y then 29 else 28
  else if m = 4 ∨ m = 6 ∨ m = 9 ∨ m = 11 then 30 else 31

/-- The days from 1970-01-01 to the first day of the year `y`. -/
def daysBeforeYear (y : Nat) : Nat := ∑ k ∈ range (y - 1970), daysInYear (1970 + k)

/-- The days from the first day of the year `y` to the first day of month `m`. -/
def daysBeforeMonth (y m : Nat) : Nat := ∑ k ∈ range (m - 1), daysInMonth y (1 + k)

/-- A valid date and time. -/
structure DateTime where
  year : Nat
  month : Nat
  day : Nat
  hour : Nat
  minute : Nat
  second : Nat
  year_ge : 1970 ≤ year
  month_ge : 1 ≤ month
  month_le : month ≤ 12
  day_ge : 1 ≤ day
  day_le : day ≤ daysInMonth year month
  hour_lt : hour < 24
  minute_lt : minute < 60
  second_lt : second < 60

namespace DateTime

/-- The days from 1970-01-01. -/
def days (d : DateTime) : Nat :=
  daysBeforeYear d.year + daysBeforeMonth d.year d.month + (d.day - 1)

/-- The seconds from 1970-01-01 00:00:00. -/
def seconds (d : DateTime) : Nat := ((d.days * 24 + d.hour) * 60 + d.minute) * 60 + d.second

/-- `d` is earlier than `e`. -/
def Before (d e : DateTime) : Prop :=
  d.year < e.year ∨ d.year = e.year ∧ (d.month < e.month ∨ d.month = e.month ∧
    (d.day < e.day ∨ d.day = e.day ∧ (d.hour < e.hour ∨ d.hour = e.hour ∧
      (d.minute < e.minute ∨ d.minute = e.minute ∧ d.second < e.second))))

end DateTime

/-! ## Years and months -/

theorem daysBeforeYear_succ {y : Nat} (h : 1970 ≤ y) :
    daysBeforeYear (y + 1) = daysBeforeYear y + daysInYear y := by
  rw [daysBeforeYear, show y + 1 - 1970 = y - 1970 + 1 by omega, sum_range_succ,
    show 1970 + (y - 1970) = y by omega]
  rfl

theorem daysBeforeYear_mono {y z : Nat} (h : y ≤ z) : daysBeforeYear y ≤ daysBeforeYear z :=
  sum_le_sum_of_subset (range_subset_range.mpr (by omega))

theorem daysBeforeMonth_succ (y : Nat) {m : Nat} (h : 1 ≤ m) :
    daysBeforeMonth y (m + 1) = daysBeforeMonth y m + daysInMonth y m := by
  rw [daysBeforeMonth, show m + 1 - 1 = m - 1 + 1 by omega, sum_range_succ,
    show 1 + (m - 1) = m by omega]
  rfl

theorem daysBeforeMonth_mono (y : Nat) {m n : Nat} (h : m ≤ n) :
    daysBeforeMonth y m ≤ daysBeforeMonth y n :=
  sum_le_sum_of_subset (range_subset_range.mpr (by omega))

/-- The twelve months are the year. -/
theorem daysBeforeMonth_year (y : Nat) : daysBeforeMonth y 13 = daysInYear y := by
  by_cases h : IsLeap y <;> simp [daysBeforeMonth, daysInMonth, daysInYear, sum_range_succ, h]

namespace DateTime

/-! ## The order of the dates -/

/-- The day of a date lies in its month. -/
theorem day_lt (d : DateTime) :
    daysBeforeMonth d.year d.month + (d.day - 1) < daysBeforeMonth d.year (d.month + 1) := by
  have h := daysBeforeMonth_succ d.year d.month_ge
  have := d.day_ge
  have := d.day_le
  omega

/-- The day of a date lies in its year. -/
theorem days_lt (d : DateTime) : d.days < daysBeforeYear (d.year + 1) := by
  have hy := daysBeforeYear_succ d.year_ge
  have hm := daysBeforeMonth_mono d.year (show d.month + 1 ≤ 13 by have := d.month_le; omega)
  have hd := d.day_lt
  rw [daysBeforeMonth_year] at hm
  rw [days]
  omega

theorem days_lt_of_year {d e : DateTime} (h : d.year < e.year) : d.days < e.days :=
  calc d.days < daysBeforeYear (d.year + 1) := d.days_lt
    _ ≤ daysBeforeYear e.year := daysBeforeYear_mono h
    _ ≤ e.days := by rw [days]; omega

theorem days_lt_of_month {d e : DateTime} (hy : d.year = e.year) (h : d.month < e.month) :
    d.days < e.days := by
  have hd := d.day_lt
  have hm := daysBeforeMonth_mono d.year (show d.month + 1 ≤ e.month from h)
  rw [days, days, ← hy]
  omega

theorem days_lt_of_day {d e : DateTime} (hy : d.year = e.year) (hm : d.month = e.month)
    (h : d.day < e.day) : d.days < e.days := by
  have := d.day_ge
  rw [days, days, ← hy, ← hm]
  omega

/-- A date on an earlier day is earlier by a second at least. -/
theorem seconds_lt_of_days {d e : DateTime} (h : d.days < e.days) : d.seconds < e.seconds := by
  have := d.hour_lt
  have := d.minute_lt
  have := d.second_lt
  rw [seconds, seconds]
  omega

theorem seconds_lt {d e : DateTime} (h : d.Before e) : d.seconds < e.seconds := by
  rcases h with hy | ⟨hy, hm | ⟨hm, hd | ⟨hd, ht⟩⟩⟩
  · exact seconds_lt_of_days (days_lt_of_year hy)
  · exact seconds_lt_of_days (days_lt_of_month hy hm)
  · exact seconds_lt_of_days (days_lt_of_day hy hm hd)
  · -- on one day the time decides
    have hdays : d.days = e.days := by rw [days, days, hy, hm, hd]
    have := d.minute_lt
    have := d.second_lt
    rw [seconds, seconds, hdays]
    omega

theorem seconds_lt_iff {d e : DateTime} : d.seconds < e.seconds ↔ d.Before e := by
  refine ⟨fun h => ?_, seconds_lt⟩
  by_contra hn
  -- otherwise `e` is earlier, or the same instant
  by_cases he : e.Before d
  · have := seconds_lt he
    omega
  · have hsame : d.year = e.year ∧ d.month = e.month ∧ d.day = e.day ∧ d.hour = e.hour ∧
        d.minute = e.minute ∧ d.second = e.second := by
      rw [Before] at hn he
      omega
    obtain ⟨hy, hm, hd, hh, hmin, hs⟩ := hsame
    rw [seconds, seconds, days, days, hy, hm, hd, hh, hmin, hs] at h
    exact lt_irrefl _ h

/-- The number of seconds tells the instant. -/
theorem eq_of_seconds {d e : DateTime} (h : d.seconds = e.seconds) : d = e := by
  have hd : ¬ d.Before e := fun hb => (seconds_lt hb).ne h
  have he : ¬ e.Before d := fun hb => (seconds_lt hb).ne' h
  rw [Before] at hd he
  cases d
  cases e
  simp only [mk.injEq] at hd he ⊢
  omega

theorem seconds_mod (d : DateTime) : d.seconds % 60 = d.second := by
  have := d.second_lt
  rw [seconds]
  omega

end DateTime

end Mks.Calendar
