import Mks.Basic
import Mks.Lib.Calendar

set_option autoImplicit false

/-! # The start-up time

`time_init` (`kernel/time.c`) reads the CMOS clock and stores the seconds since 1970 in
`startup_time`. The computation is that of the calendar up to 2069, the last year a two-digit year
can stand for, but modulo `2^32` (`kernelMktime_eq`): `startup_time` is a `long` of 32 bits, and
the seconds fit in it before 2038-01-19 03:14:08 only.
-/

namespace Mks.Time

open Calendar

def MINUTE : Word := 60
def HOUR : Word := 60 * MINUTE
def DAY : Word := 24 * HOUR
def YEAR : Word := 365 * DAY

/-- The fields of `struct tm` that are used. -/
structure Tm where
  sec : Word
  min : Word
  hour : Word
  mday : Word
  mon : Word
  year : Word

/-- The seconds before each month of a leap year. -/
def month : List Word :=
  [0,
   DAY * 31,
   DAY * (31 + 29),
   DAY * (31 + 29 + 31),
   DAY * (31 + 29 + 31 + 30),
   DAY * (31 + 29 + 31 + 30 + 31),
   DAY * (31 + 29 + 31 + 30 + 31 + 30),
   DAY * (31 + 29 + 31 + 30 + 31 + 30 + 31),
   DAY * (31 + 29 + 31 + 30 + 31 + 30 + 31 + 31),
   DAY * (31 + 29 + 31 + 30 + 31 + 30 + 31 + 31 + 30),
   DAY * (31 + 29 + 31 + 30 + 31 + 30 + 31 + 31 + 30 + 31),
   DAY * (31 + 29 + 31 + 30 + 31 + 30 + 31 + 31 + 30 + 31 + 30)]

/-- `kernel_mktime`; `none` if `tm_mon` is no index of `month`. -/
def kernelMktime (tm : Tm) : Option Word := do
  let tmYear := if tm.year.slt 70 then tm.year + 100 else tm.year
  let year := tmYear - 70
  let res := YEAR * year + DAY * (year + 1).sdiv 4
  let res := res + (← month[tm.mon.toNat]?)
  -- the table is that of a leap year
  let res := if (1 : Word).slt tm.mon ∧ (year + 2).srem 4 ≠ 0 then res - DAY else res
  let res := res + DAY * (tm.mday - 1)
  let res := res + HOUR * tm.hour
  let res := res + MINUTE * tm.min
  let res := res + tm.sec
  return res

/-! ## The CMOS clock -/

/-- The value of each register of the CMOS clock at the `n`-th read. -/
abbrev Cmos := Nat → BitVec 8 → BitVec 8

/-- `CMOS_READ` -/
def cmosRead (cmos : Cmos) (n : Nat) (addr : BitVec 8) : Word := (cmos n addr).setWidth 32

/-- `BCD_TO_BIN` -/
def bcdToBin (val : Word) : Word := (val &&& 15) + val.sshiftRight 4 * 10

/-- The six reads of a pass of the loop in `time_init`, the first of which is the `n`-th. -/
def readFields (cmos : Cmos) (n : Nat) : Tm where
  sec := cmosRead cmos n 0
  min := cmosRead cmos (n + 1) 2
  hour := cmosRead cmos (n + 2) 4
  mday := cmosRead cmos (n + 3) 7
  mon := cmosRead cmos (n + 4) 8
  year := cmosRead cmos (n + 5) 9

/-- The loop of `time_init`: the registers are read again until the second is the same after the
pass. `none` if it is not within `fuel` passes. -/
def readTime (cmos : Cmos) (n : Nat) : Nat → Option Tm
  | 0 => none
  | fuel + 1 =>
    let time := readFields cmos n
    if time.sec ≠ cmosRead cmos (n + 6) 0 then readTime cmos (n + 7) fuel else some time

/-- What `time_init` stores in `startup_time`. -/
def timeInit (cmos : Cmos) (fuel : Nat) : Option Word := do
  let time ← readTime cmos 0 fuel
  kernelMktime
    { sec := bcdToBin time.sec, min := bcdToBin time.min, hour := bcdToBin time.hour,
      mday := bcdToBin time.mday, mon := bcdToBin time.mon - 1, year := bcdToBin time.year }

/-- The byte that holds `n` in BCD. -/
def bcd (n : Nat) : BitVec 8 := BitVec.ofNat 8 (n / 10 * 16 + n % 10)

/-- The registers hold the instant `d`, its year by the last two digits. -/
def Presents (cmos : Cmos) (d : DateTime) : Prop :=
  ∀ n, cmos n 0 = bcd d.second ∧ cmos n 2 = bcd d.minute ∧ cmos n 4 = bcd d.hour ∧
    cmos n 7 = bcd d.day ∧ cmos n 8 = bcd d.month ∧ cmos n 9 = bcd (d.year % 100)

/-! ## The registers -/

theorem bcdToBin_bcd {n : Nat} (h : n < 100) :
    bcdToBin ((bcd n).setWidth 32) = BitVec.ofNat 32 n := by
  have : ∀ n : Fin 100, bcdToBin ((bcd n).setWidth 32) = BitVec.ofNat 32 n := by decide
  exact this ⟨n, h⟩

/-- Registers that stand still are read once. -/
theorem readTime_presents {cmos : Cmos} {d : DateTime} (h : Presents cmos d) (n fuel : Nat) :
    readTime cmos n (fuel + 1) = some (readFields cmos n) := by
  have hsec : (readFields cmos n).sec = cmosRead cmos (n + 6) 0 := by
    change (cmos n 0).setWidth 32 = (cmos (n + 6) 0).setWidth 32
    rw [(h n).1, (h (n + 6)).1]
  rw [readTime]
  exact if_neg (not_not.mpr hsec)

/-! ## The calendar in `kernel_mktime` -/

/-- The two-digit year counts from 1970. -/
theorem tmYear_sub {k : Nat} (h : k < 100) :
    (if (BitVec.ofNat 32 ((1970 + k) % 100)).slt 70 then BitVec.ofNat 32 ((1970 + k) % 100) + 100
      else BitVec.ofNat 32 ((1970 + k) % 100)) - 70 = BitVec.ofNat 32 k := by
  have : ∀ k : Fin 100,
      (if (BitVec.ofNat 32 ((1970 + k.1) % 100)).slt 70
        then BitVec.ofNat 32 ((1970 + k.1) % 100) + 100
        else BitVec.ofNat 32 ((1970 + k.1) % 100)) - 70 = BitVec.ofNat 32 k.1 := by decide
  exact this ⟨k, h⟩

/-- `(year + 1) / 4` counts the leap years before a year. -/
theorem sdiv_four {k : Nat} (h : k < 100) :
    (BitVec.ofNat 32 k + 1).sdiv 4 = BitVec.ofNat 32 ((k + 1) / 4) := by
  have : ∀ k : Fin 100, (BitVec.ofNat 32 k.1 + 1).sdiv 4 = BitVec.ofNat 32 ((k.1 + 1) / 4) := by
    decide
  exact this ⟨k, h⟩

theorem daysBeforeYear_eq {k : Nat} (h : k ≤ 130) :
    daysBeforeYear (1970 + k) = 365 * k + (k + 1) / 4 := by
  induction k with
  | zero => rfl
  | succ k ih =>
    rw [show 1970 + (k + 1) = 1970 + k + 1 by omega, daysBeforeYear_succ (by omega),
      ih (by omega), daysInYear]
    -- from 1970 to 2099 every fourth year is a leap year
    have hleap : IsLeap (1970 + k) ↔ (k + 2) % 4 = 0 := by
      rw [IsLeap]
      omega
    simp only [hleap]
    split_ifs <;> omega

/-- `(year + 2) % 4` tells the leap years. -/
theorem srem_four {k : Nat} (h : k < 100) :
    (BitVec.ofNat 32 k + 2).srem 4 ≠ 0 ↔ ¬ IsLeap (1970 + k) := by
  have : ∀ k : Fin 100, (BitVec.ofNat 32 k.1 + 2).srem 4 ≠ 0 ↔ ¬ IsLeap (1970 + k.1) := by decide
  exact this ⟨k, h⟩

/-- The days before month `m` of a leap year. -/
def leapDays (m : Nat) : Nat := daysBeforeMonth 2000 m

theorem month_get {m : Nat} (h₁ : 1 ≤ m) (h₂ : m ≤ 12) :
    month[(BitVec.ofNat 32 m - 1).toNat]? = some (BitVec.ofNat 32 (leapDays m * 86400)) := by
  interval_cases m <;> decide

theorem leapDays_eq (y : Nat) {m : Nat} (h₁ : 1 ≤ m) (h₂ : m ≤ 12) :
    leapDays m = daysBeforeMonth y m + if 2 < m ∧ ¬ IsLeap y then 1 else 0 := by
  have h2000 : IsLeap 2000 := by decide
  by_cases h : IsLeap y <;> interval_cases m <;>
    simp [leapDays, daysBeforeMonth, daysInMonth, Finset.sum_range_succ, h, h2000]

theorem slt_mon {m : Nat} (h : m ≤ 12) (h₁ : 1 ≤ m) :
    (1 : Word).slt (BitVec.ofNat 32 m - 1) = true ↔ 2 < m := by
  interval_cases m <;> decide

/-- `kernel_mktime` computes the seconds modulo `2^32`. -/
theorem kernelMktime_eq (d : DateTime) (h : d.year ≤ 2069) :
    kernelMktime
      { sec := BitVec.ofNat 32 d.second, min := BitVec.ofNat 32 d.minute,
        hour := BitVec.ofNat 32 d.hour, mday := BitVec.ofNat 32 d.day,
        mon := BitVec.ofNat 32 d.month - 1, year := BitVec.ofNat 32 (d.year % 100) } =
      some (BitVec.ofNat 32 d.seconds) := by
  obtain ⟨k, hk⟩ : ∃ k, d.year = 1970 + k := ⟨d.year - 1970, by have := d.year_ge; omega⟩
  have hk' : k < 100 := by omega
  have hmonth := leapDays_eq d.year d.month_ge d.month_le
  have hday : BitVec.ofNat 32 d.day - 1 = BitVec.ofNat 32 (d.day - 1) := by
    have h₁ : BitVec.ofNat 32 (d.day - 1) + BitVec.ofNat 32 1 = BitVec.ofNat 32 d.day := by
      rw [← BitVec.ofNat_add, Nat.sub_add_cancel d.day_ge]
    rw [← h₁]
    exact add_sub_cancel_right _ _
  have hYEAR : YEAR = BitVec.ofNat 32 (365 * 86400) := by decide
  have hDAY : DAY = BitVec.ofNat 32 86400 := by decide
  have hHOUR : HOUR = BitVec.ofNat 32 3600 := by decide
  have hMINUTE : MINUTE = BitVec.ofNat 32 60 := by decide
  simp only [kernelMktime, hk, tmYear_sub hk', sdiv_four hk', month_get d.month_ge d.month_le,
    slt_mon d.month_le d.month_ge, srem_four hk', hday, Option.pure_def, Option.bind_eq_bind,
    Option.bind_some, Option.some.injEq]
  -- in a common year the table has a day too much from March on
  have hadj : (if 2 < d.month ∧ ¬ IsLeap (1970 + k) then
        YEAR * BitVec.ofNat 32 k + DAY * BitVec.ofNat 32 ((k + 1) / 4) +
          BitVec.ofNat 32 (leapDays d.month * 86400) - DAY
      else YEAR * BitVec.ofNat 32 k + DAY * BitVec.ofNat 32 ((k + 1) / 4) +
          BitVec.ofNat 32 (leapDays d.month * 86400)) =
      BitVec.ofNat 32 ((daysBeforeYear d.year + daysBeforeMonth d.year d.month) * 86400) := by
    rw [hk, daysBeforeYear_eq (by omega), hYEAR, hDAY]
    rw [hk] at hmonth
    split_ifs with hc
    · rw [if_pos hc] at hmonth
      rw [sub_eq_iff_eq_add]
      simp only [← BitVec.ofNat_add, ← BitVec.ofNat_mul]
      exact congrArg (BitVec.ofNat 32) (by omega)
    · rw [if_neg hc] at hmonth
      simp only [← BitVec.ofNat_add, ← BitVec.ofNat_mul]
      exact congrArg (BitVec.ofNat 32) (by omega)
  rw [hadj, hDAY, hHOUR, hMINUTE]
  simp only [← BitVec.ofNat_add, ← BitVec.ofNat_mul]
  refine congrArg (BitVec.ofNat 32) ?_
  rw [DateTime.seconds, DateTime.days]
  omega

/-- `time_init` stores the seconds modulo `2^32`. -/
theorem timeInit_eq {cmos : Cmos} {d : DateTime} (hc : Presents cmos d) (h : d.year ≤ 2069)
    (fuel : Nat) : timeInit cmos (fuel + 1) = some (BitVec.ofNat 32 d.seconds) := by
  have hsec : d.second < 100 := by have := d.second_lt; omega
  have hmin : d.minute < 100 := by have := d.minute_lt; omega
  have hhour : d.hour < 100 := by have := d.hour_lt; omega
  have hday : d.day < 100 := by
    have := d.day_le
    rw [daysInMonth] at this
    split_ifs at this <;> omega
  have hmonth : d.month < 100 := by have := d.month_le; omega
  rw [timeInit, readTime_presents hc, ← kernelMktime_eq d h]
  simp only [Option.bind_eq_bind, Option.bind_some, readFields, cmosRead, (hc _).1, (hc _).2.1,
    (hc _).2.2.1, (hc _).2.2.2.1, (hc _).2.2.2.2.1, (hc _).2.2.2.2.2, bcdToBin_bcd hsec,
    bcdToBin_bcd hmin, bcdToBin_bcd hhour, bcdToBin_bcd hday, bcdToBin_bcd hmonth,
    bcdToBin_bcd (show d.year % 100 < 100 by omega)]

/-! ## The range of `long` -/

/-- The first instant that has no number of seconds in a `long`. -/
def overflow : DateTime where
  year := 2038
  month := 1
  day := 19
  hour := 3
  minute := 14
  second := 8
  year_ge := by decide
  month_ge := by decide
  month_le := by decide
  day_ge := by decide
  day_le := by decide
  hour_lt := by decide
  minute_lt := by decide
  second_lt := by decide

theorem overflow_seconds : overflow.seconds = 2 ^ 31 := by
  have h : daysBeforeYear 2038 = _ := daysBeforeYear_eq (k := 68) (by omega)
  simp [DateTime.seconds, DateTime.days, overflow, h, daysBeforeMonth]

theorem toInt_ofNat_eq_iff {n : Nat} : (BitVec.ofNat 32 n).toInt = n ↔ n < 2 ^ 31 := by
  constructor
  · intro h
    have := BitVec.toInt_lt (x := BitVec.ofNat 32 n)
    omega
  · intro h
    have hn : (BitVec.ofNat 32 n).toNat = n := by
      rw [BitVec.toNat_ofNat, Nat.mod_eq_of_lt (by omega)]
    rw [BitVec.toInt_eq_toNat_of_lt (by omega), hn]

/-- The start-up time is the Unix time if and only if the clock shows an instant before
2038-01-19 03:14:08. -/
theorem startupTime_exact (d : DateTime) (hd : d.year ≤ 2069) (cmos : Cmos)
    (hc : Presents cmos d) (fuel : Nat) :
    ∃ t, timeInit cmos (fuel + 1) = some t ∧
      (t.toInt = d.seconds ↔ d.Before overflow) := by
  refine ⟨_, timeInit_eq hc hd fuel, ?_⟩
  rw [toInt_ofNat_eq_iff, ← DateTime.seconds_lt_iff, overflow_seconds]

/-- A clock that stands at `d`. -/
def standing (d : DateTime) : Cmos := fun _ addr =>
  if addr = 0 then bcd d.second else if addr = 2 then bcd d.minute
  else if addr = 4 then bcd d.hour else if addr = 7 then bcd d.day
  else if addr = 8 then bcd d.month else bcd (d.year % 100)

theorem standing_presents (d : DateTime) : Presents (standing d) d := by
  intro n
  simp [standing]

/-- The last second of the leap day of 2000. -/
def leapDay : DateTime where
  year := 2000
  month := 2
  day := 29
  hour := 23
  minute := 59
  second := 59
  year_ge := by decide
  month_ge := by decide
  month_le := by decide
  day_ge := by decide
  day_le := by decide
  hour_lt := by decide
  minute_lt := by decide
  second_lt := by decide

theorem startupTime_leapDay :
    ∃ t, timeInit (standing leapDay) 1 = some t ∧ t.toInt = leapDay.seconds := by
  obtain ⟨t, ht, hiff⟩ := startupTime_exact leapDay (by decide) (standing leapDay)
    (standing_presents leapDay) 0
  exact ⟨t, ht, hiff.mpr (.inl (by decide))⟩

/-- At 2038-01-19 03:14:08 the start-up time is negative. -/
theorem startupTime_negative :
    ∃ t, timeInit (standing overflow) 1 = some t ∧ t.toInt = -2147483648 ∧
      t.toInt ≠ overflow.seconds := by
  refine ⟨_, timeInit_eq (standing_presents overflow) (by decide) 0, ?_⟩
  rw [overflow_seconds]
  decide

end Mks.Time
