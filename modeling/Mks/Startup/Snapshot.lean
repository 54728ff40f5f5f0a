import Mks.Startup.Time

set_option autoImplicit false

/-! # Reading a clock that goes on

`time_init` reads the six registers of the clock one after the other, while the clock goes on, and
again if the second has changed meanwhile. If a pass takes less than a minute, what it stores is the
instant of the first pass in which the clock has not changed (`startup_snapshot`), never a mixture of
two.
-/

namespace Mks.Time

open Calendar

/-- The registers hold what the clock shows at each read. -/
def Shows (cmos : Cmos) (clock : Nat → DateTime) : Prop :=
  ∀ n, cmos n 0 = bcd (clock n).second ∧ cmos n 2 = bcd (clock n).minute ∧
    cmos n 4 = bcd (clock n).hour ∧ cmos n 7 = bcd (clock n).day ∧
    cmos n 8 = bcd (clock n).month ∧ cmos n 9 = bcd ((clock n).year % 100)

/-- A clock that does not go back, and of which no pass takes a minute. -/
structure Runs (clock : Nat → DateTime) : Prop where
  mono : Monotone fun n => (clock n).seconds
  fast : ∀ n, (clock (n + 6)).seconds < (clock n).seconds + 60

variable {cmos : Cmos} {clock : Nat → DateTime}

/-- Different seconds have different registers. -/
theorem bcd_inj {a b : Nat} (ha : a < 100) (hb : b < 100)
    (h : (bcd a).setWidth 32 = (bcd b).setWidth 32) : a = b := by
  have h := congrArg bcdToBin h
  rw [bcdToBin_bcd ha, bcdToBin_bcd hb] at h
  have h := congrArg BitVec.toNat h
  simp only [BitVec.toNat_ofNat] at h
  omega

/-- The second is the same after a pass exactly if the clock has not changed. -/
theorem same_second_iff (hc : Shows cmos clock) (hr : Runs clock) (n : Nat) :
    (readFields cmos n).sec = cmosRead cmos (n + 6) 0 ↔
      (clock (n + 6)).seconds = (clock n).seconds := by
  show (cmos n 0).setWidth 32 = (cmos (n + 6) 0).setWidth 32 ↔ _
  rw [(hc n).1, (hc (n + 6)).1]
  constructor
  · intro h
    have := (clock n).second_lt
    have := (clock (n + 6)).second_lt
    have hsec := bcd_inj (by omega) (by omega) h
    rw [← DateTime.seconds_mod, ← DateTime.seconds_mod] at hsec
    -- less than a minute apart and in the same second of a minute
    have hmono : (clock n).seconds ≤ (clock (n + 6)).seconds := hr.mono (by omega)
    have hfast := hr.fast n
    omega
  · intro h
    rw [DateTime.eq_of_seconds h]

/-- The fields of a pass in which the clock has not changed. -/
theorem readFields_same (hc : Shows cmos clock) (hr : Runs clock) {n : Nat}
    (h : (clock (n + 6)).seconds = (clock n).seconds) :
    readFields cmos n = readFields (standing (clock n)) 0 := by
  have hsame : ∀ i ≤ 6, clock (n + i) = clock n := by
    intro i hi
    have h₁ : (clock n).seconds ≤ (clock (n + i)).seconds := hr.mono (by omega)
    have h₂ : (clock (n + i)).seconds ≤ (clock (n + 6)).seconds := hr.mono (by omega)
    exact DateTime.eq_of_seconds (by omega)
  have hs := standing_presents (clock n)
  simp only [readFields, cmosRead, (hc _).1, (hc _).2.1, (hc _).2.2.1, (hc _).2.2.2.1,
    (hc _).2.2.2.2.1, (hc _).2.2.2.2.2, (hs _).1, (hs _).2.1, (hs _).2.2.1, (hs _).2.2.2.1,
    (hs _).2.2.2.2.1, (hs _).2.2.2.2.2, hsame 1 (by decide), hsame 2 (by decide),
    hsame 3 (by decide), hsame 4 (by decide), hsame 5 (by decide)]

/-- The first of the passes from read `n` on in which the clock does not change. -/
def standsAt (clock : Nat → DateTime) (n fuel : Nat) : Option Nat :=
  (List.range fuel).find? fun j =>
    (clock (n + 7 * j + 6)).seconds = (clock (n + 7 * j)).seconds

theorem standsAt_succ (clock : Nat → DateTime) (n fuel : Nat) :
    standsAt clock n (fuel + 1) = if (clock (n + 6)).seconds = (clock n).seconds then some 0
      else (standsAt clock (n + 7) fuel).map (· + 1) := by
  rw [standsAt, List.range_succ_eq_map, List.find?_cons, mul_zero, add_zero]
  split_ifs with h
  · rw [decide_eq_true h]
  · rw [decide_eq_false h, List.find?_map, standsAt]
    refine congrArg (fun p => Option.map Nat.succ (List.find? p (List.range fuel))) ?_
    funext j
    rw [Function.comp_apply, show n + 7 * j.succ = n + 7 + 7 * j by rw [Nat.succ_eq_add_one]; ring]

/-- The loop ends with that pass. -/
theorem readTime_eq (hc : Shows cmos clock) (hr : Runs clock) (n fuel : Nat) :
    readTime cmos n fuel =
      (standsAt clock n fuel).map fun j => readFields (standing (clock (n + 7 * j))) 0 := by
  induction fuel generalizing n with
  | zero => rfl
  | succ fuel ih =>
      rw [readTime, standsAt_succ]
      by_cases h : (clock (n + 6)).seconds = (clock n).seconds
      · rw [if_pos h, if_neg (not_not.mpr ((same_second_iff hc hr n).mpr h)), readFields_same hc hr h]
        rfl
      · rw [if_neg h, if_pos (mt (same_second_iff hc hr n).mp h), ih, Option.map_map]
        congr 1
        funext j
        simp only [Function.comp_apply]
        rw [show n + 7 * (j + 1) = n + 7 + 7 * j by ring]

/-- **The start-up time is that of one instant.** -/
theorem startup_snapshot (hc : Shows cmos clock) (hr : Runs clock)
    (hyear : ∀ n, (clock n).year ≤ 2069) (fuel : Nat) :
    timeInit cmos fuel =
      (standsAt clock 0 fuel).map fun j => BitVec.ofNat 32 (clock (7 * j)).seconds := by
  have hone : ∀ d : DateTime, d.year ≤ 2069 → kernelMktime
      { sec := bcdToBin (readFields (standing d) 0).sec, min := bcdToBin (readFields (standing d) 0).min,
        hour := bcdToBin (readFields (standing d) 0).hour,
        mday := bcdToBin (readFields (standing d) 0).mday,
        mon := bcdToBin (readFields (standing d) 0).mon - 1,
        year := bcdToBin (readFields (standing d) 0).year } = some (BitVec.ofNat 32 d.seconds) := by
    intro d hd
    have h := timeInit_eq (standing_presents d) hd 0
    rwa [timeInit, readTime_presents (standing_presents d), Option.bind_eq_bind,
      Option.bind_some] at h
  rw [timeInit, readTime_eq hc hr]
  cases hj : standsAt clock 0 fuel with
  | none => rfl
  | some j =>
      simp only [Option.map_some, Option.bind_eq_bind, Option.bind_some]
      rw [hone _ (hyear _), zero_add]

/-- The first second of March 2000. -/
def march : DateTime where
  year := leapDay.year
  month := 3
  day := 1
  hour := 0
  minute := 0
  second := 0
  year_ge := leapDay.year_ge
  month_ge := by decide
  month_le := by decide
  day_ge := Nat.le.refl
  day_le := by decide
  hour_lt := by decide
  minute_lt := by decide
  second_lt := by decide

theorem march_seconds : march.seconds = leapDay.seconds + 1 := by
  have hmonth : daysBeforeMonth 2000 3 = daysBeforeMonth 2000 2 + 29 :=
    daysBeforeMonth_succ 2000 (m := 2) (by decide)
  simp only [DateTime.seconds, DateTime.days, march, leapDay, hmonth]
  generalize daysBeforeYear 2000 = y
  generalize daysBeforeMonth 2000 2 = m
  ring

/-- A clock on which March begins during the first pass. -/
def turning (n : Nat) : DateTime := if n ≤ 3 then leapDay else march

/-- The start-up time is in March. -/
theorem startup_snapshot_march :
    timeInit (fun n addr => standing (turning n) n addr) 2 =
      some (BitVec.ofNat 32 (leapDay.seconds + 1)) := by
  have hseconds : ∀ n,
      (turning n).seconds = if n ≤ 3 then leapDay.seconds else leapDay.seconds + 1 := by
    intro n
    rw [turning]
    split_ifs
    · rfl
    · exact march_seconds
  have hruns : Runs turning := by
    constructor
    · intro a b hab
      simp only [hseconds]
      split_ifs <;> omega
    · intro n
      rw [hseconds, hseconds]
      split_ifs <;> omega
  have hyear : ∀ n, (turning n).year ≤ 2069 := by
    intro n
    rw [turning]
    split_ifs <;> decide
  have hfirst : (turning (0 + 6)).seconds ≠ (turning 0).seconds := by
    rw [hseconds, hseconds, if_neg (by decide), if_pos (by decide)]
    omega
  have hsecond : (turning (0 + 7 + 6)).seconds = (turning (0 + 7)).seconds := rfl
  have hmarch : (turning 7).seconds = leapDay.seconds + 1 := hseconds 7
  rw [startup_snapshot (fun n => standing_presents (turning n) n) hruns hyear 2, standsAt_succ,
    if_neg hfirst, standsAt_succ, if_pos hsecond, ← hmarch]
  rfl

end Mks.Time
