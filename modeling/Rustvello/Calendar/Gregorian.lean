import Mathlib.Data.Int.ConditionallyCompleteOrder
import Mathlib.Data.Prod.Lex
import Mathlib.Order.SuccPred.Basic
import Mathlib.Algebra.Order.Ring.Int
import Mathlib.Order.Monotone.Basic
import Mathlib.Tactic.IntervalCases

/-!
# The proleptic Gregorian calendar

Days are numbered from 1970-01-01.  The years of the computation begin in March, so that the
leap day is the last one of its year, and repeat in eras of 400.

* `Date.next` — the calendar: the day after a date;
* `dateOf`, `dayNumber` — the date of a number, and the number of a date;
* `dateOf_zero`, `dateOf_succ` — which characterise `dateOf`;
* `dayNumber_dateOf` — no two numbers have the same date;
* `dateOf_strictMono` — dates are ordered as their numbers.
-/

namespace Rustvello.Calendar

structure Date where
  year : Int
  month : Nat
  day : Nat
deriving DecidableEq

def isLeap (year : Int) : Bool :=
  year % 4 = 0 && (year % 100 ≠ 0 || year % 400 = 0)

def daysInMonth (year : Int) (month : Nat) : Nat :=
  if month = 2 then if isLeap year then 29 else 28
  else if month = 4 ∨ month = 6 ∨ month = 9 ∨ month = 11 then 30
  else 31

variable (year : Int) (number : Int)

theorem daysInMonth_le (month : Nat) : daysInMonth year month ≤ 31 := by
  unfold daysInMonth
  split
  · split <;> decide
  · split <;> decide

namespace Date

/-- A date of the calendar. -/
structure Valid (d : Date) : Prop where
  month_pos : 1 ≤ d.month
  month_le : d.month ≤ 12
  day_pos : 1 ≤ d.day
  day_le : d.day ≤ daysInMonth d.year d.month

/-- The day after. -/
def next (d : Date) : Date :=
  if d.day < daysInMonth d.year d.month then { d with day := d.day + 1 }
  else if d.month < 12 then ⟨d.year, d.month + 1, 1⟩
  else ⟨d.year + 1, 1, 1⟩

/-- Dates are compared by year, month and day. -/
def key (d : Date) : Int ×ₗ Nat ×ₗ Nat :=
  toLex (d.year, toLex (d.month, d.day))

theorem key_lt_iff {d e : Date} : d.key < e.key ↔ d.year < e.year ∨
    d.year = e.year ∧ (d.month < e.month ∨ d.month = e.month ∧ d.day < e.day) := by
  unfold key
  rw [Prod.Lex.toLex_lt_toLex, Prod.Lex.toLex_lt_toLex]

theorem key_lt_next (d : Date) : d.key < d.next.key := by
  rw [key_lt_iff]
  unfold next
  split
  · exact .inr ⟨rfl, .inr ⟨rfl, Nat.lt_succ_self _⟩⟩
  · split
    · exact .inr ⟨rfl, .inl (Nat.lt_succ_self _)⟩
    · exact .inl (Int.lt_succ _)

end Date

/-! ## Years that begin in March -/

/-- Days before the year, from the one of the year 0. -/
def yearStart (year : Int) : Int :=
  365 * year + year / 4 - year / 100 + year / 400

/-- Days of the year that begins in March: the leap day belongs to the following calendar year. -/
def yearLength (year : Int) : Int :=
  if isLeap (year + 1) then 366 else 365

theorem yearStart_succ : yearStart (year + 1) = yearStart year + yearLength year := by
  unfold yearStart yearLength isLeap
  simp only [Bool.and_eq_true, Bool.or_eq_true, decide_eq_true_eq]
  split
  · omega
  · omega

theorem yearStart_strictMono : StrictMono yearStart := by
  refine strictMono_int_of_lt_succ fun year => ?_
  rw [yearStart_succ]
  unfold yearLength
  split <;> omega

/-- The year of a day, and the day in it. -/
def yearAndDay (days : Int) : Int × Nat :=
  let dayOfEra := days % 146097
  let century := min (dayOfEra / 36524) 3
  let dayOfCentury := dayOfEra - 36524 * century
  let cycle := dayOfCentury / 1461
  let dayOfCycle := dayOfCentury % 1461
  let yearOfCycle := min (dayOfCycle / 365) 3
  (400 * (days / 146097) + 100 * century + 4 * cycle + yearOfCycle,
    (dayOfCycle - 365 * yearOfCycle).toNat)

theorem yearAndDay_spec (days : Int) :
    yearStart (yearAndDay days).1 + (yearAndDay days).2 = days ∧
      ((yearAndDay days).2 : Int) < yearLength (yearAndDay days).1 := by
  have hbounds : ∀ era dayOfEra century dayOfCentury cycle dayOfCycle yearOfCycle year : Int,
      dayOfEra = days % 146097 → era = days / 146097 →
      century = min (dayOfEra / 36524) 3 → dayOfCentury = dayOfEra - 36524 * century →
      cycle = dayOfCentury / 1461 → dayOfCycle = dayOfCentury % 1461 →
      yearOfCycle = min (dayOfCycle / 365) 3 →
      year = 400 * era + 100 * century + 4 * cycle + yearOfCycle →
      yearStart year + (dayOfCycle - 365 * yearOfCycle).toNat = days ∧
        ((dayOfCycle - 365 * yearOfCycle).toNat : Int) < yearLength year := by
    intro era dayOfEra century dayOfCentury cycle dayOfCycle yearOfCycle year
      hdayOfEra hera hcentury hdayOfCentury hcycle hdayOfCycle hyearOfCycle hyear
    have hcentury : 0 ≤ century ∧ century ≤ 3 ∧ 0 ≤ dayOfCentury ∧ dayOfCentury ≤ 36524 ∧
        (century < 3 → dayOfCentury < 36524) := by
      omega
    have hcycle : 0 ≤ cycle ∧ cycle ≤ 24 ∧ dayOfCentury = 1461 * cycle + dayOfCycle ∧
        0 ≤ dayOfCycle ∧ dayOfCycle < 1461 := by
      omega
    have hyearOfCycle : 0 ≤ yearOfCycle ∧ yearOfCycle ≤ 3 ∧ 365 * yearOfCycle ≤ dayOfCycle ∧
        dayOfCycle ≤ 365 * yearOfCycle + 365 ∧
        (yearOfCycle < 3 → dayOfCycle < 365 * yearOfCycle + 365) := by
      omega
    have hquarters : year / 4 = 100 * era + 25 * century + cycle := by omega
    have hcenturies : year / 100 = 4 * era + century := by omega
    have heras : year / 400 = era := by omega
    constructor
    · unfold yearStart
      omega
    · unfold yearLength isLeap
      simp only [Bool.and_eq_true, Bool.or_eq_true, decide_eq_true_eq]
      -- only the last year of a cycle has a day 365, and no century but the last such a cycle
      split <;> omega
  exact hbounds _ _ _ _ _ _ _ _ rfl rfl rfl rfl rfl rfl rfl rfl

/-- A number of days is taken apart in one way only. -/
theorem yearAndDay_eq {year : Int} {day : Nat} (hday : (day : Int) < yearLength year) :
    yearAndDay (yearStart year + day) = (year, day) := by
  obtain ⟨hsum, hlt⟩ := yearAndDay_spec (yearStart year + day)
  generalize yearAndDay (yearStart year + day) = found at hsum hlt
  obtain ⟨foundYear, foundDay⟩ := found
  have hsucc := yearStart_succ year
  have hfoundSucc := yearStart_succ foundYear
  have hyear : foundYear = year := by
    rcases lt_trichotomy foundYear year with hbefore | heq | hafter
    · have hle := yearStart_strictMono.monotone (Int.add_one_le_of_lt hbefore)
      dsimp only at hsum hlt
      omega
    · exact heq
    · have hle := yearStart_strictMono.monotone (Int.add_one_le_of_lt hafter)
      dsimp only at hsum hlt
      omega
  subst hyear
  dsimp only at hsum
  rw [Prod.mk.injEq]
  exact ⟨rfl, by omega⟩

/-! ## Dates -/

/-- The months of a year that begins in March have 31 and 30 days in turn, in groups of five. -/
def dateIn (year : Int) (day : Nat) : Date :=
  let month := (5 * day + 2) / 153
  { year := if month < 10 then year else year + 1
    month := if month < 10 then month + 3 else month - 9
    day := day - (153 * month + 2) / 5 + 1 }

/-- Day 0 is 1970-01-01; the first day of March of the year 0 is so many days before. -/
def dateOf (number : Int) : Date :=
  dateIn (yearAndDay (number + 719468)).1 (yearAndDay (number + 719468)).2

def dayNumber (d : Date) : Int :=
  if d.month ≤ 2 then
    yearStart (d.year - 1) + ((153 * (d.month + 9) + 2) / 5 + d.day : Nat) - 719469
  else yearStart d.year + ((153 * (d.month - 3) + 2) / 5 + d.day : Nat) - 719469

/-- The month of a day, and where it begins and ends. -/
theorem month_spec (day : Nat) (hday : day < 366) :
    ∃ month < 12, (5 * day + 2) / 153 = month ∧ (153 * month + 2) / 5 ≤ day ∧
      day < (153 * (month + 1) + 2) / 5 :=
  ⟨(5 * day + 2) / 153, by omega, rfl, by omega, by omega⟩

theorem yearLength_le : 365 ≤ yearLength year ∧ yearLength year ≤ 366 := by
  unfold yearLength
  split <;> decide

/-- The last month is cut off by the end of the year. -/
theorem daysInMonth_eq {month : Nat} (hmonth : month < 12) :
    daysInMonth (if month < 10 then year else year + 1)
        (if month < 10 then month + 3 else month - 9) =
      min ((153 * (month + 1) + 2) / 5) (yearLength year).toNat - (153 * month + 2) / 5 := by
  unfold daysInMonth yearLength
  cases hleap : isLeap (year + 1) with
  | true => interval_cases month <;> simp [hleap]
  | false => interval_cases month <;> simp [hleap]

theorem dateIn_valid {year : Int} {day : Nat} (hday : (day : Int) < yearLength year) :
    (dateIn year day).Valid := by
  have hlength := yearLength_le year
  obtain ⟨month, hmonth, hdiv, hstart, hstop⟩ := month_spec day (by omega)
  have hlast := daysInMonth_eq year hmonth
  unfold dateIn
  rw [hdiv]
  constructor
  · dsimp only
    split <;> omega
  · dsimp only
    split <;> omega
  · exact Nat.le_add_left 1 _
  · dsimp only
    rw [hlast]
    omega

theorem dateIn_next {year : Int} {day : Nat} (hday : (day : Int) < yearLength year) :
    (dateIn year day).next =
      if (day + 1 : Int) < yearLength year then dateIn year (day + 1) else dateIn (year + 1) 0 := by
  have hlength := yearLength_le year
  obtain ⟨month, hmonth, hdiv, hstart, hstop⟩ := month_spec day (by omega)
  have hlast := daysInMonth_eq year hmonth
  have hnext : dateIn year day = ⟨if month < 10 then year else year + 1,
      if month < 10 then month + 3 else month - 9, day - (153 * month + 2) / 5 + 1⟩ := by
    unfold dateIn
    rw [hdiv]
  rw [hnext]
  unfold Date.next
  dsimp only
  rw [hlast]
  by_cases hsame : day + 1 < (153 * (month + 1) + 2) / 5 ∧ (day + 1 : Int) < yearLength year
  · -- within the month
    have hdiv' : (5 * (day + 1) + 2) / 153 = month := by omega
    have hroom : day - (153 * month + 2) / 5 + 1 <
        min ((153 * (month + 1) + 2) / 5) (yearLength year).toNat - (153 * month + 2) / 5 := by
      omega
    rw [if_pos hroom, if_pos hsame.2]
    unfold dateIn
    rw [hdiv', Date.mk.injEq]
    exact ⟨rfl, rfl, by omega⟩
  · have hfull : ¬ day - (153 * month + 2) / 5 + 1 <
        min ((153 * (month + 1) + 2) / 5) (yearLength year).toNat - (153 * month + 2) / 5 := by
      omega
    rw [if_neg hfull]
    by_cases hyear : (day + 1 : Int) < yearLength year
    · have hdiv' : (5 * (day + 1) + 2) / 153 = month + 1 := by omega
      have hmonth' : month < 11 := by omega
      have hday' : day + 1 - (153 * (month + 1) + 2) / 5 + 1 = 1 := by omega
      rw [if_pos hyear]
      unfold dateIn
      dsimp only
      rw [hdiv', hday']
      interval_cases month <;> simp
    · obtain rfl : month = 11 := by omega
      rw [if_neg hyear]
      rfl

/-! ## The calendar -/

theorem dateOf_valid : (dateOf number).Valid :=
  dateIn_valid (yearAndDay_spec _).2

theorem dateOf_zero : dateOf 0 = ⟨1970, 1, 1⟩ := by decide

/-- Consecutive numbers are consecutive days. -/
theorem dateOf_succ : dateOf (number + 1) = (dateOf number).next := by
  obtain ⟨hsum, hlt⟩ := yearAndDay_spec (number + 719468)
  unfold dateOf
  generalize yearAndDay (number + 719468) = found at hsum hlt
  obtain ⟨year, day⟩ := found
  dsimp only at hsum hlt
  rw [dateIn_next hlt]
  split
  · rename_i hsame
    have hnumber : number + 1 + 719468 = yearStart year + (day + 1 : Nat) := by omega
    rw [hnumber, yearAndDay_eq (by omega)]
  · rename_i hlast
    have hsucc := yearStart_succ year
    have hlength := yearLength_le (year + 1)
    have hnumber : number + 1 + 719468 = yearStart (year + 1) + (0 : Nat) := by omega
    rw [hnumber, yearAndDay_eq (by omega)]

/-- Later days have later dates. -/
theorem dateOf_strictMono : StrictMono fun number => (dateOf number).key := by
  refine strictMono_int_of_lt_succ fun number => ?_
  rw [dateOf_succ]
  exact Date.key_lt_next _

/-- The number is found again in the date. -/
theorem dayNumber_dateOf : dayNumber (dateOf number) = number := by
  obtain ⟨hsum, hlt⟩ := yearAndDay_spec (number + 719468)
  unfold dateOf
  generalize yearAndDay (number + 719468) = found at hsum hlt
  obtain ⟨year, day⟩ := found
  dsimp only at hsum hlt ⊢
  have hlength := yearLength_le year
  obtain ⟨month, hmonth, hdiv, hstart, hstop⟩ := month_spec day (by omega)
  by_cases hearly : month < 10
  · have hdate : dateIn year day = ⟨year, month + 3, day - (153 * month + 2) / 5 + 1⟩ := by
      unfold dateIn
      simp only [hdiv, if_pos hearly]
    rw [hdate]
    unfold dayNumber
    rw [if_neg (by simp), Nat.add_sub_cancel]
    dsimp only
    omega
  · have hdate : dateIn year day = ⟨year + 1, month - 9, day - (153 * month + 2) / 5 + 1⟩ := by
      unfold dateIn
      simp only [hdiv, if_neg hearly]
    rw [hdate]
    unfold dayNumber
    rw [if_pos (by dsimp only; omega), Nat.sub_add_cancel (by omega), add_sub_cancel_right]
    dsimp only
    omega

end Rustvello.Calendar
