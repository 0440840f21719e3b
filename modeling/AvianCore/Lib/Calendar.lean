import Mathlib

/-!
The proleptic Gregorian calendar: dates that exist, the day after a date, and the number of a day, counted from
1970-01-01. Every number is the number of a date.
-/

namespace AvianCore.Lib

def IsLeap (year : Int) : Prop := year % 4 = 0 ∧ (year % 100 ≠ 0 ∨ year % 400 = 0)

instance (year : Int) : Decidable (IsLeap year) := inferInstanceAs (Decidable (_ ∧ _))

def monthLength (year month : Int) : Int :=
  if month = 2 then if IsLeap year then 29 else 28
  else if month = 4 ∨ month = 6 ∨ month = 9 ∨ month = 11 then 30
  else 31

theorem monthLength_pos (year month : Int) : 28 ≤ monthLength year month := by
  unfold monthLength
  split
  · split <;> omega
  · split <;> omega

theorem monthLength_le (year month : Int) : monthLength year month ≤ 31 := by
  unfold monthLength
  split
  · split <;> omega
  · split <;> omega

/-- A date that exists. Year 0 comes before year 1. -/
@[ext]
structure Date where
  year : Int
  month : Int
  day : Int
  month_pos : 1 ≤ month
  month_le : month ≤ 12
  day_pos : 1 ≤ day
  day_le : day ≤ monthLength year month
deriving DecidableEq

namespace Date

def epoch : Date := ⟨1970, 1, 1, by decide, by decide, by decide, by decide⟩

def next (date : Date) : Date :=
  if more : date.day < monthLength date.year date.month then
    { date with
      day := date.day + 1
      day_pos := by have := date.day_pos; omega
      day_le := more }
  else if same : date.month < 12 then
    { date with
      month := date.month + 1
      day := 1
      month_pos := by have := date.month_pos; omega
      month_le := same
      day_pos := le_refl _
      day_le := by have := monthLength_pos date.year (date.month + 1); omega }
  else
    { year := date.year + 1
      month := 1
      day := 1
      month_pos := le_refl _
      month_le := by decide
      day_pos := le_refl _
      day_le := by have := monthLength_pos (date.year + 1) 1; omega }

/-- The date so many times 400 years later. -/
def shift (date : Date) (cycles : Int) : Date where
  year := date.year + 400 * cycles
  month := date.month
  day := date.day
  month_pos := date.month_pos
  month_le := date.month_le
  day_pos := date.day_pos
  day_le := by
    have leap : IsLeap (date.year + 400 * cycles) ↔ IsLeap date.year := by
      unfold IsLeap
      omega
    have same : monthLength (date.year + 400 * cycles) date.month = monthLength date.year date.month := by
      unfold monthLength
      simp only [leap]
    rw [same]
    exact date.day_le

end Date

/-- The days from the first of January of year 0 to that of a year. -/
def daysBeforeYear (year : Int) : Int := 365 * year + (year - 1) / 4 - (year - 1) / 100 + (year - 1) / 400 + 1

def daysBeforeMonth (year month : Int) : Int :=
  ((List.range (month.toNat - 1)).map fun k : Nat => monthLength year (k + 1)).sum

variable (year : Int)

theorem daysBeforeYear_succ : daysBeforeYear (year + 1) = daysBeforeYear year + 365 + if IsLeap year then 1 else 0 := by
  unfold daysBeforeYear
  by_cases leap : IsLeap year
  · rw [if_pos leap]
    unfold IsLeap at leap
    omega
  · rw [if_neg leap]
    unfold IsLeap at leap
    omega

theorem daysBeforeMonth_succ {month : Int} (first : 1 ≤ month) :
    daysBeforeMonth year (month + 1) = daysBeforeMonth year month + monthLength year month := by
  unfold daysBeforeMonth
  have succ : (month + 1).toNat - 1 = month.toNat - 1 + 1 := by omega
  have last : (((month.toNat - 1 : Nat) : Int) + 1) = month := by omega
  rw [succ, List.range_succ, List.map_append, List.sum_append, List.map_singleton, List.sum_singleton, last]

theorem daysBeforeMonth_one : daysBeforeMonth year 1 = 0 := rfl

theorem daysBeforeMonth_eq {month : Int} (first : 1 ≤ month) (last : month ≤ 12) : daysBeforeMonth year month =
    if month ≤ 2 then 31 * (month - 1)
    else (153 * (month - 3) + 2) / 5 + 59 + if IsLeap year then 1 else 0 := by
  have succ := @daysBeforeMonth_succ year
  have one := daysBeforeMonth_one year
  have two := @succ 1 (by decide)
  have three := @succ 2 (by decide)
  have four := @succ 3 (by decide)
  have five := @succ 4 (by decide)
  have six := @succ 5 (by decide)
  have seven := @succ 6 (by decide)
  have eight := @succ 7 (by decide)
  have nine := @succ 8 (by decide)
  have ten := @succ 9 (by decide)
  have eleven := @succ 10 (by decide)
  have twelve := @succ 11 (by decide)
  norm_num [monthLength] at two three four five six seven eight nine ten eleven twelve
  interval_cases month <;> norm_num <;> split at three <;> simp only [*] <;> norm_num

/-- The number of a day, counted from 1970-01-01. -/
def Date.number (date : Date) : Int :=
  daysBeforeYear date.year - daysBeforeYear 1970 + daysBeforeMonth date.year date.month + date.day - 1

theorem Date.number_epoch : Date.epoch.number = 0 := by decide

theorem Date.number_shift (date : Date) (cycles : Int) : (date.shift cycles).number = date.number + 146097 * cycles := by
  have leap : IsLeap (date.year + 400 * cycles) ↔ IsLeap date.year := by
    unfold IsLeap
    omega
  unfold number shift
  dsimp only
  rw [daysBeforeMonth_eq _ date.month_pos date.month_le, daysBeforeMonth_eq _ date.month_pos date.month_le]
  simp only [leap]
  unfold daysBeforeYear
  omega

theorem Date.number_next (date : Date) : date.next.number = date.number + 1 := by
  have first := date.month_pos
  have last := date.month_le
  have low := date.day_pos
  have high := date.day_le
  unfold next
  split
  next more =>
    unfold number
    dsimp only
    omega
  next full =>
    split
    next same =>
      unfold number
      dsimp only
      rw [daysBeforeMonth_succ _ first]
      omega
    next december =>
      have twelve : date.month = 12 := by omega
      have length : monthLength date.year 12 = 31 := rfl
      rw [twelve] at full high
      unfold number
      dsimp only
      rw [daysBeforeYear_succ, daysBeforeMonth_one, twelve, @daysBeforeMonth_eq date.year 12 (by decide) (by decide)]
      norm_num
      omega

theorem Date.exists_number (n : Int) : ∃ date : Date, date.number = n := by
  have forward : ∀ k : Nat, ∃ date : Date, date.number = k := by
    intro k
    induction k with
    | zero => exact ⟨epoch, number_epoch⟩
    | succ k ih =>
      obtain ⟨date, same⟩ := ih
      exact ⟨date.next, by rw [number_next, same]; rfl⟩
  obtain ⟨date, same⟩ := forward (n % 146097).toNat
  refine ⟨date.shift (n / 146097), ?_⟩
  rw [number_shift, same]
  omega

inductive Weekday
  | sunday | monday | tuesday | wednesday | thursday | friday | saturday
deriving DecidableEq, Repr

def weekdays : List Weekday := [.sunday, .monday, .tuesday, .wednesday, .thursday, .friday, .saturday]

/-- 1970-01-01 was a Thursday. -/
def weekday (n : Int) : Weekday := weekdays.getD ((n + 4) % 7).toNat .sunday

end AvianCore.Lib
