import AvianCore.Lib.Calendar
import AvianCore.Lib.Effects

/-!
Days and dates (`CivilTime.swift`), computed over eras of 400 years that begin in March. The functions of the
program check every result for the 64-bit range; the formulas beside them are over all integers, and agree with
the calendar.
-/

namespace AvianCore.CivilTime
open AvianCore.Lib Int

/-- How a function can end without a value. -/
inductive Refusal
  /-- `nil` -/
  | missing
  /-- Arithmetic overflows. -/
  | trap
deriving DecidableEq, Repr

def int64 (x : Int) : Except Refusal Int := checked .trap x

theorem gives_int64 {M : Prop} {x : Int} (inRange : M → -2 ^ 63 ≤ x ∧ x < 2 ^ 63) :
    Gives (int64 x) (fun y => y = x) fun _ => ¬M := gives_checked inRange

theorem gives_int64_next {M : Prop} {x : Int} (inRange : M → -2 ^ 63 ≤ x ∧ x < 2 ^ 63) {Q : Int → Prop} (next : Q x) :
    Gives (int64 x) Q fun _ => ¬M := (gives_int64 inRange).imp fun _ same => same ▸ next

/-- Days since 1970-01-01. A number that is taken as it is passes the check. -/
def days (year month day : Int) : Except Refusal Int := do
  let y ← int64 (if month ≤ 2 then year - 1 else year)
  let lowered ← int64 (if 0 ≤ y then y else y - 399)
  let era := lowered.tdiv 400
  let eraYears ← int64 (era * 400)
  let yearOfEra ← int64 (y - eraYears)
  let shiftedMonth ← int64 (if 2 < month then month - 3 else month + 9)
  let fifths ← int64 (153 * shiftedMonth)
  let fifths ← int64 (fifths + 2)
  let dayOfYear ← int64 (fifths.tdiv 5 + day)
  let dayOfYear ← int64 (dayOfYear - 1)
  let dayOfEra ← int64 (yearOfEra * 365)
  let dayOfEra ← int64 (dayOfEra + yearOfEra.tdiv 4)
  let dayOfEra ← int64 (dayOfEra - yearOfEra.tdiv 100)
  let dayOfEra ← int64 (dayOfEra + dayOfYear)
  let eraDays ← int64 (era * 146097)
  let total ← int64 (eraDays + dayOfEra)
  int64 (total - 719468)

/-- Year, month and day. -/
structure YMD where
  year : Int
  month : Int
  day : Int
deriving DecidableEq, Repr

/-- The date so many days after 1970-01-01. -/
def date (days : Int) : Except Refusal YMD := do
  let z ← int64 (days + 719468)
  let lowered ← int64 (if 0 ≤ z then z else z - 146096)
  let era := lowered.tdiv 146097
  let eraDays ← int64 (era * 146097)
  let dayOfEra ← int64 (z - eraDays)
  let years ← int64 (dayOfEra - dayOfEra.tdiv 1460)
  let years ← int64 (years + dayOfEra.tdiv 36524)
  let years ← int64 (years - dayOfEra.tdiv 146096)
  let yearOfEra := years.tdiv 365
  let before ← int64 (365 * yearOfEra)
  let before ← int64 (before + yearOfEra.tdiv 4)
  let before ← int64 (before - yearOfEra.tdiv 100)
  let dayOfYear ← int64 (dayOfEra - before)
  let fifths ← int64 (5 * dayOfYear)
  let fifths ← int64 (fifths + 2)
  let shiftedMonth := fifths.tdiv 153
  let past ← int64 (153 * shiftedMonth)
  let past ← int64 (past + 2)
  let day ← int64 (dayOfYear - past.tdiv 5)
  let day ← int64 (day + 1)
  let month ← int64 (if shiftedMonth < 10 then shiftedMonth + 3 else shiftedMonth - 9)
  let eraYears ← int64 (era * 400)
  let year ← int64 (yearOfEra + eraYears)
  let year ← int64 (year + if month ≤ 2 then 1 else 0)
  pure ⟨year, month, day⟩

def daysInMonth (year month : Int) : Int :=
  if month = 2 then if year.tmod 4 = 0 ∧ year.tmod 100 ≠ 0 ∨ year.tmod 400 = 0 then 29 else 28
  else if month = 4 ∨ month = 6 ∨ month = 9 ∨ month = 11 then 30
  else 31

theorem daysInMonth_eq (year month : Int) : daysInMonth year month = monthLength year month := by
  have zero : ∀ n : Int, year.tmod n = 0 ↔ year % n = 0 := by
    intro n
    rw [← dvd_iff_tmod_eq_zero, ← dvd_iff_emod_eq_zero]
  have leap : (year.tmod 4 = 0 ∧ year.tmod 100 ≠ 0 ∨ year.tmod 400 = 0) ↔ IsLeap year := by
    unfold IsLeap
    rw [ne_eq, zero, zero, zero]
    omega
  unfold daysInMonth monthLength
  simp only [leap]

def dayOfEra (yearOfEra dayOfYear : Int) : Int := yearOfEra * 365 + yearOfEra / 4 - yearOfEra / 100 + dayOfYear

def dayOfYear (shiftedMonth day : Int) : Int := (153 * shiftedMonth + 2) / 5 + day - 1

def marchYear (year month : Int) : Int := if month ≤ 2 then year - 1 else year

def shiftMonth (month : Int) : Int := if 2 < month then month - 3 else month + 9

def civilDays (year month day : Int) : Int :=
  marchYear year month / 400 * 146097 +
    dayOfEra (marchYear year month % 400) (dayOfYear (shiftMonth month) day) - 719468

def yearOfEra (dayOfEra : Int) : Int := (dayOfEra - dayOfEra / 1460 + dayOfEra / 36524 - dayOfEra / 146096) / 365

def civilDate (days : Int) : YMD :=
  let z := days + 719468
  let year := yearOfEra (z % 146097)
  let day := z % 146097 - dayOfEra year 0
  let shiftedMonth := (5 * day + 2) / 153
  let month := if shiftedMonth < 10 then shiftedMonth + 3 else shiftedMonth - 9
  ⟨year + z / 146097 * 400 + if month ≤ 2 then 1 else 0, month, day - (153 * shiftedMonth + 2) / 5 + 1⟩

/-- A day of a year of an era. The last of February is there in leap years. -/
structure InEra (yearOfEra dayOfYear : Int) : Prop where
  year_nonneg : 0 ≤ yearOfEra
  year_lt : yearOfEra < 400
  day_nonneg : 0 ≤ dayOfYear
  day_le : dayOfYear ≤ 364 ∨ dayOfYear = 365 ∧ yearOfEra % 4 = 3 ∧ (yearOfEra % 100 ≠ 99 ∨ yearOfEra = 399)

theorem InEra.dayOfEra_range {year day : Int} (inEra : InEra year day) :
    0 ≤ dayOfEra year day ∧ dayOfEra year day < 146097 := by
  have low := inEra.year_nonneg
  have high := inEra.year_lt
  have first := inEra.day_nonneg
  have last := inEra.day_le
  unfold dayOfEra
  omega

theorem InEra.yearOfEra_eq {year day : Int} (inEra : InEra year day) : yearOfEra (dayOfEra year day) = year := by
  have low := inEra.year_nonneg
  have high := inEra.year_lt
  have first := inEra.day_nonneg
  have last := inEra.day_le
  -- the year as centuries, cycles of four years and years
  obtain ⟨c, cLow, cHigh, r, rLow, rHigh, century⟩ : ∃ c, 0 ≤ c ∧ c ≤ 3 ∧ ∃ r, 0 ≤ r ∧ r ≤ 99 ∧ year = 100 * c + r :=
    ⟨year / 100, by omega, by omega, year % 100, by omega, by omega, by omega⟩
  obtain ⟨a, aLow, aHigh, b, bLow, bHigh, cycle⟩ : ∃ a, 0 ≤ a ∧ a ≤ 24 ∧ ∃ b, 0 ≤ b ∧ b ≤ 3 ∧ r = 4 * a + b :=
    ⟨r / 4, by omega, by omega, r % 4, by omega, by omega, by omega⟩
  have leap : day ≤ 364 ∨ day = 365 ∧ b = 3 ∧ (a < 24 ∨ c = 3) := by omega
  have spelled : dayOfEra year day = 36524 * c + 1461 * a + 365 * b + day := by
    have quarters : year / 4 = 25 * c + a := by omega
    have hundreds : year / 100 = c := by omega
    unfold dayOfEra
    rw [quarters, hundreds]
    omega
  have cycles : dayOfEra year day / 1460 = 25 * c + a + (24 * c + a + 365 * b + day) / 1460 := by
    rw [spelled, show 36524 * c + 1461 * a + 365 * b + day =
      24 * c + a + 365 * b + day + (25 * c + a) * 1460 by omega, add_mul_ediv_right _ _ (by decide)]
    omega
  have ends : dayOfEra year day / 36524 - dayOfEra year day / 146096 = c := by
    by_cases final : dayOfEra year day = 146096
    · rw [final] at spelled ⊢
      omega
    have range := inEra.dayOfEra_range
    have none : dayOfEra year day / 146096 = 0 := by omega
    have whole : dayOfEra year day / 36524 = c := by
      rw [spelled] at final ⊢
      omega
    omega
  have carry : (24 * c + a + 365 * b + day) / 1460 = 0 ∧ day ≤ 364 ∨
      (24 * c + a + 365 * b + day) / 1460 = 1 ∧ 1 ≤ day := by
    omega
  unfold yearOfEra
  rw [cycles, add_sub_assoc, ends, spelled]
  generalize (24 * c + a + 365 * b + day) / 1460 = e at carry
  omega

section
variable (d : Date)

theorem shiftMonth_range : 0 ≤ shiftMonth d.month ∧ shiftMonth d.month ≤ 11 := by
  have first := d.month_pos
  have last := d.month_le
  unfold shiftMonth
  split <;> omega

theorem dayOfYear_month : (5 * dayOfYear (shiftMonth d.month) d.day + 2) / 153 = shiftMonth d.month := by
  have first := d.month_pos
  have last := d.month_le
  have low := d.day_pos
  have high := d.day_le
  unfold dayOfYear shiftMonth
  unfold monthLength at high
  generalize d.month = month at first last high ⊢
  generalize d.day = day at low high ⊢
  interval_cases month <;> norm_num at high ⊢ <;> omega

theorem inEra : InEra (marchYear d.year d.month % 400) (dayOfYear (shiftMonth d.month) d.day) := by
  have first := d.month_pos
  have last := d.month_le
  have low := d.day_pos
  have high := d.day_le
  have most := monthLength_le d.year d.month
  have shifted := shiftMonth_range d
  constructor
  · omega
  · omega
  · unfold dayOfYear
    omega
  · by_cases february : d.month = 2
    · have eleven : shiftMonth d.month = 11 := by
        rw [february]
        rfl
      have before : marchYear d.year d.month = d.year - 1 := by
        rw [february]
        rfl
      rw [february, monthLength, if_pos rfl] at high
      rw [eleven, before]
      unfold dayOfYear
      by_cases leap : IsLeap d.year
      · rw [if_pos leap] at high
        unfold IsLeap at leap
        omega
      · rw [if_neg leap] at high
        omega
    · have ten : shiftMonth d.month ≤ 10 := by
        unfold shiftMonth
        split <;> omega
      left
      unfold dayOfYear
      omega

theorem civilDays_eq : civilDays d.year d.month d.day = d.number := by
  have first := d.month_pos
  have last := d.month_le
  have start : daysBeforeYear 1970 = 719528 := by decide
  unfold Date.number civilDays dayOfEra dayOfYear
  rw [daysBeforeMonth_eq d.year first last, start]
  unfold daysBeforeYear
  by_cases early : d.month ≤ 2
  · have before : marchYear d.year d.month = d.year - 1 := if_pos early
    have shifted : shiftMonth d.month = d.month + 9 := if_neg (by omega)
    rw [if_pos early, before, shifted]
    omega
  have same : marchYear d.year d.month = d.year := if_neg early
  have shifted : shiftMonth d.month = d.month - 3 := if_pos (by omega)
  rw [if_neg early, same, shifted]
  by_cases leap : IsLeap d.year
  · rw [if_pos leap]
    unfold IsLeap at leap
    omega
  · rw [if_neg leap]
    unfold IsLeap at leap
    omega

theorem number_inEra : (d.number + 719468) / 146097 = marchYear d.year d.month / 400 ∧ (d.number + 719468) % 146097 =
    dayOfEra (marchYear d.year d.month % 400) (dayOfYear (shiftMonth d.month) d.day) := by
  have range := (inEra d).dayOfEra_range
  have number := civilDays_eq d
  unfold civilDays at number
  omega

theorem yearOfEra_number : yearOfEra ((d.number + 719468) % 146097) = marchYear d.year d.month % 400 ∧
    (d.number + 719468) % 146097 - dayOfEra (yearOfEra ((d.number + 719468) % 146097)) 0 =
      dayOfYear (shiftMonth d.month) d.day := by
  have year := (inEra d).yearOfEra_eq
  rw [(number_inEra d).2, year]
  constructor
  · rfl
  · unfold dayOfEra
    omega

theorem civilDate_number : civilDate d.number = ⟨d.year, d.month, d.day⟩ := by
  have first := d.month_pos
  have last := d.month_le
  have back : (if shiftMonth d.month < 10 then shiftMonth d.month + 3 else shiftMonth d.month - 9) = d.month := by
    unfold shiftMonth
    split <;> split <;> omega
  unfold civilDate
  dsimp only
  rw [(yearOfEra_number d).2, (yearOfEra_number d).1, (number_inEra d).1, dayOfYear_month, back]
  congr 1
  · unfold marchYear
    split <;> omega
  · unfold dayOfYear
    omega

end

theorem tdiv_lowered_400 (y : Int) : (if 0 ≤ y then y else y - 399).tdiv 400 = y / 400 := by
  rw [tdiv_eq_ediv, show Int.sign 400 = 1 from rfl]
  split <;> split <;> omega

theorem tdiv_lowered_146097 (z : Int) : (if 0 ≤ z then z else z - 146096).tdiv 146097 = z / 146097 := by
  rw [tdiv_eq_ediv, show Int.sign 146097 = 1 from rfl]
  split <;> split <;> omega

theorem gives_days {M : Prop} (d : Date) (small : M → -2 ^ 40 ≤ d.year ∧ d.year ≤ 2 ^ 40) :
    Gives (days d.year d.month d.day) (fun n => n = d.number) fun _ => ¬M := by
  have march : M → -2 ^ 41 ≤ marchYear d.year d.month ∧ marchYear d.year d.month ≤ 2 ^ 41 := by
    intro m
    have := small m
    unfold marchYear
    split <;> omega
  have shift := shiftMonth_range d
  have first := d.day_pos
  have last := d.day_le
  have most := monthLength_le d.year d.month
  rw [← civilDays_eq]
  unfold days civilDays dayOfEra dayOfYear
  simp only [gives_bind]
  change Gives (int64 (marchYear d.year d.month)) _ _
  apply gives_int64_next (fun m => by have := march m; omega)
  generalize marchYear d.year d.month = y at march
  apply gives_int64_next (fun m => by have := march m; split <;> omega)
  rw [tdiv_lowered_400]
  apply gives_int64_next (fun m => by have := march m; omega)
  apply (gives_int64 (fun m => by omega)).imp
  intro yearOfEra difference
  have year : yearOfEra = y % 400 := by omega
  have quarters : yearOfEra.tdiv 4 = y % 400 / 4 := by rw [year, tdiv_eq_ediv_of_nonneg (by omega)]
  have hundreds : yearOfEra.tdiv 100 = y % 400 / 100 := by rw [year, tdiv_eq_ediv_of_nonneg (by omega)]
  rw [quarters, hundreds, year]
  change Gives (int64 (shiftMonth d.month)) _ _
  apply gives_int64_next (fun m => by omega)
  generalize shiftMonth d.month = s at shift
  apply gives_int64_next (fun m => by omega)
  apply gives_int64_next (fun m => by omega)
  rw [tdiv_eq_ediv_of_nonneg (by omega)]
  apply gives_int64_next (fun m => by omega)
  apply gives_int64_next (fun m => by omega)
  apply gives_int64_next (fun m => by omega)
  apply gives_int64_next (fun m => by omega)
  apply gives_int64_next (fun m => by omega)
  apply gives_int64_next (fun m => by omega)
  apply gives_int64_next (fun m => by have := march m; omega)
  apply gives_int64_next (fun m => by have := march m; omega)
  apply gives_int64
  intro m
  have := march m
  omega

theorem gives_date {M : Prop} (d : Date) (small : M → -2 ^ 60 ≤ d.number ∧ d.number ≤ 2 ^ 60) :
    Gives (date d.number) (fun r => r = ⟨d.year, d.month, d.day⟩) fun _ => ¬M := by
  have years := yearOfEra_number d
  have inEra := inEra d
  have yearLow := inEra.year_nonneg
  have yearHigh := inEra.year_lt
  have dayLow := inEra.day_nonneg
  have dayHigh := inEra.day_le
  rw [← years.1] at yearLow yearHigh
  rw [← years.2] at dayLow dayHigh
  rw [← civilDate_number]
  generalize d.number = n at small yearLow yearHigh dayLow dayHigh
  have shifted : M → -2 ^ 61 ≤ n + 719468 ∧ n + 719468 ≤ 2 ^ 61 := by
    intro m
    have := small m
    omega
  unfold date civilDate
  simp only [gives_bind]
  apply gives_int64_next (fun m => by have := shifted m; omega)
  generalize n + 719468 = z at shifted yearLow yearHigh dayLow dayHigh
  apply gives_int64_next (fun m => by have := shifted m; split <;> omega)
  rw [tdiv_lowered_146097]
  apply gives_int64_next (fun m => by have := shifted m; omega)
  apply (gives_int64 (fun m => by omega)).imp
  intro day difference
  have same : day = z % 146097 := by omega
  rw [same]
  have low : 0 ≤ z % 146097 := by omega
  have high : z % 146097 < 146097 := by omega
  generalize z % 146097 = day at low high yearLow yearHigh dayLow dayHigh
  rw [tdiv_eq_ediv_of_nonneg low, tdiv_eq_ediv_of_nonneg low, tdiv_eq_ediv_of_nonneg low]
  apply gives_int64_next (fun m => by omega)
  apply gives_int64_next (fun m => by omega)
  apply gives_int64_next (fun m => by omega)
  have folded : (day - day / 1460 + day / 36524 - day / 146096) / 365 = yearOfEra day := rfl
  rw [tdiv_eq_ediv_of_nonneg (by omega), folded]
  unfold dayOfEra at dayLow dayHigh ⊢
  generalize yearOfEra day = year at yearLow yearHigh dayLow dayHigh
  rw [tdiv_eq_ediv_of_nonneg yearLow, tdiv_eq_ediv_of_nonneg yearLow]
  apply gives_int64_next (fun m => by omega)
  apply gives_int64_next (fun m => by omega)
  apply gives_int64_next (fun m => by omega)
  apply (gives_int64 (fun m => by omega)).imp
  intro dayOfYear difference
  have same : dayOfYear = day - (year * 365 + year / 4 - year / 100 + 0) := by omega
  rw [same]
  generalize day - (year * 365 + year / 4 - year / 100 + 0) = doy at dayLow dayHigh
  apply gives_int64_next (fun m => by omega)
  apply gives_int64_next (fun m => by omega)
  rw [tdiv_eq_ediv_of_nonneg (by omega)]
  apply gives_int64_next (fun m => by omega)
  apply gives_int64_next (fun m => by omega)
  rw [tdiv_eq_ediv_of_nonneg (by omega)]
  apply gives_int64_next (fun m => by omega)
  apply gives_int64_next (fun m => by omega)
  apply gives_int64_next (fun m => by split <;> omega)
  apply gives_int64_next (fun m => by have := shifted m; omega)
  apply gives_int64_next (fun m => by have := shifted m; omega)
  apply gives_int64_next (fun m => by have := shifted m; split <;> omega)
  exact rfl

end AvianCore.CivilTime
