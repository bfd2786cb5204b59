import Mathlib.Data.Int.Basic

/-!
# The calendar

The Gregorian calendar in both directions, for every year. Days are counted from the first of January 1970. A year is
taken to begin in March, so that the leap day is its last day: 400 such years are four centuries, of which the last one
has a day more, a century is 25 groups of four years, of which the last one may have a day less, and four years
are three of 365 days and one that may have 366. From March on the months have 153 days in five.
-/

namespace Whispercast.Library

namespace Calendar

/-- A day; the months are counted from 0. -/
structure Civil where
  year : Int
  month : Int
  day : Int

/-- The number of the day on which the calendar shows `c`. -/
def days (c : Civil) : Int :=
  let year := if c.month ≤ 1 then c.year - 1 else c.year
  let month := if c.month ≤ 1 then c.month + 10 else c.month - 2
  year / 400 * 146097 + (year % 400 * 365 + year % 400 / 4 - year % 400 / 100) + ((153 * month + 2) / 5 + c.day - 1) -
    719468

/-- The year, from March on, and the day of it, among 400 years. -/
def yearAndDay (day : Int) : Int × Int :=
  let century := min (day / 36524) 3
  let dayOfCentury := day - 36524 * century
  let dayOfFour := dayOfCentury % 1461
  let year := min (dayOfFour / 365) 3
  (100 * century + 4 * (dayOfCentury / 1461) + year, dayOfFour - 365 * year)

/-- The month, from March on, and the day of it. -/
def monthAndDay (day : Int) : Int × Int :=
  let month := (5 * day + 2) / 153
  (month, day - (153 * month + 2) / 5 + 1)

/-- What the calendar shows on a day. -/
def civil (day : Int) : Civil :=
  let yd := yearAndDay ((day + 719468) % 146097)
  let md := monthAndDay yd.2
  let year := (day + 719468) / 146097 * 400 + yd.1
  if md.1 < 10 then ⟨year, md.1 + 2, md.2⟩ else ⟨year + 1, md.1 - 10, md.2⟩

variable {day : Int}

theorem yearAndDay_spec (h0 : 0 ≤ day) (h : day < 146097) :
    0 ≤ (yearAndDay day).1 ∧ (yearAndDay day).1 < 400 ∧ 0 ≤ (yearAndDay day).2 ∧ (yearAndDay day).2 ≤ 365 ∧
      (yearAndDay day).1 * 365 + (yearAndDay day).1 / 4 - (yearAndDay day).1 / 100 + (yearAndDay day).2 = day := by
  simp only [yearAndDay]
  have hc : 0 ≤ min (day / 36524) 3 ∧ min (day / 36524) 3 ≤ 3 ∧ 0 ≤ day - 36524 * min (day / 36524) 3 ∧
      day - 36524 * min (day / 36524) 3 ≤ 36524 := by omega
  generalize min (day / 36524) 3 = century at hc ⊢
  generalize hd : day - 36524 * century = dayOfCentury at hc ⊢
  have hy : 0 ≤ min (dayOfCentury % 1461 / 365) 3 ∧ min (dayOfCentury % 1461 / 365) 3 ≤ 3 ∧
      0 ≤ dayOfCentury % 1461 - 365 * min (dayOfCentury % 1461 / 365) 3 ∧
      dayOfCentury % 1461 - 365 * min (dayOfCentury % 1461 / 365) 3 ≤ 365 := by omega
  generalize min (dayOfCentury % 1461 / 365) 3 = year at hy ⊢
  have hleap : (100 * century + 4 * (dayOfCentury / 1461) + year) / 4 = 25 * century + dayOfCentury / 1461 := by omega
  have hnone : (100 * century + 4 * (dayOfCentury / 1461) + year) / 100 = century := by omega
  rw [hleap, hnone]
  omega

theorem monthAndDay_spec (h0 : 0 ≤ day) (h : day ≤ 365) :
    0 ≤ (monthAndDay day).1 ∧ (monthAndDay day).1 ≤ 11 ∧ 1 ≤ (monthAndDay day).2 ∧ (monthAndDay day).2 ≤ 31 ∧
      (153 * (monthAndDay day).1 + 2) / 5 + (monthAndDay day).2 - 1 = day := by
  simp only [monthAndDay]
  omega

/-- Months and days are within their bounds. -/
theorem civil_bounds (day : Int) :
    0 ≤ (civil day).month ∧ (civil day).month ≤ 11 ∧ 1 ≤ (civil day).day ∧ (civil day).day ≤ 31 := by
  have hyd := @yearAndDay_spec ((day + 719468) % 146097) (by omega) (by omega)
  have hmd := monthAndDay_spec hyd.2.2.1 hyd.2.2.2.1
  simp only [civil]
  split_ifs with hmonth
  all_goals
    dsimp only
    omega

/-- The calendar shows every day once. -/
theorem days_civil (day : Int) : days (civil day) = day := by
  have hyd := @yearAndDay_spec ((day + 719468) % 146097) (by omega) (by omega)
  have hmd := monthAndDay_spec hyd.2.2.1 hyd.2.2.2.1
  simp only [civil]
  generalize yearAndDay ((day + 719468) % 146097) = yd at hyd hmd ⊢
  generalize monthAndDay yd.2 = md at hmd ⊢
  obtain ⟨year, _⟩ := yd
  dsimp only at hyd hmd ⊢
  have hyear : ((day + 719468) / 146097 * 400 + year) / 400 = (day + 719468) / 146097 := by omega
  have hrest : ((day + 719468) / 146097 * 400 + year) % 400 = year := by omega
  split_ifs with hmonth
  · simp only [days]
    rw [if_neg (by omega), if_neg (by omega), hyear, hrest, Int.add_sub_cancel]
    omega
  · simp only [days]
    rw [if_pos (by omega), if_pos (by omega), Int.add_sub_cancel, hyear, hrest, Int.sub_add_cancel]
    omega

/-- A year has 365 days at least. -/
theorem year_le (day : Int) : (civil day).year ≤ 1973 + day.toNat / 365 := by
  have hyd := @yearAndDay_spec ((day + 719468) % 146097) (by omega) (by omega)
  simp only [civil]
  split_ifs
  all_goals
    dsimp only
    omega

example : civil 19782 = ⟨2024, 1, 29⟩ := rfl

end Calendar

end Whispercast.Library
