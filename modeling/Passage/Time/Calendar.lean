/-
# The calendar

Dates of the Gregorian calendar, extended to all years, and the number
of days from 1 January 1970 to them.  A year is counted from 1 March, so
that the leap day comes last and the months before it have fixed
lengths; 400 such years make an era of 146097 days.  `dayNumber_ofDay`
says that the date of a day number has that day number again, so every
day has a date of its own.
-/
namespace Passage

/-- A year, a month and a day; not every such triple is a date of the calendar. -/
structure Date where
  year : Int
  month : Nat
  day : Nat
  deriving DecidableEq, Repr

namespace Date

/-- The number of days from 1 March of year 0 to 1 January 1970. -/
def epochShift : Int := 719468

/-- The years of an era that are complete on a day of it: whole centuries, then whole four-year
cycles, then single years.  Only the last century and the last year of a cycle have a day more. -/
def yearOfEra (day : Nat) : Nat :=
  let century := min (day / 36524) 3
  let inCentury := day - 36524 * century
  100 * century + 4 * (inCentury / 1461) + min (inCentury % 1461 / 365) 3

/-- The days of an era before its year `y`. -/
def daysBeforeYear (y : Nat) : Nat :=
  365 * y + y / 4 - y / 100

/-- The days of a year before its month `m`, months counted from March. -/
def daysBeforeMonth (m : Nat) : Nat :=
  (153 * m + 2) / 5

/-- The date of a day of an era. -/
def ofEra (era : Int) (day : Nat) : Date :=
  let year := yearOfEra day
  let dayOfYear := day - daysBeforeYear year
  let month := (5 * dayOfYear + 2) / 153
  { year := 400 * era + year + (if month < 10 then 0 else 1)
    month := if month < 10 then month + 3 else month - 9
    day := dayOfYear - daysBeforeMonth month + 1 }

/-- The date of a day, given as the number of days since 1 January 1970. -/
def ofDay (n : Int) : Date :=
  ofEra ((n + epochShift) / 146097) ((n + epochShift) % 146097).toNat

/-- The number of days from 1 January 1970 to a date. -/
def dayNumber (d : Date) : Int :=
  let year := d.year - (if d.month ≤ 2 then 1 else 0)
  let month := if d.month ≤ 2 then d.month + 9 else d.month - 3
  146097 * (year / 400) + daysBeforeYear (year % 400).toNat + daysBeforeMonth month + d.day - 1
    - epochShift

/-- A triple is a date of the calendar when its day number leads back to it. -/
def IsValid (d : Date) : Prop := ofDay d.dayNumber = d

instance (d : Date) : Decidable d.IsValid := inferInstanceAs (Decidable (ofDay d.dayNumber = d))

/-- The year of a day: it is one of the 400, it begins on or before the day, and the day is one of
its 366. -/
theorem yearOfEra_bounds {day : Nat} (h : day < 146097) :
    yearOfEra day ≤ 399 ∧ daysBeforeYear (yearOfEra day) ≤ day ∧
      day - daysBeforeYear (yearOfEra day) ≤ 365 := by
  have hc : min (day / 36524) 3 ≤ 3 := Nat.min_le_right _ _
  have hin : 36524 * min (day / 36524) 3 ≤ day ∧ day - 36524 * min (day / 36524) 3 ≤ 36524 := by
    omega
  simp only [yearOfEra, daysBeforeYear]
  generalize min (day / 36524) 3 = c at *
  generalize hr : day - 36524 * c = r at *
  have hq : r / 1461 ≤ 24 := by omega
  have hy : min (r % 1461 / 365) 3 ≤ 3 := Nat.min_le_right _ _
  have hd : 365 * min (r % 1461 / 365) 3 ≤ r % 1461 ∧
      r % 1461 - 365 * min (r % 1461 / 365) 3 ≤ 365 := by omega
  have hsplit : r = 1461 * (r / 1461) + r % 1461 := by omega
  generalize min (r % 1461 / 365) 3 = y at *
  generalize r / 1461 = q at *
  generalize r % 1461 = s at *
  have h4 : (100 * c + 4 * q + y) / 4 = 25 * c + q := by omega
  have h100 : (100 * c + 4 * q + y) / 100 = c := by omega
  rw [h4, h100]
  omega

theorem daysBeforeMonth_le (dayOfYear : Nat) :
    daysBeforeMonth ((5 * dayOfYear + 2) / 153) ≤ dayOfYear := by
  unfold daysBeforeMonth; omega

theorem month_ofEra {day : Nat} (h : day < 146097) (era : Int) :
    1 ≤ (ofEra era day).month ∧ (ofEra era day).month ≤ 12 := by
  have hb := yearOfEra_bounds h
  simp only [ofEra]
  split <;> omega

theorem day_ofEra (era : Int) (day : Nat) : 1 ≤ (ofEra era day).day ∧ (ofEra era day).day ≤ 31 := by
  simp only [ofEra, daysBeforeMonth]
  omega

/-- Counting the days of a date whose year and month are given from March. -/
theorem dayNumber_ofParts {y m k : Nat} (hy : y ≤ 399) (hm : m ≤ 11) (hk : daysBeforeMonth m ≤ k)
    (era : Int) :
    dayNumber ⟨400 * era + y + (if m < 10 then 0 else 1), if m < 10 then m + 3 else m - 9,
      k - daysBeforeMonth m + 1⟩ = 146097 * era + (daysBeforeYear y + k : Nat) - epochShift := by
  by_cases hlt : m < 10
  · have h1 : ¬ m + 3 ≤ 2 := by omega
    have hq : (400 * era + (y : Int) + 0 - 0) / 400 = era := by omega
    have hr : ((400 * era + (y : Int) + 0 - 0) % 400).toNat = y := by omega
    simp only [dayNumber, hlt, h1, ↓reduceIte, Nat.add_sub_cancel, hq, hr]
    omega
  · have h1 : m - 9 ≤ 2 := by omega
    have h2 : m - 9 + 9 = m := by omega
    have hq : (400 * era + (y : Int) + 1 - 1) / 400 = era := by omega
    have hr : ((400 * era + (y : Int) + 1 - 1) % 400).toNat = y := by omega
    simp only [dayNumber, hlt, h1, h2, ↓reduceIte, hq, hr]
    omega

theorem dayNumber_ofEra {day : Nat} (h : day < 146097) (era : Int) :
    (ofEra era day).dayNumber = 146097 * era + day - epochShift := by
  obtain ⟨hy, hb, hk⟩ := yearOfEra_bounds h
  rw [ofEra, dayNumber_ofParts hy (by omega) (daysBeforeMonth_le _), Nat.add_sub_cancel' hb]

/-- The date of a day has that day's number. -/
theorem dayNumber_ofDay (n : Int) : (ofDay n).dayNumber = n := by
  rw [ofDay, dayNumber_ofEra (by omega)]
  omega

/-- Every day number is that of a date of the calendar. -/
theorem isValid_ofDay (n : Int) : (ofDay n).IsValid := by
  rw [IsValid, dayNumber_ofDay]

end Date
end Passage
