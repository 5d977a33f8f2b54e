/-!
# Dates

Dates of the Gregorian calendar, carried on before its introduction, and days counted from the
first of January 1970. A year is taken to begin in March, so that the leap day is its last.

* `Date.isValid` — whether the calendar has the date.
* `Date.toDay` and `Date.ofDay` — from a date to its day number and back.
-/

namespace CampusQuery

/-- A year, a month from one and a day from one. The year before year 1 is year 0. -/
structure Date where
  year : Int
  month : Nat
  day : Nat
  deriving DecidableEq, Repr

namespace Date

/-- Whether a year has a leap day. -/
def isLeapYear (year : Int) : Bool :=
  year % 4 == 0 && (year % 100 != 0 || year % 400 == 0)

/-- How many days a month has. -/
def daysInMonth (year : Int) (month : Nat) : Nat :=
  if month = 2 then (if isLeapYear year then 29 else 28)
  else if month = 4 ∨ month = 6 ∨ month = 9 ∨ month = 11 then 30
  else 31

/-- Whether the calendar has a date. -/
def isValid (d : Date) : Bool :=
  1 ≤ d.month && d.month ≤ 12 && 1 ≤ d.day && d.day ≤ daysInMonth d.year d.month

/-- The number of a day, zero for the first of January 1970. -/
def toDay (d : Date) : Int :=
  let year := if d.month ≤ 2 then d.year - 1 else d.year
  let monthFromMarch := (d.month + 9) % 12
  let dayOfYear := (153 * monthFromMarch + 2) / 5 + d.day - 1
  let yearOfEra := year.fmod 400
  let dayOfEra := yearOfEra * 365 + yearOfEra / 4 - yearOfEra / 100 + dayOfYear
  year.fdiv 400 * 146097 + dayOfEra - 719468

/-- The date of a day. -/
def ofDay (day : Int) : Date :=
  let fromEra := day + 719468
  let dayOfEra := fromEra.fmod 146097
  let yearOfEra := (dayOfEra - dayOfEra / 1460 + dayOfEra / 36524 - dayOfEra / 146096) / 365
  let dayOfYear := dayOfEra - (365 * yearOfEra + yearOfEra / 4 - yearOfEra / 100)
  let monthFromMarch := (5 * dayOfYear + 2) / 153
  let dayOfMonth := dayOfYear - (153 * monthFromMarch + 2) / 5 + 1
  let month := if monthFromMarch < 10 then monthFromMarch + 3 else monthFromMarch - 9
  let year := yearOfEra + fromEra.fdiv 146097 * 400
  ⟨if month ≤ 2 then year + 1 else year, month.toNat, dayOfMonth.toNat⟩

example : (⟨1970, 1, 1⟩ : Date).toDay = 0 ∧ ofDay 0 = ⟨1970, 1, 1⟩ := by decide
example : ofDay (⟨2024, 2, 29⟩ : Date).toDay = ⟨2024, 2, 29⟩ := by decide
example : ofDay (⟨-44, 3, 15⟩ : Date).toDay = ⟨-44, 3, 15⟩ := by decide

end Date

end CampusQuery
