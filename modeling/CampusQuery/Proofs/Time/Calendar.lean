import Mathlib
import CampusQuery.Time.Calendar

/-!
# Days and dates

Every day has one date, which the calendar has, and the date has the day's number.

* `Date.yearOfEra_spec` — a day of the 400 years after a March falls into the year that
  `Date.ofDay` finds.
* `Date.toDay_ofDay` — the date of a day has the number of the day.
* `Date.isValid_ofDay` — the calendar has the date of every day.
-/

namespace CampusQuery

namespace Date

/-! ## Years of an era -/

/-- The days of an era up to a day, less the leap days among them. -/
def commonDays (n : Nat) : Nat :=
  n - n / 1460 + n / 36524 - n / 146096

/-- The day of an era with which a year begins. -/
def yearStart (year : Nat) : Nat :=
  365 * year + year / 4 - year / 100 + year / 400

theorem commonDays_mono {a b : Nat} (h : a ≤ b) : commonDays a ≤ commonDays b := by
  have hstep : ∀ n, commonDays n ≤ commonDays (n + 1) := by
    intro n
    unfold commonDays
    omega
  induction b, h using Nat.le_induction with
  | base => exact Nat.le_refl _
  | succ b _ ih => exact ih.trans (hstep b)

/-- The common days of an era at both ends of a year. -/
theorem commonDays_yearStart : ∀ year < 400,
    365 * year ≤ commonDays (yearStart year) ∧
      commonDays (yearStart (year + 1) - 1) < 365 * (year + 1) ∧
      yearStart year < yearStart (year + 1) := by
  decide +kernel

theorem yearOfEra_spec {n : Nat} (h : n < 146097) :
    commonDays n / 365 < 400 ∧ yearStart (commonDays n / 365) ≤ n ∧
      n < yearStart (commonDays n / 365 + 1) := by
  have hyear : commonDays n / 365 < 400 := by
    have hlast := commonDays_mono (Nat.le_of_lt_succ h)
    have : commonDays 146096 = 145999 := by decide
    omega
  refine ⟨hyear, ?_, ?_⟩
  · by_contra hlt
    obtain ⟨year, hsucc⟩ : ∃ year, commonDays n / 365 = year + 1 := by
      cases hzero : commonDays n / 365 with
      | zero => simp [hzero, yearStart] at hlt
      | succ year => exact ⟨year, rfl⟩
    rw [hsucc] at hlt hyear
    have hend := (commonDays_yearStart year (by omega)).2.1
    have := commonDays_mono (by omega : n ≤ yearStart (year + 1) - 1)
    omega
  · by_contra hge
    by_cases hlast : commonDays n / 365 + 1 < 400
    · have hstart := (commonDays_yearStart _ hlast).1
      have := commonDays_mono (by omega : yearStart (commonDays n / 365 + 1) ≤ n)
      omega
    · have hend : commonDays n / 365 + 1 = 400 := by omega
      rw [hend] at hge
      have : yearStart 400 = 146097 := by decide
      omega

/-- A year is of 365 days, and of one more if the next February has a leap day. -/
theorem yearStart_succ (year : Nat) (h : year < 400) :
    yearStart (year + 1) = yearStart year + 365 + (if isLeapYear (year + 1) then 1 else 0) := by
  revert year
  decide +kernel

/-! ## Months of a year -/

/-- The month, from March, of a day of a year that begins in March. -/
def monthFromMarch (day : Nat) : Nat :=
  (5 * day + 2) / 153

/-- The day of a year with which a month begins, counted from March. -/
def monthStart (month : Nat) : Nat :=
  (153 * month + 2) / 5

/-- The month from January of a month from March. -/
def monthOf (fromMarch : Nat) : Nat :=
  if fromMarch < 10 then fromMarch + 3 else fromMarch - 9

theorem monthFromMarch_spec {day : Nat} (h : day < 366) :
    monthFromMarch day < 12 ∧ monthStart (monthFromMarch day) ≤ day ∧
      day < monthStart (monthFromMarch day + 1) := by
  unfold monthFromMarch monthStart
  omega

/-- A month but February is as long as the calendar says. -/
theorem monthStart_succ : ∀ month < 11, ∀ year,
    monthStart (month + 1) = monthStart month + daysInMonth year (monthOf month) := by
  intro month h year
  have hfebruary : monthOf month ≠ 2 := by
    unfold monthOf
    split <;> omega
  unfold daysInMonth
  rw [if_neg hfebruary]
  revert month
  decide

/-! ## The date of a day -/

variable {n era : Int} {day : Nat}

theorem ofDay_eq (h : n + 719468 = era * 146097 + day) (hday : day < 146097) :
    ofDay n =
      ⟨(commonDays day / 365 : Nat) + era * 400 +
          (if monthFromMarch (day - yearStart (commonDays day / 365)) < 10 then 0 else 1),
        monthOf (monthFromMarch (day - yearStart (commonDays day / 365))),
        day - yearStart (commonDays day / 365) -
          monthStart (monthFromMarch (day - yearStart (commonDays day / 365))) + 1⟩ := by
  obtain ⟨hyear, hstart, hend⟩ := yearOfEra_spec hday
  have hmod : (n + 719468).fmod 146097 = day := by
    rw [Int.fmod_eq_emod_of_nonneg _ (by decide)]
    omega
  have hdiv : (n + 719468).fdiv 146097 = era := by
    rw [Int.fdiv_eq_ediv_of_nonneg _ (by decide)]
    omega
  have hcommon : ((day : Int) - day / 1460 + day / 36524 - day / 146096) / 365 =
      (commonDays day / 365 : Nat) := by
    unfold commonDays
    omega
  unfold ofDay
  simp only [hmod, hdiv, hcommon]
  generalize commonDays day / 365 = year at *
  have hrest : (day : Int) - (365 * (year : Int) + year / 4 - year / 100) =
      (day - yearStart year : Nat) := by
    unfold yearStart at hstart ⊢
    omega
  rw [hrest]
  have hlt : day - yearStart year < 366 := by
    have := yearStart_succ year hyear
    split at this <;> omega
  generalize day - yearStart year = rest at *
  have hmonth : (5 * (rest : Int) + 2) / 153 = (monthFromMarch rest : Nat) := by
    unfold monthFromMarch
    omega
  obtain ⟨hmonth12, hmonthStart, -⟩ := monthFromMarch_spec hlt
  rw [hmonth]
  generalize monthFromMarch rest = month at *
  unfold monthStart at hmonthStart ⊢
  unfold monthOf
  by_cases hten : month < 10
  · rw [if_pos (by omega : (month : Int) < 10), if_pos hten, if_pos hten, if_neg (by omega)]
    congr 1 <;> omega
  · rw [if_neg (by omega : ¬ (month : Int) < 10), if_neg hten, if_neg hten, if_pos (by omega)]
    congr 1 <;> omega

/-- The day of an era and the era of a day. -/
theorem exists_dayOfEra (n : Int) :
    ∃ (era : Int) (day : Nat), n + 719468 = era * 146097 + day ∧ day < 146097 :=
  ⟨(n + 719468) / 146097, ((n + 719468) % 146097).toNat, by omega, by omega⟩

/-- The date of a day has the number of the day. -/
theorem toDay_ofDay (n : Int) : (ofDay n).toDay = n := by
  obtain ⟨era, day, hn, hday⟩ := exists_dayOfEra n
  rw [ofDay_eq hn hday]
  obtain ⟨hyear, hstart, hend⟩ := yearOfEra_spec hday
  generalize commonDays day / 365 = year at *
  have hlt : day - yearStart year < 366 := by
    have := yearStart_succ year hyear
    split at this <;> omega
  generalize hrest : day - yearStart year = rest at *
  obtain ⟨hmonth12, hmonthStart, -⟩ := monthFromMarch_spec hlt
  generalize monthFromMarch rest = month at *
  have hback : (monthOf month + 9) % 12 = month := by
    unfold monthOf
    split <;> omega
  have hfebruary : monthOf month ≤ 2 ↔ ¬ month < 10 := by
    unfold monthOf
    split <;> omega
  have hmarch : (if monthOf month ≤ 2 then
      (year : Int) + era * 400 + (if month < 10 then 0 else 1) - 1
      else (year : Int) + era * 400 + (if month < 10 then 0 else 1)) = year + era * 400 := by
    simp only [hfebruary]
    split_ifs <;> omega
  unfold toDay
  simp only [hmarch, hback]
  rw [Int.fmod_eq_emod_of_nonneg _ (by decide), Int.fdiv_eq_ediv_of_nonneg _ (by decide)]
  have hmod : ((year : Int) + era * 400) % 400 = year := by omega
  have hdiv : ((year : Int) + era * 400) / 400 = era := by omega
  rw [hmod, hdiv]
  unfold monthStart at hmonthStart ⊢
  unfold yearStart at hrest hstart
  omega

theorem isLeapYear_add_era (year era : Int) : isLeapYear (year + era * 400) = isLeapYear year := by
  unfold isLeapYear
  rw [show (year + era * 400) % 4 = year % 4 by omega,
    show (year + era * 400) % 100 = year % 100 by omega,
    show (year + era * 400) % 400 = year % 400 by omega]

/-- The calendar has the date of every day. -/
theorem isValid_ofDay (n : Int) : (ofDay n).isValid = true := by
  obtain ⟨era, day, hn, hday⟩ := exists_dayOfEra n
  rw [ofDay_eq hn hday]
  obtain ⟨hyear, hstart, hend⟩ := yearOfEra_spec hday
  generalize commonDays day / 365 = year at *
  have hsucc := yearStart_succ year hyear
  have hlt : day - yearStart year < 366 := by
    split at hsucc <;> omega
  obtain ⟨hmonth12, hmonthStart, hmonthEnd⟩ := monthFromMarch_spec hlt
  generalize monthFromMarch (day - yearStart year) = month at *
  have hmonth : 1 ≤ monthOf month ∧ monthOf month ≤ 12 := by
    unfold monthOf
    split <;> omega
  simp only [isValid, hmonth, decide_true, Bool.true_and, Bool.and_eq_true, decide_eq_true_eq]
  refine ⟨by omega, ?_⟩
  by_cases hlast : month = 11
  · -- February, which a leap day makes longer
    subst hlast
    have hleap : isLeapYear ((year : Int) + era * 400 + (if 11 < 10 then 0 else 1)) =
        isLeapYear ((year : Int) + 1) := by
      rw [if_neg (by decide), Int.add_right_comm, isLeapYear_add_era]
    have hfebruary : monthOf 11 = 2 := rfl
    have hbegin : monthStart 11 = 337 := rfl
    rw [daysInMonth, if_pos hfebruary, hleap, hbegin]
    rw [hbegin] at hmonthStart
    split at hsucc
    · rename_i hleapYear
      rw [if_pos hleapYear]
      omega
    · rename_i hleapYear
      rw [if_neg hleapYear]
      omega
  · have := monthStart_succ month (by omega)
      ((year : Int) + era * 400 + (if month < 10 then 0 else 1))
    omega

end Date

end CampusQuery
