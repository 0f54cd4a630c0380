/-
Days and dates name each other.

The year of a day is the one whose days it is among (`mem_yearOfCount`): the
division that guesses it is off by one year at most, and one step mends it. So
years ascend with days, and a day lies in or before a year exactly if it comes
before the first day of the next one (`year_dateOfDay_le_iff`). Within the year
a day lies in the month whose days it is among, so that the date of a day exists
and names that day (`exists_dateOfDay`, `dayOfDate_dateOfDay`), and all days up to
the first of the next month are of one month (`month_dateOfDay_eq`).
-/
import Measurement.Time.Calendar

set_option autoImplicit false

namespace Measurement.Time

/-! ## 1. Years -/

/-- A year has 365 days, and a leap year has one more. -/
theorem daysBeforeYear_succ (year : Int) :
    daysBeforeYear (year + 1)
      = daysBeforeYear year + 365 + (if isLeapYear year = true then 1 else 0) := by
  have hleap : isLeapYear year = true ↔ year % 4 = 0 ∧ (year % 100 ≠ 0 ∨ year % 400 = 0) := by
    simp [isLeapYear]
  by_cases h : isLeapYear year = true
  · rw [if_pos h]
    rw [hleap] at h
    unfold daysBeforeYear
    omega
  · rw [if_neg h]
    rw [hleap] at h
    unfold daysBeforeYear
    omega

theorem daysBeforeYear_mono {a b : Int} (h : a ≤ b) : daysBeforeYear a ≤ daysBeforeYear b := by
  unfold daysBeforeYear
  omega

theorem le_of_daysBeforeYear_lt {a b n : Int} (ha : daysBeforeYear a ≤ n)
    (hb : n < daysBeforeYear (b + 1)) : a ≤ b := by
  refine Int.not_lt.1 fun h => ?_
  have hmono : daysBeforeYear (b + 1) ≤ daysBeforeYear a := daysBeforeYear_mono (by omega)
  omega

/-- A day lies between the first day of its year and that of the next. -/
theorem mem_yearOfCount (n : Int) :
    daysBeforeYear (yearOfCount n) ≤ n ∧ n < daysBeforeYear (yearOfCount n + 1) := by
  -- 146097 is the number of days of 400 years, so the guess is close.
  have hlow : daysBeforeYear (400 * n / 146097 - 1) ≤ n := by
    unfold daysBeforeYear
    omega
  have hhigh : n < daysBeforeYear (400 * n / 146097 + 1 + 1) := by
    unfold daysBeforeYear
    omega
  unfold yearOfCount
  dsimp only
  split
  · rename_i hbefore
    refine ⟨hlow, ?_⟩
    rwa [Int.sub_add_cancel]
  · rename_i hbefore
    split
    · rename_i hafter
      exact ⟨hafter, hhigh⟩
    · rename_i hafter
      exact ⟨by omega, by omega⟩

theorem yearOfCount_le_iff (n year : Int) :
    yearOfCount n ≤ year ↔ n < daysBeforeYear (year + 1) := by
  obtain ⟨hfrom, hto⟩ := mem_yearOfCount n
  constructor
  · intro h
    have hmono : daysBeforeYear (yearOfCount n + 1) ≤ daysBeforeYear (year + 1) :=
      daysBeforeYear_mono (by omega)
    omega
  · intro h
    exact le_of_daysBeforeYear_lt hfrom h

theorem dayOfDate_newYear (year : Int) :
    dayOfDate ⟨year, 1, 1⟩ = daysBeforeYear year - epochOffset := by
  have hmonth : daysBeforeMonth (isLeapYear year) 1 = 0 := rfl
  simp only [dayOfDate, hmonth]
  omega

/-- Years ascend with days. -/
theorem year_dateOfDay_le_iff (day year : Int) :
    (dateOfDay day).year ≤ year ↔ day < dayOfDate ⟨year + 1, 1, 1⟩ := by
  rw [dayOfDate_newYear]
  refine (yearOfCount_le_iff (day + epochOffset) year).trans ?_
  omega

theorem year_dateOfDay_mono {a b : Int} (h : a ≤ b) : (dateOfDay a).year ≤ (dateOfDay b).year := by
  rw [year_dateOfDay_le_iff]
  have hb := (year_dateOfDay_le_iff b (dateOfDay b).year).1 (Int.le_refl _)
  omega

/-! ## 2. Months -/

/-- A day of a year lies in one of its months. -/
theorem mem_monthOfYearDay {leap : Bool} {n : Nat} (h : n < 365 + (if leap = true then 1 else 0)) :
    1 ≤ monthOfYearDay leap n ∧ monthOfYearDay leap n ≤ 12
      ∧ daysBeforeMonth leap (monthOfYearDay leap n) ≤ n
      ∧ n < daysBeforeMonth leap (monthOfYearDay leap n)
        + daysInMonth leap (monthOfYearDay leap n) := by
  cases leap with
  | false =>
    have hall : ∀ n < 365, 1 ≤ monthOfYearDay false n ∧ monthOfYearDay false n ≤ 12
        ∧ daysBeforeMonth false (monthOfYearDay false n) ≤ n
        ∧ n < daysBeforeMonth false (monthOfYearDay false n)
          + daysInMonth false (monthOfYearDay false n) := by decide +kernel
    exact hall n h
  | true =>
    have hall : ∀ n < 366, 1 ≤ monthOfYearDay true n ∧ monthOfYearDay true n ≤ 12
        ∧ daysBeforeMonth true (monthOfYearDay true n) ≤ n
        ∧ n < daysBeforeMonth true (monthOfYearDay true n)
          + daysInMonth true (monthOfYearDay true n) := by decide +kernel
    exact hall n h

/-- A month comes behind the days of the one before it. -/
theorem daysBeforeMonth_succ (leap : Bool) {month : Nat} (h : 1 ≤ month) :
    daysBeforeMonth leap (month + 1) = daysBeforeMonth leap month + daysInMonth leap month := by
  obtain ⟨m, rfl⟩ : ∃ m, month = m + 1 := ⟨month - 1, by omega⟩
  simp only [daysBeforeMonth, Nat.add_sub_cancel, List.range_succ, List.foldl_append,
    List.foldl_cons, List.foldl_nil]

theorem daysBeforeMonth_mono (leap : Bool) {a b : Nat} (ha : 1 ≤ a) (h : a ≤ b) :
    daysBeforeMonth leap a ≤ daysBeforeMonth leap b := by
  induction h with
  | refl => exact Nat.le_refl _
  | @step b h ih =>
    rw [daysBeforeMonth_succ leap (Nat.le_trans ha h)]
    omega

/-- The months of a year fill it. -/
theorem daysBeforeMonth_add_le (leap : Bool) {month : Nat} (hfirst : 1 ≤ month)
    (hlast : month ≤ 12) : daysBeforeMonth leap month + daysInMonth leap month
      ≤ 365 + (if leap = true then 1 else 0) := by
  have hmono : daysBeforeMonth leap (month + 1) ≤ daysBeforeMonth leap (12 + 1) :=
    daysBeforeMonth_mono leap (by omega) (Nat.succ_le_succ hlast)
  rw [daysBeforeMonth_succ leap hfirst] at hmono
  have hyear : daysBeforeMonth leap (12 + 1) = 365 + (if leap = true then 1 else 0) := by
    cases leap with
    | false => decide
    | true => decide
  omega

/-- A day of the year lies in no other month than the one whose days it is among. -/
theorem monthOfYearDay_eq {leap : Bool} {n month : Nat}
    (h : n < 365 + (if leap = true then 1 else 0)) (hfirst : 1 ≤ month)
    (hfrom : daysBeforeMonth leap month ≤ n)
    (hto : n < daysBeforeMonth leap month + daysInMonth leap month) :
    monthOfYearDay leap n = month := by
  obtain ⟨hin, -, hinFrom, hinTo⟩ := mem_monthOfYearDay h
  generalize monthOfYearDay leap n = other at *
  rw [← daysBeforeMonth_succ leap hfirst] at hto
  rw [← daysBeforeMonth_succ leap hin] at hinTo
  by_cases hbefore : other < month
  · have hmono := daysBeforeMonth_mono leap (a := other + 1) (by omega) hbefore
    omega
  · by_cases hbehind : month < other
    · have hmono := daysBeforeMonth_mono leap (a := month + 1) (by omega) hbehind
      omega
    · omega

/-! ## 3. Dates -/

/-- The day of the year on which a day falls is one of the days of its year. -/
theorem yearDay_lt (n : Int) :
    (n - daysBeforeYear (yearOfCount n)).toNat
      < 365 + (if isLeapYear (yearOfCount n) = true then 1 else 0) := by
  obtain ⟨hfrom, hto⟩ := mem_yearOfCount n
  rw [daysBeforeYear_succ] at hto
  split
  · rename_i hleap
    rw [if_pos hleap] at hto
    omega
  · rename_i hleap
    rw [if_neg hleap] at hto
    omega

/-- The date of a day is one of the calendar. -/
theorem exists_dateOfDay (day : Int) : (dateOfDay day).Exists := by
  obtain ⟨hfirst, hlast, hfrom, hto⟩ := mem_monthOfYearDay (yearDay_lt (day + epochOffset))
  refine ⟨hfirst, hlast, ?_, ?_⟩
  · simp only [dateOfDay]
    omega
  · simp only [dateOfDay]
    omega

/-- The date of a day names that day. -/
theorem dayOfDate_dateOfDay (day : Int) : dayOfDate (dateOfDay day) = day := by
  obtain ⟨hyear, -⟩ := mem_yearOfCount (day + epochOffset)
  obtain ⟨-, -, hmonth, -⟩ := mem_monthOfYearDay (yearDay_lt (day + epochOffset))
  simp only [dateOfDay, dayOfDate]
  omega

example : dayOfDate ⟨firstYear, 1, 1⟩ = firstDay := by decide
example : dayOfDate ⟨lastYear, 12, 31⟩ = lastDay := by decide
example : dateOfDay 0 = ⟨1970, 1, 1⟩ := by decide
example : dateOfDay 11016 = ⟨2000, 2, 29⟩ := by decide

/-! ## 4. The next month -/

/-- The first day of the month after that of a date. -/
def Date.nextMonth (d : Date) : Date :=
  if d.month = 12 then ⟨d.year + 1, 1, 1⟩ else ⟨d.year, d.month + 1, 1⟩

theorem dayOfDate_firstOfMonth (year : Int) (month : Nat) :
    dayOfDate ⟨year, month, 1⟩
      = daysBeforeYear year - epochOffset + daysBeforeMonth (isLeapYear year) month := by
  simp only [dayOfDate]
  omega

/-- Every month of a year ends before the next year begins. -/
theorem daysBeforeYear_add_le (year : Int) {month : Nat} (hfirst : 1 ≤ month) (hlast : month ≤ 12) :
    daysBeforeYear year + daysBeforeMonth (isLeapYear year) month
      + daysInMonth (isLeapYear year) month ≤ daysBeforeYear (year + 1) := by
  have hmonths := daysBeforeMonth_add_le (isLeapYear year) hfirst hlast
  rw [daysBeforeYear_succ]
  split
  · rename_i hleap
    rw [if_pos hleap] at hmonths
    omega
  · rename_i hleap
    rw [if_neg hleap] at hmonths
    omega

/-- A month ends where the next one begins, at the end of a year too. -/
theorem dayOfDate_nextMonth {d : Date} (h : d.Exists) :
    dayOfDate d.nextMonth
      = dayOfDate ⟨d.year, d.month, 1⟩ + daysInMonth (isLeapYear d.year) d.month := by
  obtain ⟨hfirst, hlast, -, -⟩ := h
  rw [dayOfDate_firstOfMonth]
  unfold Date.nextMonth
  by_cases hdecember : d.month = 12
  · rw [if_pos hdecember, dayOfDate_newYear, daysBeforeYear_succ, hdecember]
    cases isLeapYear d.year with
    | false =>
      have hyear : daysBeforeMonth false 12 + daysInMonth false 12 = 365 := by decide
      simp only [Bool.false_eq_true, if_false]
      omega
    | true =>
      have hyear : daysBeforeMonth true 12 + daysInMonth true 12 = 366 := by decide
      simp only [if_true]
      omega
  · rw [if_neg hdecember]
    rw [dayOfDate_firstOfMonth, daysBeforeMonth_succ _ hfirst]
    omega

/-- A day from a day of a month on, but before the next month, is one of the same month. -/
theorem month_dateOfDay_eq {a b : Int} (hle : a ≤ b) (hlt : b < dayOfDate (dateOfDay a).nextMonth) :
    (dateOfDay b).month = (dateOfDay a).month := by
  obtain ⟨hyear, -⟩ := mem_yearOfCount (a + epochOffset)
  obtain ⟨hfirst, hlast, hfrom, hto⟩ := mem_monthOfYearDay (yearDay_lt (a + epochOffset))
  have hbound := yearDay_lt (b + epochOffset)
  rw [dayOfDate_nextMonth (exists_dateOfDay a), dayOfDate_firstOfMonth] at hlt
  simp only [dateOfDay] at hlt ⊢
  generalize yearOfCount (a + epochOffset) = year at *
  generalize hmonth : monthOfYearDay (isLeapYear year) (a + epochOffset - daysBeforeYear year).toNat
    = month at *
  -- The month is within the year, so the year of the two days is one.
  have hin := daysBeforeYear_add_le year hfirst hlast
  have hsame : yearOfCount (b + epochOffset) = year := by
    have hle := (yearOfCount_le_iff (b + epochOffset) year).2 (by omega)
    have hge : ¬ yearOfCount (b + epochOffset) ≤ year - 1 := by
      rw [yearOfCount_le_iff, Int.sub_add_cancel]
      omega
    omega
  rw [hsame] at hbound ⊢
  exact monthOfYearDay_eq hbound hfirst (by omega) (by omega)

end Measurement.Time
