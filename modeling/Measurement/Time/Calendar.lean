/-
The proleptic Gregorian calendar.

A day is a whole number, counted from 1970-01-01, so that adding days and
comparing them is arithmetic; a `Date` is what the day is called. `dateOfDay`
and `dayOfDate` go between the two. The year of a day is found by one division
that can be off by one year and a step that mends it, and its month by the
days that precede each month of a common or a leap year.

The calendar ends on both sides: years run from −262143 to 262142.
-/

set_option autoImplicit false

namespace Measurement.Time

/-! ## 1. Years and months -/

/-- Every fourth year is a leap year, but of the full centuries only every fourth. -/
def isLeapYear (year : Int) : Bool :=
  year % 4 == 0 && (year % 100 != 0 || year % 400 == 0)

/-- The days of a month. -/
def daysInMonth (leap : Bool) : Nat → Nat
  | 2 => if leap then 29 else 28
  | 4 | 6 | 9 | 11 => 30
  | _ => 31

/-- The days of a year before the first of a month. -/
def daysBeforeMonth (leap : Bool) (month : Nat) : Nat :=
  (List.range (month - 1)).foldl (fun days m => days + daysInMonth leap (m + 1)) 0

/-- The days from the first day of the year 0 to the first day of a year. -/
def daysBeforeYear (year : Int) : Int :=
  365 * year + (year + 3) / 4 - (year + 99) / 100 + (year + 399) / 400

/-- The first day of 1970, counted from the first day of the year 0. -/
def epochOffset : Int := 719528

/-! ## 2. Dates -/

/-- A year, a month from 1 to 12 and a day of the month from 1. -/
structure Date where
  year : Int
  month : Nat
  day : Nat
deriving DecidableEq, Repr

/-- Whether a month and a day exist in the year. -/
def Date.Exists (d : Date) : Prop :=
  1 ≤ d.month ∧ d.month ≤ 12 ∧ 1 ≤ d.day ∧ d.day ≤ daysInMonth (isLeapYear d.year) d.month

instance (d : Date) : Decidable d.Exists := by unfold Date.Exists; infer_instance

/-- The number of the day that a date names. -/
def dayOfDate (d : Date) : Int :=
  daysBeforeYear d.year - epochOffset + daysBeforeMonth (isLeapYear d.year) d.month + d.day - 1

/-- The year of a day that is counted from the first day of the year 0. -/
def yearOfCount (n : Int) : Int :=
  let guess := 400 * n / 146097
  if n < daysBeforeYear guess then guess - 1
  else if daysBeforeYear (guess + 1) ≤ n then guess + 1
  else guess

/-- The month in which a day of the year lies, with the day of the year counted from 0. -/
def monthOfYearDay (leap : Bool) (n : Nat) : Nat :=
  ((List.range 12).filter fun m => daysBeforeMonth leap (m + 1) ≤ n).length

/-- The date of a day. -/
def dateOfDay (day : Int) : Date :=
  let n := day + epochOffset
  let year := yearOfCount n
  let yearDay := (n - daysBeforeYear year).toNat
  let leap := isLeapYear year
  let month := monthOfYearDay leap yearDay
  ⟨year, month, yearDay - daysBeforeMonth leap month + 1⟩

/-- The weekday of a day, Monday being 0. -/
def weekday (day : Int) : Nat := ((day + 3) % 7).toNat

/-! ## 3. The ends of the calendar -/

/-- The first year of the calendar. -/
def firstYear : Int := -262143

/-- The last year of the calendar. -/
def lastYear : Int := 262142

/-- The first day of the calendar. -/
def firstDay : Int := -96465292

/-- The last day of the calendar. -/
def lastDay : Int := 95026236

end Measurement.Time
