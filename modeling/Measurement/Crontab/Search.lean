/-
The next instant that a crontab admits.

`Crontab::next_match` moves one instant forward in a loop; what it finds is said
here without that loop, which stands in Proofs/Crontab/InPlace.

The search goes through the days from the given instant to the end of the fifth
year after its own, and on a day that is admitted through the hours, minutes
and seconds: the least admitted time from a given one either keeps its hour and
minute, or keeps its hour and takes the next minute, or takes the next hour,
and whatever comes after the component that moved starts again at its least
admitted value.

The search can run into the end of the calendar. A month that is not admitted
is passed over as a whole, and with the last one the search ends without
result; a step to the day after the last one is an error.
-/
import Measurement.Crontab.Basic

set_option autoImplicit false

namespace Measurement

open Measurement.Time

/-- An instant beyond the end of the calendar was needed. -/
inductive CalendarEnd where
  | passed
deriving DecidableEq, Repr

namespace Crontab

/-- The search covers the year of its start and this many after it (`SEARCH_YEARS`). -/
def searchYears : Int := 5

/-- The second of the day with these parts. -/
def secondOfDay (hour minute second : Nat) : Nat := hour * 3600 + minute * 60 + second

/-- The least admitted second of the day from `n` on. -/
def timeFrom? (c : Crontab) (n : Nat) : Option Nat :=
  let hour := n / 3600
  let minute := n / 60 % 60
  let second := n % 60
  let sameMinute :=
    if hour ∈ c.hours.values ∧ minute ∈ c.minutes.values then
      (c.seconds.from? second).map fun s => secondOfDay hour minute s
    else none
  let sameHour :=
    if hour ∈ c.hours.values then
      (c.minutes.from? (minute + 1)).bind fun m =>
        c.seconds.values.head?.map fun s => secondOfDay hour m s
    else none
  let later :=
    (c.hours.from? (hour + 1)).bind fun h =>
      c.minutes.values.head?.bind fun m =>
        c.seconds.values.head?.map fun s => secondOfDay h m s
  sameMinute.or (sameHour.or later)

/-- Whether the fields for days, weekdays and months admit a day. -/
def admitsDay (c : Crontab) (day : Int) : Bool :=
  let d := dateOfDay day
  c.admits .months d.month && c.admits .days d.day && c.admits .weekdays (weekday day)

/-- The least admitted instant from a second of a day on, within a number of days. -/
def searchDays (c : Crontab) : Nat → Int → Nat → Except CalendarEnd (Option Instant)
  | 0, _, _ => .ok none
  | days + 1, day, second =>
    let here := if c.admitsDay day then c.timeFrom? second else none
    match here.bind fun n => Instant.of? day n 0 with
    | some t => .ok (some t)
    | none =>
      -- Only the first day is searched from a time of its own on.
      if day < lastDay then searchDays c days (day + 1) 0
      else if c.admits .months (dateOfDay day).month then .error .passed
      else .ok none

/-- The first whole second from an instant on. -/
def wholeSecondFrom (t : Instant) : Except CalendarEnd Instant :=
  if t.nano = 0 then .ok t
  else match t.startOfSecond.add? (.ofSeconds 1) with
    | some s => .ok s
    | none => .error .passed

/-- The days from `day` to the end of a year. -/
def daysThrough (year day : Int) : Nat := (dayOfDate ⟨year + 1, 1, 1⟩ - day).toNat

/-- The first whole second from an instant on that the crontab admits, if there is one until the end
of the fifth year after that of the instant: what the loop of `Crontab::next_match` finds. -/
def next (c : Crontab) (t : Instant) : Except CalendarEnd (Option Instant) := do
  let s ← wholeSecondFrom t
  searchDays c (daysThrough (t.year + searchYears) s.day) s.day s.second

end Crontab

end Measurement
