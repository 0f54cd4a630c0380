/-
Clocks that are set and moved by hand.

A clock shows an instant. Moving it forward by a span beyond what spans can
hold leaves it as it is, and moving it past the end of the calendar is an
error.
-/
import Measurement.Crontab.Search

set_option autoImplicit false

namespace Measurement

open Measurement.Time

/-- A clock that shows an instant until it is set or moved (`FakeClock`). -/
structure Clock where
  now : Instant
deriving DecidableEq

namespace Clock

/-- The longest span that a clock can be moved by, in nanoseconds. -/
def maxMove : Int := (Nat.pow 2 63 - 1) * 1000000

/-- The clock that shows a civil time, or the epoch if there is no such time (`at_ymd_hms`). -/
def atCivil (d : Date) (hour minute second : Nat) : Clock :=
  ⟨(Instant.ofCivil? d hour minute second 0).getD .epoch⟩

/-- The clock a span later (`FakeClock::advance`). -/
def advance (c : Clock) (d : Span) : Except CalendarEnd Clock :=
  if maxMove < d.nanos then .ok c
  else match c.now.add? d with
    | some t => .ok ⟨t⟩
    | none => .error .passed

end Clock

end Measurement
