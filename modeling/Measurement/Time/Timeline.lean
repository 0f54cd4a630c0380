/-
The two times of a component.

Delays are counted on a clock that only runs forward, in whole milliseconds
from some start, which are called moments here. Scopes are evaluated on the wall clock, which can
be set at will. A timeline couples the two: the wall clock was set to an instant
at some moment and has run since.

A delay is over at the first moment that is not before its end, so one that is
not a whole number of milliseconds is rounded up (`momentAfter`). A timer that is
set for a moment waits for that. What a timer does that is set for a delay is the
affair of the runtime (`Timers`).
-/
import Measurement.Clock

set_option autoImplicit false

namespace Measurement

/-- The nanoseconds of a millisecond. -/
def nanosPerMilli : Nat := 1000000

/-- The moment at which a delay that starts at a moment is over. -/
def momentAfter (m : Nat) (delay : Span) : Nat :=
  m + ((delay.nanos + (nanosPerMilli - 1)) / nanosPerMilli).toNat

/-- The timers of a runtime (`tokio::time::sleep`): the moment at which one fires that is set for a
delay at a moment. -/
class Timers where
  fires (m : Nat) (delay : Span) : Nat

/-- What the two clocks show. -/
structure Reading where
  moment : Nat
  wall : Instant
deriving DecidableEq

/-- A moment and how the wall clock has been set. -/
structure Timeline where
  moment : Nat
  /-- The instant to which the wall clock was set. -/
  anchor : Instant
  /-- The moment at which it was set. -/
  anchored : Nat
deriving DecidableEq

namespace Timeline

/-- The timeline whose wall clock starts at an instant. -/
def startingAt (t : Instant) : Timeline := ⟨0, t, 0⟩

/-- What the wall clock shows, unless that is past the end of the calendar. -/
def wall? (l : Timeline) : Option Instant :=
  l.anchor.add? (.ofMillis ((l.moment - l.anchored : Nat) : Int))

/-- What the wall clock shows. Past the end of the calendar it falls back to where it was set. -/
def wall (l : Timeline) : Instant := l.wall?.getD l.anchor

/-- What the two clocks show. -/
def reading (l : Timeline) : Reading := ⟨l.moment, l.wall⟩

/-- The timeline with its wall clock set to an instant. -/
def setWall (l : Timeline) (t : Instant) : Timeline := ⟨l.moment, t, l.moment⟩

/-- The timeline with its wall clock moved as a clock is moved by hand. -/
def moveWall (l : Timeline) (d : Span) : Except CalendarEnd Timeline :=
  (Clock.advance ⟨l.wall⟩ d).map fun c => l.setWall c.now

/-- The timeline at another moment. -/
def atMoment (l : Timeline) (m : Nat) : Timeline := { l with moment := m }

end Timeline

end Measurement
