/-
Timers that keep their time.

A timer that is set for a delay (`tokio::time::sleep`) is documented to fire when
the delay is over and not before, on a clock of whole milliseconds. Everything
that is said here of jobs is said for such timers (`Timers.exact`); the
definitions themselves take the timers of their runtime as they are.
-/
import Measurement.Time.Timeline

set_option autoImplicit false

namespace Measurement

namespace Timers

/-- Timers that fire at the first moment that is not before the end of their delay. -/
instance exact : Timers := ⟨momentAfter⟩

theorem fires_eq (m : Nat) (d : Span) : fires m d = momentAfter m d := rfl

/-- A timer has fired exactly if its delay is over. -/
theorem fires_le_iff {m n : Nat} {d : Span} (hd : 0 ≤ d.nanos) :
    fires m d ≤ n ↔ m * nanosPerMilli + d.nanos ≤ (n : Int) * nanosPerMilli := by
  rw [fires_eq, momentAfter]
  simp only [nanosPerMilli]
  omega

end Timers

end Measurement
