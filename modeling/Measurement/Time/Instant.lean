/-
Instants: points of Coordinated Universal Time within the calendar.

An instant is a day, a second of that day and the nanoseconds of that second.
A leap second is the second before it with 10⁹ nanoseconds or more, so that
23:59:60 is 23:59:59 and a second. It takes part in order and arithmetic as
follows: instants are ordered by day, second and nanoseconds; a difference
counts a leap second that lies between two times of day; a sum that stays
inside the leap second does so, and any other sum leaves it first.

Sums can leave the calendar, so adding a span gives an instant only where
there is one. The bounds are part of the type, and every instant has a date.
-/
import Measurement.Time.Calendar
import Measurement.Time.Span

set_option autoImplicit false

namespace Measurement

open Measurement.Time

/-- The nanoseconds of a second. -/
def nanosPerSecond : Nat := 1000000000

/-- The seconds of a day. -/
def secondsPerDay : Nat := 86400

/-- A point of Coordinated Universal Time. -/
structure Instant where
  /-- The day, counted from 1970-01-01. -/
  day : Int
  /-- The second of the day. -/
  second : Nat
  /-- The nanoseconds since that second began, 10⁹ and more in a leap second. -/
  nano : Nat
  firstDay_le : firstDay ≤ day
  le_lastDay : day ≤ lastDay
  second_lt : second < secondsPerDay
  nano_lt : nano < 2 * nanosPerSecond
deriving DecidableEq

namespace Instant

/-! ## 1. Making instants -/

/-- The instant with these parts, if it lies in the calendar. -/
def of? (day : Int) (second nano : Nat) : Option Instant :=
  if h : (firstDay ≤ day ∧ day ≤ lastDay) ∧ second < secondsPerDay ∧ nano < 2 * nanosPerSecond then
    some ⟨day, second, nano, h.1.1, h.1.2, h.2.1, h.2.2⟩
  else none

/-- 1970-01-01 00:00:00. -/
def epoch : Instant := ⟨0, 0, 0, by decide, by decide, by decide, by decide⟩

instance : Inhabited Instant := ⟨epoch⟩

/-- Whether an instant lies in a leap second. -/
def isLeap (t : Instant) : Bool := nanosPerSecond ≤ t.nano

/-- The seconds since the epoch, leap seconds not counted. -/
def unixSeconds (t : Instant) : Int := t.day * secondsPerDay + t.second

/-- The instant at which the second of `t` begins; a leap second does not begin a second of its
own. -/
def startOfSecond (t : Instant) : Instant := { t with nano := 0, nano_lt := by decide }

/-! ## 2. Order -/

/-- The place of an instant among all instants. -/
def place (t : Instant) : Int := t.unixSeconds * (2 * nanosPerSecond : Nat) + t.nano

instance : LT Instant := ⟨fun a b => a.place < b.place⟩
instance : LE Instant := ⟨fun a b => a.place ≤ b.place⟩
instance (a b : Instant) : Decidable (a < b) := inferInstanceAs (Decidable (a.place < b.place))
instance (a b : Instant) : Decidable (a ≤ b) := inferInstanceAs (Decidable (a.place ≤ b.place))

/-- The order of two instants. -/
def order (a b : Instant) : Ordering := compare a.place b.place

/-- The later of two instants. -/
def later (a b : Instant) : Instant := if a < b then b else a

/-! ## 3. Arithmetic -/

/-- The span from `b` to `a`. A leap second between their times of day counts as a second. -/
def since (a b : Instant) : Span :=
  let seconds : Int := a.unixSeconds - b.unixSeconds
  -- Only the times of day decide, whatever the days: there is no table of leap seconds.
  let leap : Int :=
    if b.second < a.second ∧ b.isLeap then 1
    else if a.second < b.second ∧ a.isLeap then -1
    else 0
  ⟨(seconds + leap) * nanosPerSecond + ((a.nano : Int) - b.nano)⟩

/-- The instant a number of nanoseconds after the beginning of a second, which is counted from the
epoch. -/
def ofUnix? (seconds nanos : Int) : Option Instant :=
  let s := seconds + nanos / nanosPerSecond
  of? (s / secondsPerDay) (s % secondsPerDay).toNat (nanos % nanosPerSecond).toNat

/-- The instant a span after another; none outside the calendar. -/
def add? (t : Instant) (d : Span) : Option Instant :=
  let seconds := d.nanos.tdiv nanosPerSecond
  let nanos := d.nanos.tmod nanosPerSecond
  if t.isLeap then
    let left := (t.nano : Int) - nanosPerSecond
    -- Forwards the leap second is left at its end, backwards at its beginning.
    if 0 < seconds ∨ (nanosPerSecond : Int) ≤ left + nanos then
      ofUnix? (t.unixSeconds + seconds) (left + nanos)
    else if seconds < 0 then ofUnix? (t.unixSeconds + 1 + seconds) (left + nanos)
    else of? t.day t.second ((t.nano : Int) + nanos).toNat
  else ofUnix? (t.unixSeconds + seconds) (t.nano + nanos)

/-! ## 4. The civil parts -/

/-- The date of an instant. -/
def date (t : Instant) : Date := dateOfDay t.day

/-- The year of an instant. -/
def year (t : Instant) : Int := t.date.year

/-- The hour of the day. -/
def hour (t : Instant) : Nat := t.second / 3600

/-- The minute of the hour. -/
def minute (t : Instant) : Nat := t.second / 60 % 60

/-- The second of the minute. -/
def secondOfMinute (t : Instant) : Nat := t.second % 60

/-- The instant with these civil parts; none if there is no such day or time. -/
def ofCivil? (d : Date) (hour minute second nano : Nat) : Option Instant :=
  if d.Exists ∧ firstYear ≤ d.year ∧ d.year ≤ lastYear ∧ hour < 24 ∧ minute < 60 ∧ second < 60 then
    of? (dayOfDate d) (hour * 3600 + minute * 60 + second) nano
  else none

/-! ## 5. Whole seconds -/

/-- The nanoseconds since the epoch fit 64 bits with sign from 1677 to 2262 only. -/
def inNanoRange (t : Instant) : Bool :=
  let n := t.unixSeconds * nanosPerSecond + t.nano
  decide (-(Nat.pow 2 63 : Int) ≤ n ∧ n < (Nat.pow 2 63 : Int))

/-- The instant without its part below a second, for instants whose nanoseconds since the epoch
fit 64 bits; any other instant is kept as it is. -/
def wholeSecond (t : Instant) : Instant :=
  if t.inNanoRange then
    -- Taken off as a span, so that a leap second becomes the beginning of itself.
    let n := t.unixSeconds * nanosPerSecond + t.nano
    (t.add? ⟨-(n % nanosPerSecond)⟩).getD t
  else t

end Instant

end Measurement
