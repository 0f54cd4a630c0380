/-
Crontabs: the seconds, minutes, hours, days, weekdays and months at which a
repeated scope runs.

A crontab admits an instant when each of its six fields admits the component of
the instant. A field is the list of the values that it admits, ascending and
within its bounds; that is kept by the type, so two fields that admit the same
values are equal. The word of 64 bits in which `Crontab` keeps a field stands in
Proofs/Crontab/Masks.
-/
import Measurement.Crontab.Field
import Measurement.Time.Instant

set_option autoImplicit false

namespace Measurement

open Measurement.Time

namespace Crontab

/-! ## 1. Fields -/

/-- The values that a field admits. -/
structure Admitted (f : Field) where
  /-- The values, ascending. -/
  values : List Nat
  /-- They are values of the field, in its order. -/
  ordered : values = f.range.filter fun v => decide (v ∈ values)
deriving DecidableEq

namespace Admitted

/-- The values of a field that pass a test. -/
def select (f : Field) (p : Nat → Bool) : Admitted f :=
  ⟨f.range.filter p, by
    apply List.filter_congr
    intro v hv
    by_cases h : p v = true
    · simp [h, hv]
    · simp [h]⟩

theorem mem_select {f : Field} {p : Nat → Bool} {v : Nat} :
    v ∈ (select f p).values ↔ (f.least ≤ v ∧ v ≤ f.greatest) ∧ p v = true := by
  simp [select, Field.mem_range]

/-- Fields that admit the same values are equal. -/
theorem ext_of_mem {f : Field} {a b : Admitted f} (h : ∀ v, v ∈ a.values ↔ v ∈ b.values) :
    a = b := by
  have hv : a.values = b.values := by
    rw [a.ordered, b.ordered]
    apply List.filter_congr
    intro v _
    simp [h v]
  cases a
  cases b
  simp only at hv
  subst hv
  rfl

/-- The least value admitted from `v` on. -/
def from? {f : Field} (a : Admitted f) (v : Nat) : Option Nat := a.values.find? (v ≤ ·)

end Admitted

end Crontab

/-! ## 2. Crontabs -/

/-- The values that each field admits. -/
structure Crontab where
  seconds : Crontab.Admitted .seconds
  minutes : Crontab.Admitted .minutes
  hours : Crontab.Admitted .hours
  days : Crontab.Admitted .days
  weekdays : Crontab.Admitted .weekdays
  months : Crontab.Admitted .months
deriving DecidableEq

namespace Crontab

/-- The values that a field admits, ascending (`Crontab::values`). -/
def values (c : Crontab) : Field → List Nat
  | .seconds => c.seconds.values
  | .minutes => c.minutes.values
  | .hours => c.hours.values
  | .days => c.days.values
  | .weekdays => c.weekdays.values
  | .months => c.months.values

/-- Whether a field admits a value (`Crontab::contains`). -/
def admits (c : Crontab) (f : Field) (v : Nat) : Bool := decide (v ∈ c.values f)

/-- The component of an instant that a field looks at (`CronField::of`). -/
def component (t : Instant) : Field → Nat
  | .seconds => t.secondOfMinute
  | .minutes => t.minute
  | .hours => t.hour
  | .days => t.date.day
  | .weekdays => weekday t.day
  | .months => t.date.month

/-- Whether every field admits its component of an instant (`Crontab::matches`). -/
def matchesAt (c : Crontab) (t : Instant) : Bool :=
  Field.all.all fun f => c.admits f (component t f)

end Crontab

end Measurement
