/-
The six fields of a crontab, and what can be wrong with the text of one.
-/
import Measurement.Text.Quoted

set_option autoImplicit false

namespace Measurement.Crontab

open Measurement.Text

/-- A field of a crontab (`CronField`). -/
inductive Field where
  | seconds
  | minutes
  | hours
  | days
  /-- Days of the week, Monday being 0. -/
  | weekdays
  | months
deriving DecidableEq, Repr

namespace Field

/-- The fields in the order of the text. -/
def all : List Field := [seconds, minutes, hours, days, weekdays, months]

/-- The name of a field in messages. -/
def name : Field → String
  | seconds => "seconds"
  | minutes => "minutes"
  | hours => "hours"
  | days => "days"
  | weekdays => "weekdays"
  | months => "months"

/-- The least value of a field. -/
def least : Field → Nat
  | days | months => 1
  | _ => 0

/-- The greatest value of a field. -/
def greatest : Field → Nat
  | seconds | minutes => 59
  | hours => 23
  | days => 31
  | weekdays => 6
  | months => 12

/-- The values of a field, ascending. -/
def range (f : Field) : List Nat := List.range' f.least (f.greatest + 1 - f.least)

theorem mem_range {f : Field} {v : Nat} : v ∈ f.range ↔ f.least ≤ v ∧ v ≤ f.greatest := by
  cases f <;> simp only [range, least, greatest, List.mem_range'_1] <;> omega

end Field

/-- What can be wrong with the text of a field. -/
inductive FieldFault where
  /-- A value is not a numeral. -/
  | notNumber (text : String)
  /-- A value is not one of the field. -/
  | outside (value least greatest : Nat)
  /-- A step is not a numeral. -/
  | notStep (text : String)
  /-- A step is zero. -/
  | zeroStep
  /-- A range ends before it starts. -/
  | reversed (low high : Nat)
deriving DecidableEq, Repr

/-- The wording of a fault of a field. -/
def FieldFault.message : FieldFault → String
  | notNumber text => quoted text ++ " is not a number"
  | outside value least greatest => s!"{value} is outside {least}-{greatest}"
  | notStep text => quoted text ++ " is not a step"
  | zeroStep => "step must be positive"
  | reversed low high => s!"range {low}-{high} is reversed"

/-- What can be wrong with the text of a crontab. -/
inductive Fault where
  /-- The number of fields is not six. -/
  | fieldCount (found : Nat)
  /-- A field is wrong. -/
  | field (f : Field) (fault : FieldFault)
deriving DecidableEq, Repr

/-- The wording of a fault of a crontab. -/
def Fault.message : Fault → String
  | fieldCount found => s!"expected {Field.all.length} fields, found {found}"
  | field f fault => f.name ++ ": " ++ fault.message

end Measurement.Crontab
