/-
Texts of crontabs.

A crontab is six fields separated by blanks. A field is a list of items with
commas between them; an item is `*`, a value or a range, perhaps with a step
behind a slash, and the field admits the union of its items. A value with a
step above one runs to the top of the field (`parse_field`).

The written form of a field is `*` when it admits everything, `*/n` when it
admits every n-th value from its least one, and otherwise its maximal runs in
ascending order (`format_field`).
-/
import Measurement.Crontab.Basic
import Measurement.Fault
import Measurement.Text.Blank
import Measurement.Text.Split

set_option autoImplicit false

namespace Measurement.Crontab

open Measurement.Text

/-! ## 1. Items -/

/-- The values `first`, `first + step`, … up to `last`. -/
structure Item where
  first : Nat
  last : Nat
  step : Nat
deriving DecidableEq, Repr

/-- Whether an item admits a value. -/
def Item.admits (i : Item) (v : Nat) : Bool :=
  decide (i.first ≤ v ∧ v ≤ i.last) && (v - i.first) % i.step == 0

/-- The greatest number that a numeral in a crontab may denote. -/
def maxNumber : Nat := Nat.pow 2 32 - 1

/-- A value of a field. -/
def readValue (f : Field) (s : List Char) : Except FieldFault Nat :=
  match natural? maxNumber s with
  | none => .error (.notNumber (String.ofList s))
  | some v =>
    if v < f.least ∨ f.greatest < v then .error (.outside v f.least f.greatest) else .ok v

/-- A step. -/
def readStep (s : List Char) : Except FieldFault Nat :=
  match natural? maxNumber s with
  | none => .error (.notStep (String.ofList s))
  | some n => if n = 0 then .error .zeroStep else .ok n

/-- The bounds of an item, whose step is known. -/
def readBounds (f : Field) (s : List Char) (step : Nat) : Except FieldFault Item :=
  if s = ['*'] then .ok ⟨f.least, f.greatest, step⟩
  else match cut? ['-'] s with
    | some (a, b) => do
      let low ← readValue f a
      let high ← readValue f b
      if high < low then .error (.reversed low high) else .ok ⟨low, high, step⟩
    | none => do
      let v ← readValue f s
      -- A step behind a single value means every so many from there on.
      .ok ⟨v, if 1 < step then f.greatest else v, step⟩

/-- An item. -/
def readItem (f : Field) (s : List Char) : Except FieldFault Item :=
  match cut? ['/'] s with
  | some (bounds, step) => do
    let n ← readStep step
    readBounds f bounds n
  | none => readBounds f s 1

/-- A field (`parse_field`). -/
def readField (f : Field) (s : List Char) : Except FieldFault (Admitted f) := do
  let items ← (s.splitOnP (· == ',')).mapM (readItem f)
  .ok (Admitted.select f fun v => items.any fun i => i.admits v)

/-- A field, whose fault is named after it. -/
def readNamedField (f : Field) (s : List Char) : Except Fault (Admitted f) :=
  (readField f s).mapError (Fault.field f)

/-- The crontab of six fields. -/
def ofWords : List (List Char) → Except Fault Crontab
  | [seconds, minutes, hours, days, weekdays, months] => do
    .ok {
      seconds := ← readNamedField .seconds seconds
      minutes := ← readNamedField .minutes minutes
      hours := ← readNamedField .hours hours
      days := ← readNamedField .days days
      weekdays := ← readNamedField .weekdays weekdays
      months := ← readNamedField .months months }
  | ws => .error (.fieldCount ws.length)

/-- The crontab that a text denotes (`Crontab::parse`). -/
def read (s : List Char) : Except ReadFault Crontab :=
  (ofWords (words s)).mapError (.invalidCrontab (String.ofList s))

/-! ## 2. Writing -/

/-- The maximal runs of consecutive values of an ascending list. -/
def runs : List Nat → List (Nat × Nat)
  | [] => []
  | v :: rest =>
    match runs rest with
    | [] => [(v, v)]
    | (a, b) :: more => if a = v + 1 then (v, b) :: more else (v, v) :: (a, b) :: more

/-- The text of a run. -/
def writeRun (r : Nat × Nat) : List Char :=
  if r.1 < r.2 then decimal r.1 ++ '-' :: decimal r.2 else decimal r.1

/-- The values of a field at a distance from its least one that a step divides. -/
def everyNth (f : Field) (step : Nat) : List Nat :=
  f.range.filter fun v => (v - f.least) % step == 0

/-- The text of a field (`format_field`). -/
def writeField (f : Field) (values : List Nat) : List Char :=
  if values = f.range then ['*']
  -- The least step that gives the values is the one that is written.
  else match (List.range' 2 (f.greatest - f.least - 1)).find? fun n => values == everyNth f n with
    | some n => '*' :: '/' :: decimal n
    | none => [','].intercalate ((runs values).map writeRun)

/-- The text of a crontab. -/
def write (c : Crontab) : List Char :=
  [' '].intercalate (Field.all.map fun f => writeField f (c.values f))

end Measurement.Crontab
