/-
Texts of instants.

An instant is written as a date and a time of day with a blank between them,
and with six places of the second when these are not all zero. The year has
four digits, or a sign and at least four digits outside 0 … 9999, and a leap
second is written as second 60.

More is read than is written: a `T` between date and time, a time without
seconds, a date alone for its midnight, a `Z` at the end, numbers of fewer
digits, blanks before a number. The five forms are tried one after the other,
each on the whole text. A form is a list of items and reading runs through the
items once, so what a form accepts can be read off its list.
-/
import Measurement.Time.Instant
import Measurement.Text.Split

set_option autoImplicit false

namespace Measurement.Time

open Measurement.Text

/-! ## 1. Writing -/

/-- The text of a year. -/
def writeYear (year : Int) : List Char :=
  if 0 ≤ year ∧ year < 10000 then padded 4 year.toNat
  else (if year < 0 then '-' else '+') :: padded 4 year.natAbs

/-- The text of a date. -/
def writeDate (d : Date) : List Char :=
  writeYear d.year ++ '-' :: padded 2 d.month ++ '-' :: padded 2 d.day

/-- The second of the minute as it is written: a leap second is number 60. -/
def writtenSecond (t : Instant) : Nat :=
  if t.isLeap then t.secondOfMinute + 1 else t.secondOfMinute

/-- The microseconds of the second, the leap second's own counted from its beginning. -/
def writtenMicros (t : Instant) : Nat := t.nano % nanosPerSecond / 1000

/-! ## 2. Forms -/

/-- One item of a form. -/
inductive Item where
  /-- A year: one to four digits, or a sign and any number of digits. -/
  | year
  | month
  | day
  | hour
  | minute
  | second
  /-- A point and digits of the second, of which nine count, or nothing. -/
  | fraction
  /-- A character as it stands. -/
  | mark (c : Char)
  /-- Any blanks, perhaps none. -/
  | gap
deriving DecidableEq, Repr

/-- The numbers that a form has given so far; a form that leaves out a part of the time of day
means zero. -/
structure Parts where
  year : Int
  month : Nat
  day : Nat
  hour : Nat
  minute : Nat
  second : Nat
  nano : Nat
deriving DecidableEq, Repr

/-- No part given. -/
def Parts.none : Parts := ⟨0, 0, 0, 0, 0, 0, 0⟩

/-- Year, month and day. -/
def dateItems : List Item := [.year, .mark '-', .month, .mark '-', .day]

/-- Hour and minute. -/
def minuteItems : List Item := [.hour, .mark ':', .minute]

/-- Hour, minute and second. -/
def secondItems : List Item := minuteItems ++ [.mark ':', .second, .fraction]

/-- The forms of an instant in the order in which they are tried (`TIME_FORMATS`). -/
def forms : List (List Item) := [
  dateItems ++ .gap :: secondItems,
  dateItems ++ .mark 'T' :: secondItems,
  dateItems ++ .gap :: minuteItems,
  dateItems ++ .mark 'T' :: minuteItems,
  dateItems]

/-! ## 3. Reading -/

/-- Takes one to `width` digits. -/
def takeNumber (width : Nat) (s : List Char) : Option (Nat × List Char) :=
  let ds := (s.take width).takeWhile Char.isDigit
  (digits? ds).map fun n => (n, s.drop ds.length)

/-- Takes a year. -/
def takeYear (s : List Char) : Option (Int × List Char) :=
  match trimStart s with
  | '-' :: r => (takeNumber r.length r).map fun p => (-(p.1 : Int), p.2)
  | '+' :: r => (takeNumber r.length r).map fun p => ((p.1 : Int), p.2)
  | r => (takeNumber 4 r).map fun p => ((p.1 : Int), p.2)

/-- Takes a number of one or two digits, blanks in front allowed. -/
def takePair (s : List Char) : Option (Nat × List Char) := takeNumber 2 (trimStart s)

/-- Takes a fraction of a second in nanoseconds; digits after the ninth do not count. -/
def takeFraction : List Char → Option (Nat × List Char)
  | '.' :: r =>
    let ds := r.takeWhile Char.isDigit
    (digits? (ds.take 9)).map fun n =>
      (n * Nat.pow 10 (9 - (ds.take 9).length), r.dropWhile Char.isDigit)
  | s => some (0, s)

/-- Reads one item. -/
def readItem (item : Item) (parts : Parts) (s : List Char) : Option (Parts × List Char) :=
  match item with
  | .year => (takeYear s).map fun p => ({ parts with year := p.1 }, p.2)
  | .month => (takePair s).map fun p => ({ parts with month := p.1 }, p.2)
  | .day => (takePair s).map fun p => ({ parts with day := p.1 }, p.2)
  | .hour => (takePair s).map fun p => ({ parts with hour := p.1 }, p.2)
  | .minute => (takePair s).map fun p => ({ parts with minute := p.1 }, p.2)
  | .second => (takePair s).map fun p => ({ parts with second := p.1 }, p.2)
  | .fraction => (takeFraction s).map fun p => ({ parts with nano := p.1 }, p.2)
  | .mark c =>
    match s with
    | d :: r => if d = c then some (parts, r) else none
    | [] => none
  | .gap => some (parts, trimStart s)

/-- Reads the items of a form one after the other. -/
def readItems : List Item → Parts → List Char → Option (Parts × List Char)
  | [], parts, s => some (parts, s)
  | item :: rest, parts, s =>
    (readItem item parts s).bind fun p => readItems rest p.1 p.2

/-- The instant that parts name. Second 60 is the leap second after second 59. -/
def Parts.instant? (p : Parts) : Option Instant :=
  if p.second = 60 then
    Instant.ofCivil? ⟨p.year, p.month, p.day⟩ p.hour p.minute 59 (nanosPerSecond + p.nano)
  else Instant.ofCivil? ⟨p.year, p.month, p.day⟩ p.hour p.minute p.second p.nano

/-- Reads a whole text by a form. -/
def readForm (form : List Item) (s : List Char) : Option Instant :=
  (readItems form .none s).bind fun p => if p.2.isEmpty then p.1.instant? else none

end Measurement.Time

namespace Measurement.Instant

open Measurement.Text Measurement.Time

/-- The text of an instant, down to the microsecond (`format_time`). -/
def write (t : Instant) : List Char :=
  let fraction := if t.nano / 1000 = 0 then [] else '.' :: padded 6 (writtenMicros t)
  writeDate t.date ++ ' ' :: padded 2 t.hour ++ ':' :: padded 2 t.minute
    ++ ':' :: padded 2 (writtenSecond t) ++ fraction

/-- The instant that a text denotes (`parse_time`): blanks around it and one `Z` at its end do not
count. -/
def read? (s : List Char) : Option Instant :=
  let bare := trim s
  let bare := (dropTail? ['Z'] bare).getD bare
  forms.findSome? fun form => readForm form bare

end Measurement.Instant
