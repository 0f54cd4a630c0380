/-
Spans of time, and their text.

A span is a signed number of nanoseconds. Its text counts days, hours, minutes
and seconds, in that order, each at most once (`1d2h`, `90s`); what is below a
second is not written, and a span below zero is written as none. The written
form uses each unit only for what the larger ones leave, so it is canonical:
`90s` is written as `1m30s`.

A span read from text is at most `maxSeconds`, the whole seconds of 2⁶³ − 1
milliseconds. The terms are never negative, so only the total has to be
compared with the bound.
-/
import Measurement.Text.Blank
import Measurement.Text.Numeral

set_option autoImplicit false

namespace Measurement

open Measurement.Text

/-- A signed length of time. -/
structure Span where
  /-- The length in nanoseconds. -/
  nanos : Int
deriving DecidableEq, Repr

namespace Span

/-! ## 1. Lengths -/

/-- No time at all. -/
def zero : Span := ⟨0⟩

/-- A number of seconds. -/
def ofSeconds (n : Int) : Span := ⟨n * 1000000000⟩

/-- A number of milliseconds. -/
def ofMillis (n : Int) : Span := ⟨n * 1000000⟩

/-- The whole milliseconds, towards zero. -/
def wholeMillis (d : Span) : Int := d.nanos.tdiv 1000000

/-- The whole seconds, towards zero. -/
def wholeSeconds (d : Span) : Int := d.nanos.tdiv 1000000000

/-- The length, if it is not negative. -/
def length? (d : Span) : Option Nat := if 0 ≤ d.nanos then some d.nanos.toNat else none

instance : LT Span := ⟨fun a b => a.nanos < b.nanos⟩
instance : LE Span := ⟨fun a b => a.nanos ≤ b.nanos⟩
instance (a b : Span) : Decidable (a < b) := inferInstanceAs (Decidable (a.nanos < b.nanos))
instance (a b : Span) : Decidable (a ≤ b) := inferInstanceAs (Decidable (a.nanos ≤ b.nanos))

/-! ## 2. Text -/

/-- The units of a written span with their seconds, from the largest to the smallest. -/
def units : List (Char × Nat) := [('d', 86400), ('h', 3600), ('m', 60), ('s', 1)]

/-- The greatest number of seconds that a text may denote. -/
def maxSeconds : Nat := (Nat.pow 2 63 - 1) / 1000

/-- The total seconds of a row of terms, each a number and a unit. A unit that the next term does
not use is passed over, so the terms keep the order of the units and use each at most once. -/
def readTerms : List (Char × Nat) → List Char → Option Nat
  | _, [] => some 0
  | [], _ :: _ => none
  | (unit, seconds) :: smaller, s =>
    match digits? (s.takeWhile Char.isDigit), s.dropWhile Char.isDigit with
    | some n, c :: rest =>
      if c = unit then (readTerms smaller rest).map (n * seconds + ·) else readTerms smaller s
    | _, _ => none

/-- The span that a text denotes (`parse_duration`). -/
def read? (s : List Char) : Option Span :=
  let bare := trim s
  if bare.isEmpty then none
  else (readTerms units bare).bind fun n =>
    if n ≤ maxSeconds then some (ofSeconds n) else none

/-- The terms of a number of seconds, those that are zero left out. -/
def writeTerms : List (Char × Nat) → Nat → List Char
  | [], _ => []
  | (c, seconds) :: smaller, n =>
    let rest := writeTerms smaller (n % seconds)
    if n / seconds = 0 then rest else decimal (n / seconds) ++ c :: rest

/-- The text of a span (`format_duration`). -/
def write (d : Span) : List Char :=
  let n := d.wholeSeconds.toNat
  if n = 0 then ['0', 's'] else writeTerms units n

end Span

end Measurement
