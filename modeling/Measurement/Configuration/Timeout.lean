/-
Lengths of time as they are written in a configuration.

```text
5s      1h 30m      90 s      1.5h      250 milliseconds is not a unit, 250ms is
```

A length is one or more numbers, each with its unit behind it. The units add
up, in any order and as often as they come. A number may have a fraction, if
that makes whole nanoseconds, or whole seconds for hours and longer units;
nothing is rounded, and nanoseconds take no fraction at all. A month has 30.44
days and a year 365.25. Every number and product has to fit 64 bits.
-/
import Measurement.Text.Blank
import Measurement.Time.Span

set_option autoImplicit false

namespace Measurement.Timeout

open Measurement.Text

/-- The largest number of 64 bits. -/
def largest : Nat := Nat.pow 2 64 - 1

/-- A number, if it fits 64 bits. -/
def fitting (n : Nat) : Option Nat := if n ≤ largest then some n else none

/-! ## 1. Units -/

/-- What a unit is worth. -/
inductive Unit where
  /-- So many nanoseconds, less than a second. -/
  | nanos (n : Nat)
  /-- So many seconds. A fraction is counted in nanoseconds if it is `fine`. -/
  | seconds (n : Nat) (fine : Bool)
deriving DecidableEq

/-- The units and their names. -/
def units : List (List String × Unit) :=
  [(["nanos", "nsec", "ns"], .nanos 1),
   (["usec", "us", "µs"], .nanos 1000),
   (["millis", "msec", "ms"], .nanos 1000000),
   (["seconds", "second", "secs", "sec", "s"], .seconds 1 true),
   (["minutes", "minute", "min", "mins", "m"], .seconds 60 true),
   (["hours", "hour", "hrs", "hr", "h"], .seconds 3600 false),
   (["days", "day", "d"], .seconds 86400 false),
   (["weeks", "week", "wks", "wk", "w"], .seconds 604800 false),
   (["months", "month", "M"], .seconds 2630016 false),
   (["years", "year", "yrs", "yr", "y"], .seconds 31557600 false)]

/-- The unit with a name. -/
def unit? (name : List Char) : Option Unit :=
  (units.find? fun u => u.1.contains (String.ofList name)).map (·.2)

/-- A fraction below one, with a power of ten as its denominator. -/
structure Fraction where
  numerator : Nat
  denominator : Nat
deriving DecidableEq

/-- A fraction of an amount, if that is whole. -/
def Fraction.of? (f : Fraction) (amount : Nat) : Option Nat := do
  let product ← fitting (f.numerator * amount)
  if product % f.denominator = 0 then some (product / f.denominator) else none

/-- A length in seconds and nanoseconds, fewer than a second of the latter. -/
structure Length where
  seconds : Nat
  nanos : Nat
deriving DecidableEq

/-- The length with more seconds and nanoseconds. -/
def Length.add? (x : Length) (seconds nanos : Nat) : Option Length := do
  -- Whole seconds among the nanoseconds go over to the seconds, which have to hold them.
  let nanos ← fitting (x.nanos + nanos)
  let seconds ← fitting (x.seconds + seconds + nanos / 1000000000)
  some ⟨seconds, nanos % 1000000000⟩

/-- The length with a number of units more. -/
def Length.addUnits? (x : Length) (u : Unit) (n : Nat) (f : Option Fraction) : Option Length :=
  match u with
  | .nanos worth => do
    let x ← x.add? 0 (← fitting (n * worth))
    match f with
    -- Not even an empty fraction goes with nanoseconds.
    | some f => if worth = 1 then none else (f.of? worth).bind fun nanos => x.add? 0 nanos
    | none => some x
  | .seconds worth fine => do
    let x ← x.add? (← fitting (n * worth)) 0
    match f with
    | some f =>
      if fine then (f.of? (worth * 1000000000)).bind fun nanos => x.add? 0 nanos
      else (f.of? worth).bind fun seconds => x.add? seconds 0
    | none => some x

/-! ## 2. Texts -/

/-- A character of the name of a unit. -/
def isUnitChar (c : Char) : Bool := c.isAlpha || c == 'µ'

/-- The digits at the head of a text, with the blanks among and behind them left out, and what
follows. -/
def takeDigits : List Char → List Char × List Char
  | [] => ([], [])
  | c :: r =>
    if c.isDigit then (c :: (takeDigits r).1, (takeDigits r).2)
    else if isBlank c then takeDigits r
    else ([], c :: r)

/-- The number that digits stand for, if it fits 64 bits. -/
def number? (digits : List Char) : Option Nat := fitting (Nat.ofDigitChars 10 digits 0)

/-- Takes the fraction behind a point. -/
def takeFraction (s : List Char) : Option (Fraction × List Char) :=
  let (digits, r) := takeDigits s
  if digits.isEmpty then none
  else do
    let numerator ← number? digits
    let denominator ← fitting (Nat.pow 10 digits.length)
    some (⟨numerator, denominator⟩, r)

/-- Takes a number with its unit, which starts with a digit. -/
def takePart (s : List Char) : Option (Nat × Option Fraction × Unit × List Char) := do
  let (digits, r) := takeDigits s
  if digits.isEmpty then none
  let n ← number? digits
  let (f, r) ← match r with
    | '.' :: r => (takeFraction r).map fun p => (some p.1, p.2)
    | r => some (none, r)
  let u ← unit? (r.takeWhile isUnitChar)
  some (n, f, u, r.dropWhile isUnitChar)

/-- Adds up the parts of a text, at most `fuel` of them. -/
def sumWithin : Nat → Length → List Char → Option Length
  | 0, _, _ => none
  | fuel + 1, x, s => do
    let (n, f, u, r) ← takePart s
    let x ← x.addUnits? u n f
    match r with
    | [] => some x
    | c :: _ =>
      if c.isDigit then sumWithin fuel x r
      else if isBlank c then
        let r := trimStart r
        if r.isEmpty then some x
        else if r.head?.any Char.isDigit then sumWithin fuel x r
        else none
      else none

/-- The span that a text denotes. A bare zero needs no unit. -/
def read? (s : String) : Option Span :=
  if s = "0" then some .zero
  else
    let bare := trimStart s.toList
    if bare.head?.any Char.isDigit then
      (sumWithin (bare.length + 1) ⟨0, 0⟩ bare).map fun x =>
        ⟨(x.seconds * 1000000000 + x.nanos : Nat)⟩
    else none

end Measurement.Timeout
