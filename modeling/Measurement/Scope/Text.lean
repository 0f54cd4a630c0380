/-
Texts of temporal scopes.

```text
now ... future / 1s                      a range with a period
2014-12-24 22:18:42 + 1m / 1s            a start and a duration
now                                      a single instant
repeat now ... future / 1h { now + 5m / 1s }
repeat now ... future cron 0 */15 * * * * { now + 5s }
```

A plain scope is cut at its last ` / `, and the rest at its first ` + ` or else
at its first ` ... `. A repeated scope is `repeat`, an outer scope with a
period or a crontab behind ` cron `, and between braces an inner scope that
starts `now`.
-/
import Measurement.Scope.Basic
import Measurement.Crontab.Text
import Measurement.Value

set_option autoImplicit false

namespace Measurement

open Measurement.Text

/-! ## 1. Bounds and spans -/

namespace Bound

/-- The bound that a text denotes (`TimeRef::parse`). -/
def read (s : List Char) : Except ReadFault Bound :=
  let bare := String.ofList (trim s)
  if bare = "past" then .ok past
  else if bare = "now" then .ok now
  else if bare = "future" then .ok future
  else (readInstant bare).map fixed

/-- The text of a bound. -/
def text : Bound → String
  | past => "past"
  | now => "now"
  | future => "future"
  | fixed t => t.text

end Bound

namespace Span

/-- The span that a text denotes. -/
def read (s : List Char) : Except ReadFault Span :=
  match read? s with
  | some d => .ok d
  | none => .error (.invalidDuration (String.ofList s))

/-- The text of a span. -/
def text (d : Span) : String := String.ofList d.write

end Span

/-! ## 2. Plain scopes -/

/-- A plain scope as it is written: start, extent and period. -/
structure PlainScope where
  start : Bound
  extent : Extent
  period : Option Span

namespace PlainScope

/-- What stands before a period. -/
def periodSign : List Char := " / ".toList

/-- What stands before a duration. -/
def durationSign : List Char := " + ".toList

/-- What stands before an end. -/
def rangeSign : List Char := " ... ".toList

/-- Reads a start and an extent. -/
def readBody (body : List Char) (period : Option Span) : Except ReadFault PlainScope :=
  match cut? durationSign body with
  | some (a, b) => do
    let start ← Bound.read a
    let d ← Span.read b
    .ok ⟨start, .lasting d, period⟩
  | none =>
    match cut? rangeSign body with
    | some (a, b) => do
      let start ← Bound.read a
      let last ← Bound.read b
      .ok ⟨start, .through last, period⟩
    | none => do
      let start ← Bound.read body
      .ok ⟨start, .point, period⟩

/-- Reads a plain scope (`parse_simple`). -/
def read (s : List Char) : Except ReadFault PlainScope := do
  let (body, period) ← match cutLast? periodSign s with
    | some (body, p) => (Span.read p).map fun d => (body, some d)
    | none => .ok (s, none)
  let body := trim body
  if body.isEmpty then .error (.invalidScope (String.ofList s) .missingStart)
  else readBody body period

end PlainScope

/-! ## 3. Scopes -/

namespace Scope

/-- The scope, if it breaks no rule. -/
def checked (s : Scope) (text : List Char) : Except ReadFault Scope :=
  match s.fault? with
  | some fault => .error (.invalidScope (String.ofList text) fault)
  | none => .ok s

/-- The inner scope between the braces of the text `whole`. -/
def readInner (s whole : List Char) : Except ReadFault Inner := do
  match dropTail? ['\x7d'] (trimEnd s) with
  | none => .error (.invalidScope (String.ofList whole) .innerScopeOpen)
  | some body =>
    let plain ← PlainScope.read (trim body)
    match plain.start, plain.extent with
    | .now, .point => .ok ⟨none, plain.period⟩
    | .now, .lasting d => .ok ⟨some d, plain.period⟩
    | _, _ => .error (.invalidScope (String.ofList whole) .innerScopeForm)

/-- Reads a repeated scope: what follows `repeat` in the text `whole`. -/
def readRepeated (s whole : List Char) : Except ReadFault Scope := do
  match cut? " \x7b ".toList s with
  | none => .error (.invalidScope (String.ofList whole) .noInnerScope)
  | some (outer, rest) =>
    let inner ← readInner rest whole
    let (outer, table) ← match cut? " cron ".toList outer with
      | some (outer, cron) => (Crontab.read cron).map fun c => (outer, some c)
      | none => .ok (outer, none)
    let plain ← PlainScope.read outer
    match table, plain.period with
    | some _, some _ => .error (.invalidScope (String.ofList whole) .periodAndCrontab)
    | none, none => .error (.invalidScope (String.ofList whole) .noRecurrence)
    | some c, none => checked ⟨plain.start, plain.extent, .cron c inner⟩ whole
    | none, some p => checked ⟨plain.start, plain.extent, .every p inner⟩ whole

/-- The scope that a text denotes (`When::parse`). -/
def read (s : String) : Except ReadFault Scope := do
  let bare := trim s.toList
  match dropLead? "repeat ".toList bare with
  | some rest => readRepeated rest bare
  | none =>
    let plain ← PlainScope.read bare
    checked ⟨plain.start, plain.extent, .once plain.period⟩ bare

/-- The text of an extent. -/
def extentText : Extent → String
  | .point => ""
  | .through last => " ... " ++ last.text
  | .lasting d => " + " ++ d.text

/-- The text of a period. -/
def periodText : Option Span → String
  | some p => " / " ++ p.text
  | none => ""

/-- The text of an inner scope. -/
def innerText (inner : Inner) : String :=
  let duration := match inner.duration with
    | some d => " + " ++ d.text
    | none => ""
  " \x7b now" ++ duration ++ periodText inner.period ++ " \x7d"

/-- The text of a scope. -/
def text (s : Scope) : String :=
  let plain := s.start.text ++ extentText s.extent ++ periodText s.period?
  match s.cadence with
  | .once _ => plain
  | .every _ inner => "repeat " ++ plain ++ innerText inner
  | .cron table inner =>
    "repeat " ++ plain ++ " cron " ++ String.ofList table.write ++ innerText inner

end Scope

end Measurement
