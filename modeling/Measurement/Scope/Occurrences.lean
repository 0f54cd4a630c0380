/-
The occurrences of a temporal scope, one after the other.

A repeated scope has one occurrence at every tick from the reference instant
on, until its outer end. The ticks of a period are the multiples of the period
from the start of the scope, or from the reference instant if it has no start;
those of a crontab are the seconds that it admits. A plain scope occurs once,
as itself.

A cursor (`Cursor`) holds the tick that is due and knows how to find the one
after it. The cursor looks one tick ahead, so it meets the end of the calendar
when it yields the last occurrence before it.
-/
import Measurement.Scope.Basic
import Measurement.Crontab.Search

set_option autoImplicit false

namespace Measurement

/-- How the ticks of a series follow one another (`Step`). -/
inductive Stride where
  /-- At a distance. -/
  | period (d : Span)
  /-- At the instants that a crontab admits. -/
  | cron (table : Crontab)
deriving DecidableEq

/-- The ticks of a repeated scope that are still to come (`Cursor`). -/
structure Series where
  stride : Stride
  /-- The next tick, if there is one. -/
  due : Option Instant
  /-- The end of the scope, if it has one. -/
  last : Option Instant
  inner : Inner
deriving DecidableEq

/-- The occurrences of a scope that are still to come. -/
inductive Occurrences where
  /-- No more. -/
  | done
  /-- A plain scope, which occurs once. -/
  | single (s : Scope)
  | series (s : Series)
deriving DecidableEq

namespace Series

/-- The first tick of a period that is not before `t`, counted in whole milliseconds from the anchor
(`first_tick`). -/
def firstTick (anchor t : Instant) (period : Span) : Option Instant :=
  let step := period.wholeMillis
  if step ≤ 0 then none
  else
    -- Rounded up, so that the first tick is not past.
    let elapsed := max 0 (t.since anchor).wholeMillis
    anchor.add? (.ofMillis ((elapsed + step - 1) / step * step))

/-- The tick after another. -/
def following (stride : Stride) (tick : Instant) : Except CalendarEnd (Option Instant) :=
  match stride with
  | .period d => .ok (tick.add? d)
  | .cron table =>
    -- A crontab admits whole seconds, so the next one is the first that can follow.
    match tick.add? (.ofSeconds 1) with
    | some t => table.next t
    | none => .error .passed

/-- The occurrence at a tick. -/
def occurrence (inner : Inner) (tick : Instant) : Scope :=
  ⟨.fixed tick, match inner.duration with
    | some d => .lasting d
    | none => .point, .once inner.period⟩

/-- The next occurrence and the ticks after it; none after the end. -/
def next (s : Series) : Except CalendarEnd (Option (Scope × Series)) :=
  match s.due with
  | none => .ok none
  | some tick =>
    if s.last.any fun last => last < tick then .ok none
    else do
      let due ← following s.stride tick
      .ok (some (occurrence s.inner tick, { s with due := due }))

end Series

namespace Occurrences

/-- The occurrences of a scope from a reference instant on (`Occurrences::new`). -/
def ofScope (s : Scope) (t : Instant) : Except CalendarEnd Occurrences :=
  let anchor := (s.startAt t).getD t
  let start := anchor.later t
  match s.cadence with
  | .once _ => .ok (.single s)
  | .every period inner =>
    .ok (.series ⟨.period period, Series.firstTick anchor start period, s.lastAt t, inner⟩)
  | .cron table inner => do
    let due ← table.next start
    .ok (.series ⟨.cron table, due, s.lastAt t, inner⟩)

/-- The next occurrence and those after it. -/
def next : Occurrences → Except CalendarEnd (Option (Scope × Occurrences))
  | done => .ok none
  | single s => .ok (some (s, done))
  | series s => do
    match ← s.next with
    | some (occurrence, rest) => .ok (some (occurrence, series rest))
    | none => .ok none

/-- The first occurrences, at most `n` of them. -/
def take : Nat → Occurrences → Except CalendarEnd (List Scope)
  | 0, _ => .ok []
  | n + 1, os => do
    match ← os.next with
    | some (s, rest) => do
      let more ← take n rest
      .ok (s :: more)
    | none => .ok []

end Occurrences

end Measurement
