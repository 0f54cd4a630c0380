/-
Temporal scopes: when a measurement may run, should run or did run.

A scope has a start, an extent and a cadence. Its bounds can be open (`past`,
`future`) or relative (`now`), and every question about a scope is asked at a
reference instant, which is what `now` means. The cadence says at which period
a plain scope is measured, or how a repeated scope recurs, by a period or by a
crontab, and what one occurrence of it looks like.

The constructors check nothing; what a scope read from text satisfies is
`Scope.fault?`.
-/
import Measurement.Crontab.Basic
import Measurement.Fault

set_option autoImplicit false

namespace Measurement

/-- One bound of a scope (`TimeRef`). -/
inductive Bound where
  /-- Open into the past. -/
  | past
  /-- The reference instant. -/
  | now
  /-- Open into the future. -/
  | future
  /-- A fixed instant. -/
  | fixed (t : Instant)
deriving DecidableEq

namespace Bound

/-- The instant that a bound means (`TimeRef::resolve`); none if it is open. -/
def resolve (reference : Instant) : Bound → Option Instant
  | past | future => none
  | now => some reference
  | fixed t => some t

/-- Whether a bound is a fixed instant. -/
def isFixed : Bound → Bool
  | fixed _ => true
  | _ => false

end Bound

/-- How far a scope extends from its start. -/
inductive Extent where
  /-- Not at all. -/
  | point
  /-- To a bound. -/
  | through (last : Bound)
  /-- For a span. -/
  | lasting (d : Span)
deriving DecidableEq

/-- Whether an extent is a span. -/
def Extent.isLasting : Extent → Bool
  | lasting _ => true
  | _ => false

/-- What one occurrence of a repeated scope looks like (`Repetition`); it starts when it is due. -/
structure Inner where
  duration : Option Span
  period : Option Span
deriving DecidableEq

/-- How often a scope is measured. -/
inductive Cadence where
  /-- Once, perhaps at a period. -/
  | once (period : Option Span)
  /-- One occurrence in every period. -/
  | every (period : Span) (inner : Inner)
  /-- One occurrence at every instant that a crontab admits. -/
  | cron (table : Crontab) (inner : Inner)
deriving DecidableEq

/-- A temporal scope (`When`). -/
structure Scope where
  start : Bound
  extent : Extent
  cadence : Cadence
deriving DecidableEq

namespace Scope

/-! ## 1. Making scopes -/

/-- The scope of a single instant. -/
def instant (start : Bound) : Scope := ⟨start, .point, .once none⟩

/-- The scope between two bounds. -/
def range (start last : Bound) : Scope := ⟨start, .through last, .once none⟩

/-- The scope of a span from a start. -/
def lasting (start : Bound) (d : Span) : Scope := ⟨start, .lasting d, .once none⟩

/-- `now ... future`, the scope of a statement that names none. -/
def nowToFuture : Scope := range .now .future

/-- `past ... future`. -/
def infinite : Scope := range .past .future

/-- `now`. -/
def current : Scope := instant .now

instance : Inhabited Scope := ⟨nowToFuture⟩

/-- The scope with another period (`with_period`). A crontab leaves no room for one. -/
def withPeriod (s : Scope) (period : Span) : Scope :=
  { s with cadence := match s.cadence with
      | .once _ => .once (some period)
      | .every _ inner => .every period inner
      | .cron table inner => .cron table inner }

/-! ## 2. Parts -/

/-- The bound at which a scope ends, if it has one. -/
def last? (s : Scope) : Option Bound :=
  match s.extent with
  | .through last => some last
  | _ => none

/-- The period of a scope: that at which it is measured, or that at which it recurs. -/
def period? (s : Scope) : Option Span :=
  match s.cadence with
  | .once period => period
  | .every period _ => some period
  | .cron _ _ => none

/-- The crontab by which a scope recurs. -/
def crontab? (s : Scope) : Option Crontab :=
  match s.cadence with
  | .cron table _ => some table
  | _ => none

/-- What one occurrence of a repeated scope looks like. -/
def inner? (s : Scope) : Option Inner :=
  match s.cadence with
  | .once _ => none
  | .every _ inner | .cron _ inner => some inner

/-- Whether a scope recurs. -/
def isRepeated (s : Scope) : Bool := s.inner?.isSome

/-- The period at which measurements are taken, that of the occurrences if the scope recurs
(`effective_period`). -/
def effectivePeriod? (s : Scope) : Option Span :=
  match s.inner? with
  | some inner => inner.period
  | none => s.period?

/-- Whether a scope starts at the reference instant. -/
def isImmediate (s : Scope) : Bool := s.start == .now

/-- Whether a scope ends in the future. -/
def isForever (s : Scope) : Bool := s.last? == some .future

/-- Whether a scope is `past ... now`. -/
def isPast (s : Scope) : Bool := s.start == .past && s.last? == some .now

/-- Whether a scope is `now ... future`. -/
def isFuture (s : Scope) : Bool := s.start == .now && s.last? == some .future

/-- Whether a scope is `past ... future`. -/
def isInfinite (s : Scope) : Bool := s.start == .past && s.last? == some .future

/-- Whether a scope is plain and its bounds are fixed instants (`is_definite`). -/
def isDefinite (s : Scope) : Bool :=
  !s.isRepeated && s.start.isFixed && (s.last?.all Bound.isFixed)

/-- Whether a scope is a single instant (`is_singleton`). -/
def isSingleton (s : Scope) : Bool := s.extent == .point

/-- What is wrong with a plain scope, or with the outer part of a repeated one (`When::check`). -/
def fault? (s : Scope) : Option ScopeFault :=
  if s.start = .future then some .startsInFuture
  else if s.last? = some .past then some .endsInPast
  else if s.extent.isLasting ∧ s.start = .past then some .durationFromPast
  else match s.period? with
    | some p => if p ≤ .zero then some .periodNotPositive else none
    | none => none

/-! ## 3. A scope at a reference instant -/

/-- The instant at which a scope starts; none if it is open into the past. -/
def startAt (s : Scope) (reference : Instant) : Option Instant := s.start.resolve reference

/-- The instant at which a scope ends; none if it is open into the future. A single instant ends
where it starts, except as the outer part of a repeated scope, which then never ends. -/
def lastAt (s : Scope) (reference : Instant) : Option Instant :=
  match s.extent with
  | .through last => last.resolve reference
  | .lasting d => (s.startAt reference).bind fun t => t.add? d
  | .point => if s.isRepeated then none else s.startAt reference

/-- The length of a scope (`When::duration`); none if it is not bounded. -/
def length? (s : Scope) (reference : Instant) : Option Span :=
  match s.extent, s.startAt reference, s.lastAt reference with
  | .lasting d, _, _ => some d
  | _, some a, some b => some (b.since a)
  | _, _, _ => none

/-- The span, or no time if it is negative (`to_std`). -/
def untilThen (d : Span) : Span := if d < .zero then .zero else d

/-- The delays until a scope starts and ends (`timer_delays`).

A scope under way starts at once, and one that has ended has no delays. The delay until the end is
absent also for a single instant and for a scope without end. -/
def delays (s : Scope) (reference : Instant) : Option Span × Option Span :=
  let toStart := match s.startAt reference with
    | some t => t.since reference
    | none => .zero
  -- A single instant is over as soon as it is past, and has no end to wait for.
  if s.isSingleton && !s.isRepeated then
    if toStart < .zero then (none, none) else (some (untilThen toStart), none)
  else match s.lastAt reference with
    | some t =>
      if t < reference then (none, none)
      else (some (untilThen toStart), some (untilThen (t.since reference)))
    | none => (some (untilThen toStart), none)

/-- Whether a scope has ended (`is_expired`). -/
def isExpired (s : Scope) (reference : Instant) : Bool := (s.delays reference).1.isNone

/-- How far an instant lies outside a scope (`sort_scope`): negative before its start, positive
after its end, no time within. -/
def distance (s : Scope) (t reference : Instant) : Span :=
  match s.startAt reference, s.lastAt reference with
  | some a, some b => if t < a then t.since a else if b < t then t.since b else .zero
  | some a, none => if t < a then t.since a else .zero
  | none, some b => if b < t then t.since b else .zero
  | none, none => .zero

/-- Whether an instant lies in a scope (`in_scope`). -/
def contains (s : Scope) (t reference : Instant) : Bool := (s.distance t reference).nanos == 0

/-- Whether a scope can be served by a capability with the scope `offer` (`follows`): its period is
not coarser, and its start or its end lies in the offer. A scope without both is served only by
another such scope. -/
def follows (s offer : Scope) (reference : Instant) : Bool :=
  let tooCoarse := match s.effectivePeriod?, offer.period? with
    | some mine, some theirs => decide (theirs < mine)
    | _, _ => false
  let within (t : Option Instant) : Bool := t.any fun t => offer.contains t reference
  if tooCoarse then false
  else match s.startAt reference, s.lastAt reference with
    | none, none =>
      (offer.startAt reference).isNone && (offer.lastAt reference).isNone
    -- One bound within the offer is enough: a scope may go on where the offer ends.
    | a, b => within a || within b

end Scope

end Measurement
