/-
Runs of services in progress.

A run that has begun either has its outcome, waits for its interrupt, or counts
periods. The run that counts (`TickService::run`) adds a row, sleeps for a
period and goes on from the next tick, unless it was interrupted in the
meantime. A row that cannot be written fails the run, and a tick past the end of
the calendar breaks it off.
-/
import Measurement.Service.Basic
import Measurement.Time.Timeline

set_option autoImplicit false

namespace Measurement

/-- What a run comes to. -/
abbrev Outcome := Except ServiceFault Result

/-- A run that counts periods. -/
structure Ticking where
  /-- The rows so far. -/
  result : Result
  /-- The instant of the first row. -/
  started : Instant
  /-- The instant of the latest row. -/
  latest : Instant
  /-- The number of rows. -/
  rows : Nat
  period : Span
  /-- When the sleep is over. -/
  due : Nat
deriving DecidableEq

/-- A run in progress. -/
inductive Activity where
  /-- A specification was handed over, and the run has yet to begin. -/
  | handed (s : Specification)
  /-- The outcome is there. -/
  | finished (outcome : Outcome)
  /-- The run waits for its interrupt, and then reports rows for a specification. -/
  | waiting (s : Specification) (rows : List Cells)
  | ticking (t : Ticking)

namespace Result

/-- The result with the cells of a row. -/
def setRow (r : Result) (n : Nat) (cells : Cells) : Except StatementFault Result :=
  (cells.foldlM (fun (s : Statement) c => s.setCell c.1 n c.2) r.statement).map fun s => ⟨s⟩

/-- The result with rows from number `n` on. -/
def setRows (r : Result) (n : Nat) : List Cells → Except StatementFault Result
  | [] => .ok r
  | cells :: rest => do
    let r ← r.setRow n cells
    r.setRows (n + 1) rest

/-- The result with another scope. -/
def withScope (r : Result) (scope : Scope) : Result := ⟨{ r.statement with scope := scope }⟩

end Result

namespace Ticking

/-- The period of a scope, or a second if it has none that is positive. -/
def periodOf (scope : Scope) : Span :=
  match scope.period? with
  | some p => if .zero < p then p else .ofSeconds 1
  | none => .ofSeconds 1

/-- The result with the row of a tick. -/
def addRow (r : Result) (n : Nat) (tick : Instant) : Except StatementFault Result :=
  r.setRow n [("time", .time tick), ("packets", .natural (n.toUInt64 + 1))]

/-- The result of a run that ends now. -/
def finish (t : Ticking) : Result :=
  t.result.withScope (.range (.fixed t.started) (.fixed t.latest))

end Ticking

namespace Activity

/-- A run whose rows have been written, or failed to be. -/
def ofRows (r : Except StatementFault Result) : Activity := .finished (r.mapError .invalid)

/-- Starts to count periods (`TickService::run`). -/
def startTicking (s : Specification) (now : Reading) : Activity :=
  let period := Ticking.periodOf s.scope
  match Ticking.addRow (.ofSpecification s) 0 now.wall with
  | .error e => .finished (.error (.invalid e))
  | .ok r => .ticking ⟨r, now.wall, now.wall, 1, period, momentAfter now.moment period⟩

/-- What the sum of an instant and a span breaks off with at the end of the calendar. -/
def calendarPanic : String := "\x60DateTime + TimeDelta\x60 overflowed"

/-- Goes on after a sleep that was not interrupted. -/
def nextTick (t : Ticking) (m : Nat) : Activity :=
  match t.latest.add? t.period with
  | none => .finished (.error (.panicked calendarPanic))
  | some tick =>
    match Ticking.addRow t.result t.rows tick with
    | .error e => .finished (.error (.invalid e))
    -- Ticks are a period apart on the calendar however late the sleep ends.
    | .ok r => .ticking { t with
        result := r, latest := tick, rows := t.rows + 1, due := momentAfter m t.period }

/-- The run of a specification (`Service::run`). -/
def start (behaviour : Behaviour) (s : Specification) (now : Reading) : Activity :=
  match behaviour with
  | .clock =>
    ofRows (((Result.ofSpecification s).setRow 0 [("time", .time now.wall)]).map fun r =>
      r.withScope (.instant (.fixed now.wall)))
  | .tick => startTicking s now
  | .succeed rows => ofRows ((Result.ofSpecification s).setRows 0 rows)
  | .await rows => .waiting s rows
  | .fail message => .finished (.error (.failed message))
  | .panic message => .finished (.error (.panicked message))

/-- What a run does once its interrupt is raised. -/
def interrupted : Activity → Activity
  | waiting s rows => ofRows ((Result.ofSpecification s).setRows 0 rows)
  | ticking t => .finished (.ok t.finish)
  | a => a

/-- The moment at which a run goes on by itself. -/
def due? : Activity → Option Nat
  | ticking t => some t.due
  | _ => none

/-- What a run does when its sleep is over. -/
def wake (m : Nat) : Activity → Activity
  | ticking t => if t.due ≤ m then nextTick t m else ticking t
  | a => a

/-- The run, begun if it had yet to begin. -/
def begin (behaviour : Behaviour) (now : Reading) : Activity → Activity
  | handed s => start behaviour s now
  | a => a

/-- What a run does when it is its turn: the interrupt goes before the end of a sleep. -/
def goOn (behaviour : Behaviour) (raised : Bool) (now : Reading) (a : Activity) : Activity :=
  let a := a.begin behaviour now
  if raised then a.interrupted else a.wake now.moment

/-- Whether the outcome is there. -/
def isFinished : Activity → Bool
  | finished _ => true
  | _ => false

end Activity

end Measurement
