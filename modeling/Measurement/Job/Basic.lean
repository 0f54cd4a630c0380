/-
Jobs: executions of specifications against services.

A query runs at once. The job of a plain scope starts when its scope does
(`run_single`), and that of a repeated scope runs once for every occurrence, one
after the other, until there are no more or it is interrupted (`run_series`). A
timer interrupts the job at the end of its scope (`Job::schedule`), and another
one each run of a series at the end of its occurrence (`occurrence_timer`).

What happens to a job comes as events: its timers go off, its run returns, a
caller interrupts it. Events say what happened and not when, so what holds of
all events holds however the timers, the runs and the callers interleave; when
the timers are due is part of the job.
-/
import Measurement.Job.Progress
import Measurement.Scope.Occurrences
import Measurement.Service.Activity

set_option autoImplicit false

namespace Measurement

/-- The occurrences of a series that are still to come. -/
structure Course where
  /-- The instant at which the series was scheduled. -/
  origin : Instant
  /-- The moment of that instant. -/
  base : Nat
  rest : Occurrences
deriving DecidableEq

namespace Course

/-- The delay from the origin of a series to the start of an occurrence, if it is not past. -/
def delay (c : Course) (occurrence : Scope) : Span :=
  match occurrence.startAt c.origin with
  | some t => Scope.untilThen (t.since c.origin)
  | none => .zero

/-- When an occurrence ends, counted from its start: the delay until the interrupt of its run. -/
def length? (c : Course) (occurrence : Scope) : Option Span :=
  (occurrence.delays ((occurrence.startAt c.origin).getD c.origin)).2

end Course

/-- One run in a series. -/
structure Turn where
  /-- Whether the interrupt of the run has been raised. -/
  interrupted : Bool
  /-- When the occurrence ends, counted from the beginning of the run. -/
  due : Option Nat
  course : Course
deriving DecidableEq

/-- What a job is about to do. -/
inductive Task where
  /-- Nothing: it has not been scheduled, or it is at its end. -/
  | idle
  /-- To start when its scope does. -/
  | starting (due : Nat)
  /-- To wait for its run. -/
  | running (started : Instant)
  /-- To begin a series that was scheduled at an instant, and at a moment. -/
  | opening (origin : Instant) (base : Nat)
  /-- To start the next run of a series. -/
  | awaiting (occurrence : Scope) (due : Nat) (course : Course)
  /-- To wait for the run of an occurrence. -/
  | inTurn (started : Instant) (turn : Turn)
deriving DecidableEq

/-- One execution of a specification against a service. -/
structure Job where
  service : Service
  specification : Specification
  progress : Progress
  /-- Whether the interrupt of the job has been raised. -/
  interrupted : Bool
  task : Task
  /-- When the scope ends. -/
  ends : Option Nat
  /-- The specifications that were handed to the service, the oldest first. -/
  handed : List Specification
deriving DecidableEq

/-- What happens to a job. -/
inductive Job.Event where
  /-- A caller raises the interrupt. -/
  | interrupt
  /-- The scope ends. -/
  | scopeEnds
  /-- The interrupt of the run of an occurrence is raised. -/
  | turnEnds
  /-- The wait for a start is over, or was interrupted. -/
  | wakes
  /-- The run has an outcome. -/
  | returns (outcome : Outcome)

namespace Job

/-- What a job fails with whose scope has ended before it was scheduled (`EXPIRED`). -/
def expiredText : String := "specification temporal scope has already ended"

/-- The job of a specification that is yet to be scheduled (`Job::new`). -/
def make (service : Service) (s : Specification) : Job :=
  ⟨service, s, .initial, false, .idle, none, []⟩

/-- The token of a job is that of its specification. -/
def token (j : Job) : String := j.specification.token

/-- The receipt of a job is that for its specification. -/
def receipt (j : Job) : Receipt := .ofSpecification j.specification

/-- Whether a job is at its end. -/
def isFinished (j : Job) : Bool := j.progress.isFinished

/-- The reply of a job (`get_reply`). -/
def reply (j : Job) : Message := j.progress.reply j.receipt j.specification.scope.isRepeated

/-- The job after a caller got its reply. -/
def poll (j : Job) : Job := { j with progress := j.progress.poll }

/-! ## 1. Ends -/

/-- The job that fails. -/
def fail (j : Job) (message : String) : Job :=
  { j with progress := j.progress.fail j.token message, task := .idle }

/-- The series that has run its course. -/
def finish (j : Job) : Job :=
  { j with progress := j.progress.transition .completed, task := .idle }

/-- A result as a job reports it: with the token of the job and a definite scope. -/
def stamp (j : Job) (started : Instant) (now : Reading) (r : Result) : Result :=
  let r : Result := ⟨r.statement.withToken j.token⟩
  -- A service that says when it measured knows best.
  if r.statement.scope.isDefinite then r
  else r.withScope (.range (.fixed started) (.fixed now.wall))

/-! ## 2. Starts -/

/-- Goes on to the next occurrence of a series, or ends it. A series that meets the end of the
calendar stops where it is. -/
def proceed (j : Job) (c : Course) : Job :=
  match c.rest.next with
  | .error _ => { j with task := .idle }
  | .ok none => j.finish
  | .ok (some (occurrence, rest)) =>
    let due := momentAfter c.base (c.delay occurrence)
    { j with task := .awaiting occurrence due { c with rest := rest } }

/-- Begins a series (`run_series`). -/
def openSeries (j : Job) (origin : Instant) (base : Nat) : Job :=
  match Occurrences.ofScope j.specification.scope origin with
  | .error _ => { j with task := .idle }
  | .ok occurrences => j.proceed ⟨origin, base, occurrences⟩

/-- Hands a specification to the service, if its capability accepts it (`execute`). -/
def hand (j : Job) (s : Specification) (task : Task) : Job :=
  match j.service.capability.accepts s with
  | .error e => j.fail e.message
  | .ok _ =>
    { j with
      progress := j.progress.transition .running, task := task, handed := j.handed ++ [s] }

/-- Arms the timers of a job and starts its task, unless its scope has ended. -/
def arm [Timers] (j : Job) (now : Reading) : Job :=
  let scope := j.specification.scope
  let scheduled := { j with progress := j.progress.transition .scheduled }
  if j.specification.statement.isQuery then { scheduled with task := .starting now.moment }
  else match scope.delays now.wall with
    | (none, _) => j.fail expiredText
    | (some start, last) =>
      let armed := { scheduled with ends := last.map (Timers.fires now.moment) }
      { armed with task :=
          if scope.isRepeated then .opening now.wall now.moment
          else .starting (Timers.fires now.moment start) }

/-- Schedules a job (`Job::schedule`). The call looks whether the job is pending, and if it is arms
the timers. The progress is free for others in between; here the second step follows the first at
once. -/
def schedule [Timers] (j : Job) (now : Reading) : Job :=
  if j.progress.state = .pending then j.arm now else j

/-! ## 3. Events -/

/-- The job after its wait is over. -/
def wake [Timers] (j : Job) (now : Reading) : Job :=
  match j.task with
  | .starting _ => j.hand j.specification (.running now.wall)
  | .opening origin base => j.openSeries origin base
  | .awaiting occurrence _ c =>
    if j.interrupted then j.finish
    else j.hand (j.specification.forOccurrence occurrence)
      -- A run that begins late still has the whole length of its occurrence.
      (.inTurn now.wall ⟨false, (c.length? occurrence).map (Timers.fires now.moment), c⟩)
  | _ => j

/-- The job after its run returned (`execute`). -/
def conclude (j : Job) (now : Reading) (outcome : Outcome) : Job :=
  match j.task, outcome with
  | .running started, .ok r =>
    { j with progress := j.progress.complete (j.stamp started now r), task := .idle }
  | .inTurn started turn, .ok r =>
    let j := { j with progress := j.progress.push (j.stamp started now r) }
    -- The result of a run that was cut short counts; only the next run does not start.
    if j.interrupted then j.finish else j.proceed turn.course
  | .running _, .error e | .inTurn _ _, .error e => j.fail e.message
  | _, _ => j

/-- The job after an event. -/
def handle [Timers] (j : Job) (now : Reading) : Event → Job
  | .interrupt => { j with interrupted := true }
  | .scopeEnds =>
    -- The interrupt of a job at its end would be heard by no one.
    if j.isFinished then { j with ends := none }
    else { j with interrupted := true, ends := none }
  | .turnEnds =>
    match j.task with
    | .inTurn started turn => { j with task := .inTurn started { turn with interrupted := true } }
    | _ => j
  | .wakes => j.wake now
  | .returns outcome => j.conclude now outcome

end Job

end Measurement
