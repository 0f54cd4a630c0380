/-
Undertakings: a job at work.

Up to four things go on about a job, each by itself: the watch for the end of
its scope (the timer of `Job::schedule`), the job itself, which waits for its
starts and for its runs (`run_single`, `run_series`), the watch for the end of
an occurrence (`occurrence_timer`), and the run (`execute`). These are its
strands. A strand goes on until it has to wait, for a moment or for another
strand, and by going on it can put an end to the wait of others (`goOn`).

How the strands of all jobs take turns is the component's affair.
-/
import Measurement.Scheduler

set_option autoImplicit false

namespace Measurement

/-- What goes on about a job by itself. -/
inductive Strand where
  /-- The watch for the end of the scope. -/
  | scopeEnd
  /-- The job, which waits for its starts and for its runs. -/
  | job
  /-- The watch for the end of the occurrence whose run is in progress. -/
  | turnEnd
  /-- The run. -/
  | run
deriving DecidableEq

/-- A job with its run, if there is one that was not looked at yet. -/
structure Undertaking where
  job : Job
  activity : Option Activity

namespace Undertaking

/-! ## 1. What strands wait for -/

/-- The moment for which a strand waits. -/
def due? (u : Undertaking) : Strand → Option Nat
  | .scopeEnd => if u.job.isFinished then none else u.job.ends
  | .job =>
    match u.job.task with
    | .starting due | .awaiting _ due _ => some due
    | _ => none
  | .turnEnd =>
    match u.job.task with
    | .inTurn _ turn => if turn.interrupted then none else turn.due
    | _ => none
  | .run => u.activity.bind Activity.due?

/-- Whether the moment has come for which a strand waits. -/
def isDue (u : Undertaking) (strand : Strand) (m : Nat) : Bool :=
  (u.due? strand).any fun due => due ≤ m

/-- The strands that begin when a job has been scheduled, in their order. -/
def initial (j : Job) : List Strand :=
  if j.isFinished then []
  else if j.ends.isSome then [.scopeEnd, .job]
  else [.job]

/-- The strands that listen for the interrupt of the job. -/
def listeners (u : Undertaking) : List Strand :=
  match u.job.task with
  | .running _ => [.run]
  | .awaiting _ _ _ => [.job]
  | .inTurn _ turn => if turn.interrupted then [] else [.turnEnd]
  | _ => []

/-- Whether the interrupt of the run in progress has been raised. -/
def runInterrupted (u : Undertaking) : Bool :=
  match u.job.task with
  | .running _ => u.job.interrupted
  | .inTurn _ turn => turn.interrupted
  | _ => false

/-- Whether the job's wait for a start is over. -/
def jobWakes (u : Undertaking) (m : Nat) : Bool :=
  match u.job.task with
  | .opening _ _ => true
  | .awaiting _ _ _ => u.isDue .job m || u.job.interrupted
  | _ => u.isDue .job m

/-! ## 2. How strands go on -/

/-- An undertaking after a strand went on, and the strands whose wait that has ended. -/
abbrev GoneOn := Undertaking × List Strand

/-- The undertaking after an event of its job. -/
def handle [Timers] (u : Undertaking) (now : Reading) (e : Job.Event) : Undertaking :=
  { u with job := u.job.handle now e }

/-- How the watch for the end of the scope goes on. -/
def watchScope [Timers] (u : Undertaking) (now : Reading) : GoneOn :=
  if u.isDue .scopeEnd now.moment then (u.handle now .scopeEnds, u.listeners) else (u, [])

/-- How the watch for the end of an occurrence goes on (`occurrence_timer`). It also hands the
interrupt of the job down to the run. -/
def watchTurn [Timers] (u : Undertaking) (now : Reading) : GoneOn :=
  match u.job.task with
  | .inTurn _ turn =>
    if !turn.interrupted && (u.job.interrupted || u.isDue .turnEnd now.moment) then
      (u.handle now .turnEnds, [.run])
    else (u, [])
  | _ => (u, [])

/-- How the run goes on. -/
def goOnRun (u : Undertaking) (now : Reading) : GoneOn :=
  match u.activity with
  | none => (u, [])
  | some a =>
    let a := a.goOn u.job.service.behaviour u.runInterrupted now
    ({ u with activity := some a }, if a.isFinished then [.job] else [])

/-- The undertaking after its job took the outcome of the run, if that is there (`execute`). -/
def collect [Timers] (u : Undertaking) (now : Reading) : Undertaking :=
  match u.activity with
  | some (.finished outcome) => { u.handle now (.returns outcome) with activity := none }
  | _ => u

/-- The undertaking after its job woke, if its wait is over. A specification that the job hands to
its service makes a run. -/
def wakeJob [Timers] (u : Undertaking) (now : Reading) : Undertaking :=
  if u.jobWakes now.moment then
    let job := u.job.handle now .wakes
    match job.handed.drop u.job.handed.length with
    | s :: _ => ⟨job, some (.handed s)⟩
    | [] => ⟨job, u.activity⟩
  else u

/-- The strands that begin with a run. -/
def begun (u : Undertaking) : List Strand :=
  match u.activity, u.job.task with
  | some (.handed _), .inTurn _ _ => [.turnEnd, .run]
  | some (.handed _), _ => [.run]
  | _, _ => []

/-- How the job goes on. -/
def goOnJob [Timers] (u : Undertaking) (now : Reading) : GoneOn :=
  -- At most the series opens and its first start is due, or a run ended and the next one is due.
  let u := ((u.collect now).wakeJob now).wakeJob now
  (u, u.begun)

/-- How a strand goes on. -/
def goOn [Timers] (u : Undertaking) (now : Reading) : Strand → GoneOn
  | .scopeEnd => u.watchScope now
  | .job => u.goOnJob now
  | .turnEnd => u.watchTurn now
  | .run => u.goOnRun now

end Undertaking

end Measurement
