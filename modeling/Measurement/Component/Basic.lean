/-
A component at work: a scheduler, the runs of its services and its clocks.

Time moves only when it is told to. What can go on at a moment are the strands
in a queue: the one in front goes on until it waits, and the strands whose wait
that has ended go to the back (`goOn`). When the queue is empty the component
waits (`settle`), and time can move on to the next moment for which a strand
waits (`advance`). Strands that wait for the same moment are queued in the order
in which they began to wait.

So jobs take turns at every moment, and the order in which they hand
specifications to a service that they share follows from the queue alone.
-/
import Measurement.Component.Undertaking

set_option autoImplicit false

namespace Measurement

/-! ## 1. Components -/

/-- A strand of the job under a token. -/
abbrev Thread := String × Strand

/-- A component at work. -/
structure Component where
  scheduler : Scheduler
  timeline : Timeline
  /-- The runs in progress, under the tokens of their jobs. -/
  activities : Table Activity
  /-- Every service that was ever registered, at the place of its number. -/
  hosted : List Service
  /-- What which service began to run, the latest first. -/
  calls : List (Nat × Specification)
  /-- The strands that can go on, in the order in which they do. -/
  ready : List Thread
  /-- The strands that wait for a moment, in the order in which they began to. -/
  alarms : List Thread

namespace Component

/-- A component with a scheduler, whose wall clock starts at an instant. -/
def make (x : Scheduler) (t : Instant) : Component :=
  ⟨x, .startingAt t, .empty, [], [], [], []⟩

/-- What the clocks show. -/
def now (x : Component) : Reading := x.timeline.reading

/-- The specifications that a service began to run, the oldest first. -/
def callsOf (x : Component) (number : Nat) : List Specification :=
  (x.calls.filterMap fun c => if c.1 = number then some c.2 else none).reverse

/-- The job under a token with its run. -/
def undertaking? (x : Component) (token : String) : Option Undertaking :=
  (x.scheduler.jobs.get? token).map fun j => ⟨j, x.activities.get? token⟩

/-- The moment for which a strand waits. -/
def due? (x : Component) (p : Thread) : Option Nat :=
  (x.undertaking? p.1).bind fun u => u.due? p.2

/-- A queue with more strands behind it; one that is queued already keeps its place. -/
def enqueue (queue more : List Thread) : List Thread :=
  more.foldl (fun queue p => if queue.contains p then queue else queue ++ [p]) queue

/-- Ends the wait of strands of the job under a token. -/
def rouse (x : Component) (token : String) (strands : List Strand) : Component :=
  { x with ready := enqueue x.ready (strands.map fun strand => (token, strand)) }

/-- The component after the undertaking under a token became `u`. -/
def record (x : Component) (token : String) (u : Undertaking) : Component :=
  { x with
    scheduler := x.scheduler.changeJob token fun _ => u.job
    activities := match u.activity with
      | some a => x.activities.insert token a
      | none => x.activities.erase token }

/-- The component after a strand went on. -/
def goOn [Timers] (x : Component) (p : Thread) : Component :=
  match x.undertaking? p.1 with
  | none => x
  | some u =>
    let (v, roused) := u.goOn x.now p.2
    let y := x.record p.1 v
    -- A job that goes on has no occurrence in progress, so a watch for its end is of the past.
    let ready := if p.2 = .job then x.ready.erase (p.1, .turnEnd) else x.ready
    { y with
      calls := match p.2, u.activity with
        | .run, some (.handed s) => (u.job.service.number, s) :: x.calls
        | _, _ => x.calls
      ready := enqueue ready (roused.map fun strand => (p.1, strand))
      alarms := x.alarms.erase p ++ if (v.due? p.2).isSome then [p] else [] }

/-- Lets strands take a number of turns at most. -/
def settleWithin [Timers] : Nat → Component → Component
  | 0, x => x
  | n + 1, x =>
    match x.ready with
    | [] => x
    | p :: rest => settleWithin n ({ x with ready := rest }.goOn p)

/-- The turns that strands take at one moment. Only a series that never reaches the present could
take more. -/
def turnLimit : Nat := Nat.pow 2 62

/-- Lets strands go on until all wait. -/
def settle [Timers] (x : Component) : Component := settleWithin turnLimit x

/-- The first moment after the present for which a strand waits. -/
def nextDue? (x : Component) : Option Nat :=
  ((x.alarms.filterMap x.due?).filter fun m => decide (x.timeline.moment < m)).min?

/-- The component at another moment, after everything that can go on then has done so. -/
def moveTo [Timers] (x : Component) (m : Nat) : Component :=
  let roused := x.alarms.filter fun p => (x.due? p).any fun due => due ≤ m
  { x with timeline := x.timeline.atMoment m, ready := enqueue x.ready roused }.settle

/-! ## 2. The passage of time -/

theorem timeline_goOn [Timers] (x : Component) (p : Thread) : (x.goOn p).timeline = x.timeline := by
  unfold goOn
  split <;> rfl

theorem timeline_settleWithin [Timers] (n : Nat) (x : Component) :
    (settleWithin n x).timeline = x.timeline := by
  induction n generalizing x with
  | zero => rfl
  | succ n ih =>
    unfold settleWithin
    split
    · rfl
    · rw [ih, timeline_goOn]

@[simp] theorem timeline_settle [Timers] (x : Component) : x.settle.timeline = x.timeline :=
  timeline_settleWithin turnLimit x

@[simp] theorem moment_moveTo [Timers] (x : Component) (m : Nat) :
    (x.moveTo m).timeline.moment = m := by
  simp [moveTo, Timeline.atMoment]

theorem lt_of_nextDue? {x : Component} {m : Nat} (h : x.nextDue? = some m) :
    x.timeline.moment < m := by
  have := List.min?_mem h
  simpa using (List.mem_filter.1 this).2

/-- Goes from one moment for which a strand waits to the next, up to a moment or until a condition
holds. -/
def run [Timers] (stop : Component → Bool) (last : Nat) (x : Component) : Component :=
  if stop x then x
  else match h : x.nextDue? with
    | none => x
    | some m =>
      if hm : m ≤ last then
        have _sooner : last - (x.moveTo m).timeline.moment < last - x.timeline.moment := by
          have := lt_of_nextDue? h
          rw [moment_moveTo]
          omega
        run stop last (x.moveTo m)
      else x
termination_by last - x.timeline.moment
decreasing_by assumption

/-- Lets a number of milliseconds pass. -/
def advance [Timers] (x : Component) (millis : Nat) : Component :=
  let last := x.timeline.moment + millis
  (x.settle.run (fun _ => false) last).moveTo last

/-- Longer than anything waits. -/
def longTime : Nat := Nat.pow 2 62

/-- Lets time pass until the job under a token is at its end (`Job::finished`). -/
def finishJob [Timers] (x : Component) (token : String) : Component :=
  x.settle.run (fun y => ((y.scheduler.jobs.get? token).map Job.isFinished).getD true)
    (x.timeline.moment + longTime)

/-! ## 3. Requests -/

/-- The component with one more service. -/
def addService (x : Component) (c : Capability) (b : Behaviour) :
    Except SchedulerFault Component :=
  let v : Service := ⟨c, b, x.hosted.length⟩
  (x.scheduler.addService v).map fun scheduler =>
    { x with scheduler := scheduler, hosted := x.hosted ++ [v] }

/-- Begins with the job under a token, if that has been scheduled. -/
def startJob (x : Component) (token : String) : Component :=
  match x.scheduler.jobs.get? token with
  | some j => x.rouse token (Undertaking.initial j)
  | none => x

/-- Tells the strands of the job under a token that its interrupt was raised. -/
def signal (x : Component) (token : String) : Component :=
  match x.undertaking? token with
  | some u => x.rouse token u.listeners
  | none => x

/-- Arms the timers of the job under a token, if it is pending (`Job::schedule`). -/
def scheduleJob [Timers] (x : Component) (token : String) : Component :=
  match x.scheduler.jobs.get? token with
  | some j =>
    if j.progress.state = .pending then
      { x with scheduler := x.scheduler.changeJob token fun j => j.schedule x.now }.startJob token
    else x
  | none => x

/-- Raises the interrupt of the job under a token. -/
def interruptJob [Timers] (x : Component) (token : String) : Component :=
  { x with scheduler := x.scheduler.handle x.now token .interrupt }.signal token

/-- Raises the interrupt of every job that is not at its end (`interrupt_all`); gives their
number. -/
def interruptAll [Timers] (x : Component) : Nat × Component :=
  let (n, scheduler) := x.scheduler.interruptAll x.now
  (n, scheduler.jobs.names.foldl signal { x with scheduler := scheduler })

/-- The reply to a message (`receive_message`). -/
def receive [Timers] (x : Component) (identity : String) (m : Message) : Message × Component :=
  let (reply, scheduler) := x.scheduler.receive x.now x.now identity m
  let y := { x with scheduler := scheduler }
  (reply, match m with
    | .interrupt i => y.signal i.token
    | _ => (scheduler.jobs.names.filter fun t => !x.scheduler.jobs.contains t).foldl startJob y)

end Component

end Measurement
