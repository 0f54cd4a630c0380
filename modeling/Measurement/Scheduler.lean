/-
The scheduler of a component: it offers the capabilities of its services,
admits specifications, and keeps a job for each until its outcome has been
collected.

A specification goes to the first service that it fulfills. It is admitted if
the caller is authorised for the capability, the capability accepts it and its
scope has not ended. Its token, which for a relative scope is made from the
instant of admission, is the key of its job, so that equal requests share one
job. A new job is scheduled at once, but the clocks are read again for that: its
scope may have ended in between, and then the receipt is for a job that has
failed (`submit`, which is `submit_job`). Everything else that arrives is
answered from the table of jobs, or with an exception (`receive`, which is
`receive_message`).
-/
import Measurement.Authorizer
import Measurement.Job.Basic

set_option autoImplicit false

namespace Measurement

/-- Why a service is not registered. -/
inductive SchedulerFault where
  /-- A capability with the token is registered already. -/
  | duplicate (token : String)
  /-- The capability breaks the rules of its kind. -/
  | invalid (fault : StatementFault)
deriving DecidableEq

/-- The wording of a fault of the scheduler. -/
def SchedulerFault.message : SchedulerFault → String
  | duplicate token => "capability " ++ token ++ " is already registered"
  | invalid fault => "invalid capability: " ++ fault.message

/-- What a component offers and what it has in hand. -/
structure Scheduler where
  authorizer : Authorizer
  /-- The labels and identities that the authorizer was asked about, the oldest first. -/
  asked : List (String × String)
  /-- The services in order of registration. -/
  services : List Service
  /-- The capabilities under their tokens, in order of registration. -/
  catalog : Table Capability
  /-- The jobs under their tokens. -/
  jobs : Table Job

namespace Scheduler

/-- The scheduler without services and jobs. -/
def empty (a : Authorizer) : Scheduler := ⟨a, [], [], .empty, .empty⟩

/-! ## 1. Texts of exceptions -/

/-- The answer about a token without a job. -/
def unknownJobText : String := "unknown job"

/-- The answer to a message that a component does not expect. -/
def unexpectedText : String := "unexpected message type"

/-- The answer to a specification that no service fulfills. -/
def noServiceText : String := "no service registered for specification"

/-- The answer to a caller who may not use the capability. -/
def notAuthorizedText : String := "not authorized"

/-! ## 2. Services -/

/-- The scheduler with one more service (`add_service`). -/
def addService (x : Scheduler) (v : Service) : Except SchedulerFault Scheduler := do
  v.capability.validate.mapError .invalid
  let token := v.capability.token
  if x.catalog.contains token then .error (.duplicate token)
  else .ok { x with
    services := x.services ++ [v], catalog := x.catalog.insert token v.capability }

/-- Takes back the capability with a token (`withdraw`): the withdrawal to announce, and the
scheduler without the service. -/
def withdraw (x : Scheduler) (token : String) : Option (Withdrawal × Scheduler) :=
  (x.catalog.get? token).map fun c =>
    (.ofCapability c, { x with
      services := x.services.filter fun v => v.capability.token ≠ token
      catalog := x.catalog.erase token })

/-- The first service whose capability a specification fulfills (`route`). -/
def route (x : Scheduler) (s : Specification) (t : Instant) : Option Service :=
  x.services.find? fun v => s.fulfills v.capability t

/-! ## 3. Admission -/

/-- The exception for a specification that is not admitted (`reject`). -/
def reject (s : Specification) (message : String) : Message :=
  .exception ⟨some s.token, message⟩

/-- The specification as it is kept: with the token of the instant, unless its scope is definite. -/
def pinned (s : Specification) (t : Instant) : Specification :=
  if s.scope.isDefinite then s else s.retoken t

/-- The job of an admitted specification: the one that is there under its token, or a new one. -/
def join [Timers] (x : Scheduler) (armed : Reading) (v : Service) (s : Specification) :
    Message × Scheduler :=
  match x.jobs.get? s.token with
  | some j => (.receipt j.receipt, x)
  | none =>
    let j := (Job.make v s).schedule armed
    (.receipt j.receipt, { x with jobs := x.jobs.insert s.token j })

/-- Admits a specification, or refuses it. The clocks are read twice: for the admission, and when
the timers of a new job are armed. -/
def submit [Timers] (x : Scheduler) (now armed : Reading) (identity : String) (s : Specification) :
    Message × Scheduler :=
  match x.route s now.wall with
  | none => (reject s noServiceText, x)
  | some v =>
    let label := v.capability.knownAs
    -- The question is noted whatever the answer.
    let x := { x with asked := x.asked ++ [(label, identity)] }
    if !x.authorizer.allows label identity then (reject s notAuthorizedText, x)
    else match v.capability.accepts s with
      | .error e => (reject s e.message, x)
      | .ok _ =>
        if !s.statement.isQuery && s.scope.isExpired now.wall then
          (reject s Job.expiredText, x)
        -- A relative scope means something else at every instant, and so does the token.
        else x.join armed v (pinned s now.wall)

/-! ## 4. Jobs -/

/-- The scheduler after a change of the job with a token. -/
def changeJob (x : Scheduler) (token : String) (f : Job → Job) : Scheduler :=
  match x.jobs.get? token with
  | some j => { x with jobs := x.jobs.insert token (f j) }
  | none => x

/-- The reply of the job with a token, which notes that it was asked for. -/
def poll (x : Scheduler) (token : String) : Message × Scheduler :=
  match x.jobs.get? token with
  | some j => (j.reply, x.changeJob token Job.poll)
  | none => (.exception ⟨some token, unknownJobText⟩, x)

/-- The scheduler after an event of the job with a token. -/
def handle [Timers] (x : Scheduler) (now : Reading) (token : String) (e : Job.Event) : Scheduler :=
  x.changeJob token fun j => j.handle now e

/-- The reply to a message, and the scheduler after it. -/
def receive [Timers] (x : Scheduler) (now armed : Reading) (identity : String) :
    Message → Message × Scheduler
  | .specification s => x.submit now armed identity s
  | .redemption r => x.poll r.token
  | .interrupt i => (x.handle now i.token .interrupt).poll i.token
  | m => (.exception ⟨m.token?, unexpectedText⟩, x)

/-- Raises the interrupt of every job that is not at its end (`interrupt_all`); gives their
number. -/
def interruptAll [Timers] (x : Scheduler) (now : Reading) : Nat × Scheduler :=
  (x.jobs.values.countP fun j => !j.isFinished,
    { x with jobs := x.jobs.map fun j => if j.isFinished then j else j.handle now .interrupt })

/-- Whether a job has ended and its outcome was collected. -/
def isSpent (j : Job) : Bool := j.isFinished && j.progress.collected

/-- Drops the jobs whose outcome has been collected (`prune_finished`); gives their number. -/
def prune (x : Scheduler) : Nat × Scheduler :=
  let jobs := x.jobs.filter fun j => !isSpent j
  (x.jobs.size - jobs.size, { x with jobs := jobs })

end Scheduler

end Measurement
