/-
How far a job has come, and what a caller is told of it.

A job is pending, scheduled, running, and then completed or failed for good:
nothing that arrives after the end changes its state or adds a result
(`transition`, `push_result`, `complete`, `fail`). The reply to a caller is the
receipt until there is something better (`get_reply`). A repeated job answers
with an envelope of its results as soon as there is one. A job is collected when
a caller got a reply after its end.
-/
import Measurement.Message.Basic

set_option autoImplicit false

namespace Measurement

/-- The states of a job. -/
inductive JobState where
  | pending
  | scheduled
  | running
  | completed
  | failed (e : Exception)
deriving DecidableEq

namespace JobState

/-- Whether a job is at its end. -/
def isTerminal : JobState → Bool
  | completed | failed _ => true
  | pending | scheduled | running => false

/-- Whether a job has failed. -/
def isFailed : JobState → Bool
  | failed _ => true
  | _ => false

end JobState

/-- What changes about a job while it runs. -/
structure Progress where
  state : JobState
  /-- The results, the oldest first. -/
  results : List Result
  /-- Whether a caller has asked for a reply. -/
  polled : Bool
  /-- Whether a caller got a reply after the end. -/
  collected : Bool
deriving DecidableEq

namespace Progress

/-- The progress of a new job. -/
def initial : Progress := ⟨.pending, [], false, false⟩

/-- Whether a job is at its end. -/
def isFinished (p : Progress) : Bool := p.state.isTerminal

/-- Changes the state, unless the job is at its end (`transition`). -/
def transition (p : Progress) (state : JobState) : Progress :=
  if p.isFinished then p else { p with state := state }

/-- Adds a result, unless the job is at its end (`push_result`). -/
def push (p : Progress) (r : Result) : Progress :=
  if p.isFinished then p else { p with results := p.results ++ [r] }

/-- Ends the job with a result, unless it is at its end (`complete`). -/
def complete (p : Progress) (r : Result) : Progress :=
  if p.isFinished then p else { p with results := p.results ++ [r], state := .completed }

/-- Ends the job of a token with an exception, unless it is at its end (`fail`). -/
def fail (p : Progress) (token message : String) : Progress :=
  if p.isFinished then p else { p with state := .failed ⟨some token, message⟩ }

/-- Notes that a caller asked for a reply. -/
def poll (p : Progress) : Progress :=
  { p with polled := true, collected := p.collected || p.isFinished }

/-- The reply of a job with a receipt (`get_reply`); `repeated` says whether its scope recurs. -/
def reply (p : Progress) (receipt : Receipt) (repeated : Bool) : Message :=
  match p.state with
  | .failed e => .exception e
  | state =>
    if repeated && (state.isTerminal || !p.results.isEmpty) then
      .envelope .message (p.results.map .result)
    else match state, p.results with
      | .completed, r :: _ => .result r
      | _, _ => .receipt receipt

end Progress

end Measurement
