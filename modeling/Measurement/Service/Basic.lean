/-
Services: what runs specifications against a fixed capability.

A capability accepts a specification with its schema, a value for every
parameter, and values that the capability's own constraints admit. Beyond that
services differ in what they do (`Behaviour`): two measure, the clock and the
tick, and four have a fixed outcome, which is what a test of the rest needs.
-/
import Measurement.Statement.Kinds

set_option autoImplicit false

namespace Measurement

/-- Why a run gives no result (`ServiceError`). -/
inductive ServiceFault where
  /-- The specification is not for the capability that is known by this name. -/
  | mismatch (name : String)
  /-- A statement breaks the rules of its kind. -/
  | invalid (fault : StatementFault)
  /-- The measurement failed. -/
  | failed (message : String)
  /-- The run broke off. -/
  | panicked (message : String)
deriving DecidableEq

/-- The wording of a fault of a service. -/
def ServiceFault.message : ServiceFault → String
  | mismatch name => "specification does not match capability " ++ name
  | invalid fault => fault.message
  | failed message => "measurement failed: " ++ message
  | panicked message => "service panicked: " ++ message

/-! ## 1. What a capability accepts -/

namespace Capability

/-- Checks the values of parameters against the constraints that a capability offers. A parameter
without a value, or one that the capability does not offer, is passed over. -/
def checkValues (c : Capability) : List Parameter → Except ServiceFault Unit
  | [] => .ok ()
  | p :: ps =>
    match p.value, c.statement.parameters.get? p.name with
    | some v, some offered =>
      if offered.constraint.metBy v then c.checkValues ps
      else .error (.invalid (.constraintViolation p.name v.text offered.constraint.text))
    | _, _ => c.checkValues ps

/-- Checks that a capability can run a specification (`check_specification`). -/
def accepts (c : Capability) (s : Specification) : Except ServiceFault Unit := do
  if s.statement.schemaDigest = c.statement.schemaDigest then
    s.validate.mapError .invalid
    c.checkValues s.statement.parameters.values
  else .error (.mismatch c.knownAs)

end Capability

/-! ## 2. Services -/

/-- Values for the columns of a row, by name. -/
abbrev Cells := List (String × Value)

/-- What a service does when it runs. -/
inductive Behaviour where
  /-- Reports the time. -/
  | clock
  /-- Adds a row in every period until it is interrupted. -/
  | tick
  /-- Reports some rows at once. -/
  | succeed (rows : List Cells)
  /-- Waits until it is interrupted and then reports some rows. -/
  | await (rows : List Cells)
  /-- Fails. -/
  | fail (message : String)
  /-- Breaks off. -/
  | panic (message : String)
deriving DecidableEq

/-- Something that runs specifications against a capability. -/
structure Service where
  capability : Capability
  behaviour : Behaviour
  /-- Tells services apart. -/
  number : Nat
deriving DecidableEq

namespace Service

/-- The capability to ask for the time (`ClockService::new`). -/
def clockCapability (r : Registry) (label : String) : Except ReadFault Capability := do
  let s ← ({ Statement.make Statement.queryVerb r with label := some label }).addColumn "time"
  .ok ⟨s⟩

/-- The capability to count the periods of a scope, of at least a second each
(`TickService::new`). -/
def tickCapability (r : Registry) (label : String) : Except ReadFault Capability := do
  let s := { Statement.make Statement.measureVerb r with
    label := some label, scope := Scope.nowToFuture.withPeriod (.ofSeconds 1) }
  let s ← s.addColumn "time"
  let s ← s.addColumn "packets"
  .ok ⟨s⟩

end Service

end Measurement
