/-
The three kinds of statements and how one is derived from another.

A capability says what a component can measure, a specification asks for it
with every parameter filled in, and a result reports what came of it. Each is
made from the one before by copying its body, so nothing that is filled in
reaches back. A result keeps the token of its specification and drops the
constraints, so observed values need not meet them.
-/
import Measurement.Statement.Identity

set_option autoImplicit false

namespace Measurement

/-- Something that a component can measure. -/
structure Capability where
  statement : Statement
deriving DecidableEq

/-- A request to run a capability. -/
structure Specification where
  statement : Statement
deriving DecidableEq

/-- The outcome of running a specification. -/
structure Result where
  statement : Statement
deriving DecidableEq

namespace Capability

/-- The token of a capability. -/
def token (c : Capability) : String := c.statement.token

/-- The label by which a capability is known: its own, or else its token. -/
def knownAs (c : Capability) : String := c.statement.label.getD c.token

/-- Parameters of a capability have no values, and there are no rows. -/
def validate (c : Capability) : Except StatementFault Unit :=
  match c.statement.parameters.values.find? Parameter.hasValue with
  | some p => .error (.capabilityValue p.name)
  | none => if 0 < c.statement.rowCount then .error .capabilityRows else .ok ()

end Capability

namespace Specification

/-- The token of a specification. -/
def token (s : Specification) : String := s.statement.token

/-- The temporal scope of a specification. -/
def scope (s : Specification) : Scope := s.statement.scope

/-- The specification of a capability, with the parameters filled in that have no choice
(`Specification::from_capability`). -/
def ofCapability (c : Capability) : Specification :=
  ⟨{ c.statement with givenToken := none }.clearParameters.clearRows.fillParameters⟩

/-- Every parameter of a specification has a value. -/
def validate (s : Specification) : Except StatementFault Unit :=
  match s.statement.parameters.values.find? fun p => !p.hasValue with
  | some p => .error (.missingValue p.name)
  | none => .ok ()

/-- Whether a capability can serve a specification at an instant (`fulfills`): the schemas agree,
and so do the scopes. -/
def fulfills (s : Specification) (c : Capability) (t : Instant) : Bool :=
  s.statement.schemaDigest == c.statement.schemaDigest
    && s.scope.follows c.statement.scope t

/-- The specification with the token of its content at an instant (`Specification::retoken`). The
same text means another interval at another second, and so gets another token. -/
def retoken (s : Specification) (t : Instant) : Specification :=
  ⟨s.statement.withToken (s.statement.contentDigestAt t)⟩

/-- The specification for one occurrence of its scope (`for_occurrence`). -/
def forOccurrence (s : Specification) (occurrence : Scope) : Specification :=
  ⟨{ s.statement with scope := occurrence }⟩

end Specification

namespace Result

/-- The token of a result. -/
def token (r : Result) : String := r.statement.token

/-- The result of a specification, without rows yet (`ResultStatement::from_specification`). -/
def ofSpecification (s : Specification) : Result :=
  ⟨(s.statement.withToken s.token).freeParameters.clearRows⟩

/-- Every parameter of a result has a value, and its scope is definite. -/
def validate (r : Result) : Except StatementFault Unit :=
  match r.statement.parameters.values.find? fun p => !p.hasValue with
  | some p => .error (.missingValue p.name)
  | none =>
    if r.statement.scope.isDefinite then .ok ()
    else .error (.indefiniteScope r.statement.scope.text)

end Result

end Measurement
