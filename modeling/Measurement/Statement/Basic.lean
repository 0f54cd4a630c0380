/-
Statements: what a capability, a specification and a result have in common.

A statement has a verb and a temporal scope, and names elements of one registry
as parameters, metadata and result columns. An operation that fails gives no
statement, so the one at hand stays as it is. Adding a parameter or metadata
that is there replaces it and keeps its place; adding a column that is there
changes nothing.
-/
import Measurement.Statement.Column
import Measurement.Scope.Text

set_option autoImplicit false

namespace Measurement

/-- The body of a capability, a specification or a result (`Statement`). -/
structure Statement where
  verb : String
  registry : Registry
  label : Option String
  /-- The token that was given to the statement. -/
  givenToken : Option String
  scope : Scope
  parameters : Table Parameter
  metadata : Table Metavalue
  columns : Table Column
  link : Option String
  /-- Where results are exported to. -/
  exportUri : Option String
deriving DecidableEq

namespace Statement

/-- The verb of statements that are answered at once. -/
def queryVerb : String := "query"

/-- The verb of measurements that take their time. -/
def measureVerb : String := "measure"

/-- The statement that names no elements. -/
def make (verb : String) (registry : Registry) : Statement :=
  ⟨verb, registry, none, none, .nowToFuture, .empty, .empty, .empty, none, none⟩

/-- Whether a statement is to be answered at once. -/
def isQuery (s : Statement) : Bool := s.verb == queryVerb

/-! ## 1. Parameters -/

/-- The statement with a parameter, which has no value yet (`add_parameter`). -/
def addParameter (s : Statement) (name : String) (c : Constraint) :
    Except ReadFault Statement :=
  (s.registry.element name).map fun e =>
    { s with parameters := s.parameters.insert name (.make e c) }

/-- The statement with a parameter whose constraint is given by its text. -/
def addParameterText (s : Statement) (name text : String) : Except ReadFault Statement := do
  let e ← s.registry.element name
  let c ← Constraint.read e.primitive text
  s.addParameter name c

/-- The value of a parameter. -/
def parameterValue? (s : Statement) (name : String) : Option Value :=
  (s.parameters.get? name).bind Parameter.value

/-- The statement with a value for a parameter (`set_parameter_value`). -/
def setParameter (s : Statement) (name : String) (v : Value) :
    Except StatementFault Statement :=
  match s.parameters.get? name with
  | none => .error (.unknownParameter name)
  | some p => (p.assign v).map fun p => { s with parameters := s.parameters.insert name p }

/-- The statement with a value for a parameter that is given by its text (`set_parameter_text`); `*`
takes it away. -/
def setParameterText (s : Statement) (name text : String) : Except Fault Statement :=
  match s.parameters.get? name with
  | none => .error (.statement (.unknownParameter name))
  | some p => (p.assignText text).map fun p => { s with parameters := s.parameters.insert name p }

/-- The statement with a value for every parameter that had none and has no choice
(`set_single_values`). -/
def fillParameters (s : Statement) : Statement :=
  { s with parameters := s.parameters.map Parameter.filled }

/-- The statement without the values of its parameters (`clear_parameter_values`). -/
def clearParameters (s : Statement) : Statement :=
  { s with parameters := s.parameters.map Parameter.cleared }

/-- The statement without the constraints on its parameters (`clear_constraints`). -/
def freeParameters (s : Statement) : Statement :=
  { s with parameters := s.parameters.map Parameter.freed }

/-! ## 2. Metadata -/

/-- The statement with metadata (`add_metadata`). -/
def addMetadata (s : Statement) (name : String) (v : Value) : Except Fault Statement := do
  let e ← (s.registry.element name).mapError .read
  let m ← (Metavalue.make e v).mapError .statement
  .ok { s with metadata := s.metadata.insert name m }

/-- The statement with metadata whose value is given by its text. -/
def addMetadataText (s : Statement) (name text : String) : Except Fault Statement := do
  let e ← (s.registry.element name).mapError .read
  let v ← (Value.read e.primitive text).mapError .read
  s.addMetadata name v

/-- The value of a metavalue. -/
def metadataValue? (s : Statement) (name : String) : Option Value :=
  (s.metadata.get? name).map Metavalue.value

/-! ## 3. Result columns -/

/-- The statement with a result column (`add_result_column`). -/
def addColumn (s : Statement) (name : String) : Except ReadFault Statement :=
  (s.registry.element name).map fun e =>
    if s.columns.contains name then s
    else { s with columns := s.columns.insert name (.make e) }

/-- The number of rows of the longest column (`count_result_rows`). -/
def rowCount (s : Statement) : Nat :=
  s.columns.values.foldl (fun n c => max n c.size) 0

/-- The value in a row of a column. -/
def cell? (s : Statement) (name : String) (row : Nat) : Option Value :=
  (s.columns.get? name).bind fun c => c.get? row

/-- The statement with a value in a row of a column (`set_result_value`). -/
def setCell (s : Statement) (name : String) (row : Nat) (v : Value) :
    Except StatementFault Statement :=
  match s.columns.get? name with
  | none => .error (.unknownColumn name)
  | some c => (c.set row v).map fun c => { s with columns := s.columns.insert name c }

/-- The values of a row, column by column (`result_row`). -/
def row (s : Statement) (n : Nat) : List (Option Value) :=
  s.columns.values.map fun c => c.get? n

/-- The statement without rows (`clear_result_rows`). -/
def clearRows (s : Statement) : Statement :=
  { s with columns := s.columns.map Column.cleared }

/-! ## 4. Equality -/

/-- Whether two statements say the same, with the same label, token and link. The order in which
parameters, metadata and columns were added does not count. -/
def same (s t : Statement) : Bool :=
  s.verb == t.verb && s.registry.same t.registry && s.label == t.label
    && s.givenToken == t.givenToken && decide (s.scope = t.scope)
    && s.parameters.agree Parameter.same t.parameters
    && s.metadata.agree Metavalue.same t.metadata
    && s.columns.agree Column.same t.columns
    && s.link == t.link && s.exportUri == t.exportUri

end Statement

end Measurement
