/-
Parameters and metadata: elements with a value.

A parameter has a constraint and may lack a value. An assignment checks that
the value is of the element's primitive and that the constraint admits it. The
value that a parameter is filled with stands in the constraint and is taken as
it is. Metadata always has a value and no constraint.
-/
import Measurement.Constraint
import Measurement.Registry.Basic

set_option autoImplicit false

namespace Measurement

/-- Whether a value is of the primitive of an element. -/
def Element.check (e : Element) (v : Value) : Except StatementFault Unit :=
  if v.primitive = e.primitive then .ok ()
  else .error (.primitiveMismatch e.name v.text e.primitive)

/-- A constrained element that may have a value. -/
structure Parameter where
  element : Element
  constraint : Constraint
  value : Option Value
deriving DecidableEq

namespace Parameter

/-- A parameter without a value. -/
def make (e : Element) (c : Constraint) : Parameter := ⟨e, c, none⟩

/-- The name of a parameter is that of its element. -/
def name (p : Parameter) : String := p.element.name

/-- The primitive of a parameter is that of its element. -/
def primitive (p : Parameter) : Primitive := p.element.primitive

/-- Whether a parameter has a value. -/
def hasValue (p : Parameter) : Bool := p.value.isSome

/-- The parameter with a value, which has to be of its primitive and to meet its constraint
(`Parameter::set_value`). -/
def assign (p : Parameter) (v : Value) : Except StatementFault Parameter := do
  p.element.check v
  if p.constraint.metBy v then .ok { p with value := some v }
  else .error (.constraintViolation p.name v.text p.constraint.text)

/-- The parameter with the value that a text denotes (`set_value_text`); `*` takes the value
away. -/
def assignText (p : Parameter) (s : String) : Except Fault Parameter :=
  match Value.readOptional p.primitive s with
  | .error e => .error (.read e)
  | .ok none => .ok { p with value := none }
  | .ok (some v) => (p.assign v).mapError .statement

/-- The parameter without its value. -/
def cleared (p : Parameter) : Parameter := { p with value := none }

/-- The parameter without its constraint. -/
def freed (p : Parameter) : Parameter := { p with constraint := .unconstrained }

/-- The parameter with the only value that its constraint admits, if it has no value yet and the
constraint leaves no choice (`set_single_value`). -/
def filled (p : Parameter) : Parameter :=
  match p.value with
  | some _ => p
  | none => { p with value := p.constraint.singleValue? }

/-- Whether two parameters say the same. -/
def same (p q : Parameter) : Bool :=
  decide (p.element = q.element) && p.constraint.same q.constraint
    && match p.value, q.value with
      | some v, some w => v.same w
      | none, none => true
      | _, _ => false

end Parameter

/-- An element with a value. -/
structure Metavalue where
  element : Element
  value : Value
deriving DecidableEq

namespace Metavalue

/-- The name of a metavalue is that of its element. -/
def name (m : Metavalue) : String := m.element.name

/-- A metavalue (`Metavalue::new`); the value has to be of the element's primitive. -/
def make (e : Element) (v : Value) : Except StatementFault Metavalue :=
  (e.check v).map fun _ => ⟨e, v⟩

/-- Whether two metavalues say the same. -/
def same (m n : Metavalue) : Bool := decide (m.element = n.element) && m.value.same n.value

end Metavalue

end Measurement
