/-
Constraints: the values that a capability accepts for a parameter.

A constraint admits anything (`*`), the values between two bounds (`a ... b`),
or the values of a list (`a,b,c`), of which a lone value is the shortest.
Bounds are put in order when they are read. A separator is looked for before
the values are read, so a range is recognised first.
-/
import Measurement.Value
import Measurement.Text.Split

set_option autoImplicit false

namespace Measurement

open Measurement.Text

/-- What a parameter's value may be. -/
inductive Constraint where
  /-- Anything. -/
  | unconstrained
  /-- The values from one bound to the other, both included. -/
  | range (low high : Value)
  /-- The values of a list. -/
  | set (values : List Value)
deriving DecidableEq

namespace Constraint

/-- What stands between the bounds of a range. -/
def rangeSeparator : String := " ... "

/-- What stands between the values of a list. -/
def setSeparator : Char := ','

/-- The range between two values, the lower one first (`Constraint::range`). -/
def between (a b : Value) : Constraint :=
  if a.order? b = some .gt then range b a else range a b

/-- The constraint that a text denotes (`Constraint::parse`). -/
def read (p : Primitive) (s : String) : Except ReadFault Constraint :=
  let bare := trim s.toList
  if bare = absent.toList then .ok unconstrained
  else match cut? rangeSeparator.toList bare with
    | some (a, b) => do
      let low ← Value.read p (String.ofList a)
      let high ← Value.read p (String.ofList b)
      if (low.order? high).isNone then .error (.invalidConstraint (String.ofList bare))
      else .ok (between low high)
    | none => do
      let values ← (bare.splitOnP (· == setSeparator)).mapM fun v => Value.read p (String.ofList v)
      .ok (set values)

/-- The text of a constraint. -/
def text : Constraint → String
  | unconstrained => absent
  | range a b => a.text ++ rangeSeparator ++ b.text
  | set values => setSeparator.toString.intercalate (values.map Value.text)

/-- Whether a constraint admits a value (`met_by`). -/
def metBy (c : Constraint) (v : Value) : Bool :=
  match c with
  | unconstrained => true
  | range a b => a.atMost v && v.atMost b
  | set values => values.any fun w => w.same v

/-- The value of a constraint that leaves no choice (`single_value`). -/
def singleValue? : Constraint → Option Value
  | range a b => if a.same b then some a else none
  | set [v] => some v
  | _ => none

/-- Whether a constraint admits anything. -/
def isUnconstrained : Constraint → Bool
  | unconstrained => true
  | _ => false

/-- Whether two constraints are written with equal values. -/
def same : Constraint → Constraint → Bool
  | unconstrained, unconstrained => true
  | range a b, range c d => a.same c && b.same d
  | set vs, set ws => vs.length == ws.length && (vs.zip ws).all fun p => p.1.same p.2
  | _, _ => false

end Constraint

end Measurement
