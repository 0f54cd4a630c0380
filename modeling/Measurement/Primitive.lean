/-
Primitives: the types of elements.

Every element of a registry has one of seven primitives, which says how its
values are read, written and compared.
-/

set_option autoImplicit false

namespace Measurement

/-- The type of an element. -/
inductive Primitive where
  | string
  | natural
  | real
  | boolean
  | time
  | address
  | url
deriving DecidableEq, Repr

namespace Primitive

/-- All primitives. -/
def all : List Primitive := [string, natural, real, boolean, time, address, url]

/-- The name of a primitive in registry documents. -/
def name : Primitive → String
  | string => "string"
  | natural => "natural"
  | real => "real"
  | boolean => "boolean"
  | time => "time"
  | address => "address"
  | url => "url"

/-- The primitive with a name (`Primitive::from_str`). -/
def ofName? (s : String) : Option Primitive := all.find? fun p => p.name == s

@[simp] theorem ofName?_name (p : Primitive) : ofName? p.name = some p := by
  cases p <;> decide

end Primitive

end Measurement
