/-
Registries: the named, typed elements that statements are built from.

A registry is identified by its URI and holds its elements in order. An element
remembers the registry that defined it, so an element keeps its origin when the
registry is included in another one. Two registries are the same when they say
the same, whatever the order of their elements.
-/
import Measurement.Fault
import Measurement.Table

set_option autoImplicit false

namespace Measurement

/-- A named, typed element. -/
structure Element where
  name : String
  primitive : Primitive
  description : Option String
  /-- The URI of the registry that defined the element. -/
  origin : String
deriving DecidableEq

/-- An ordered set of elements with a URI. -/
structure Registry where
  uri : String
  revision : Nat
  /-- The elements under their names. -/
  elements : Table Element
deriving DecidableEq

namespace Registry

instance : Inhabited Registry := ⟨"", 0, .empty⟩

/-- The element with a name (`Registry::element`). -/
def element (r : Registry) (name : String) : Except ReadFault Element :=
  match r.elements.get? name with
  | some e => .ok e
  | none => .error (.unknownElement name r.uri)

/-- The number of elements. -/
def size (r : Registry) : Nat := r.elements.size

/-- Whether two registries say the same. -/
def same (r s : Registry) : Bool :=
  r.uri == s.uri && r.revision == s.revision
    && r.elements.agree (fun a b => decide (a = b)) s.elements

end Registry

end Measurement
