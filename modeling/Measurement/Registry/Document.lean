/-
Registry documents: the JSON form of a registry.

A document is an object with a format, a URI and perhaps a revision, the URIs
of included registries and the elements. It can also be written as the array of
these five in that order, cut short after any of the optional ones, and so can
an element as the array of its name, primitive and description.

Members of other names are passed over, so a later revision of the format can
add some. Everything else is strict: a known member that is repeated, a null
where a value may be left out, or a revision that does not fit 64 bits makes
the document malformed.
-/
import Measurement.Registry.Basic
import Measurement.Json.Document

set_option autoImplicit false

namespace Measurement.Registry

/-- An element as a document gives it, with the name of its primitive (`ElementDocument`). -/
structure Entry where
  name : String
  primitive : String
  description : Option String
deriving DecidableEq

/-- What a registry document says (`RegistryDocument`). -/
structure Document where
  format : String
  uri : String
  revision : Nat
  /-- The URIs of the registries that are merged before the elements. -/
  includes : List String
  entries : List Entry
deriving DecidableEq

namespace Document

/-- The format of registry documents (`REGISTRY_FORMAT`). -/
def expectedFormat : String := "mplane"

/-! ## 1. Parts of a document -/

/-- A text. -/
def text? : Json.Document → Option String
  | .text s => s
  | _ => none

/-- A natural number of 64 bits. -/
def natural? : Json.Document → Option Nat
  | .number (some (.integer n)) => if 0 ≤ n ∧ n < Nat.pow 2 64 then some n.toNat else none
  | _ => none

/-- A text or null. -/
def nullable? : Json.Document → Option (Option String)
  | .null => some none
  | d => (text? d).map some

/-- A list of parts of one kind. -/
def list? {α : Type} (part? : Json.Document → Option α) : Json.Document → Option (List α)
  | .array items => items.mapM part?
  | _ => none

/-- The members of an object. -/
abbrev Members := List (Option String × Json.Document)

/-- The member with a name, or `absent` if there is none; a repeated member has no value. -/
def member? {α : Type} (ms : Members) (name : String) (part? : Json.Document → Option α)
    (absent : Option α) : Option α :=
  match ms.filter fun m => m.1 == some name with
  | [] => absent
  | [m] => part? m.2
  | _ => none

/-- Whether every name in an object is a text. -/
def namesAreTexts (ms : Members) : Bool := ms.all fun m => m.1.isSome

/-- The item at the head of a row, or `absent` if the row is at its end. -/
def item? {α : Type} (part? : Json.Document → Option α) (absent : Option α) :
    List Json.Document → Option (α × List Json.Document)
  | [] => absent.map fun a => (a, [])
  | d :: rest => (part? d).map fun a => (a, rest)

/-! ## 2. Elements and documents -/

/-- An element of a document. -/
def entry? : Json.Document → Option Entry
  | .object ms => do
    guard (namesAreTexts ms)
    let name ← member? ms "name" text? none
    let primitive ← member? ms "prim" text? none
    let description ← member? ms "desc" nullable? (some none)
    some ⟨name, primitive, description⟩
  | .array items => do
    let (name, items) ← item? text? none items
    let (primitive, items) ← item? text? none items
    let (description, items) ← item? nullable? (some none) items
    guard items.isEmpty
    some ⟨name, primitive, description⟩
  | _ => none

/-- What a JSON document says as a registry document. -/
def ofJson? : Json.Document → Option Document
  | .object ms => do
    guard (namesAreTexts ms)
    let format ← member? ms "registry-format" text? none
    let uri ← member? ms "registry-uri" text? none
    let revision ← member? ms "registry-revision" natural? (some 0)
    let includes ← member? ms "includes" (list? text?) (some [])
    let entries ← member? ms "elements" (list? entry?) (some [])
    some ⟨format, uri, revision, includes, entries⟩
  | .array items => do
    let (format, items) ← item? text? none items
    let (uri, items) ← item? text? none items
    let (revision, items) ← item? natural? (some 0) items
    let (includes, items) ← item? (list? text?) (some []) items
    let (entries, items) ← item? (list? entry?) (some []) items
    guard items.isEmpty
    some ⟨format, uri, revision, includes, entries⟩
  | _ => none

/-- What a text says as a registry document. -/
def read (s : String) : Except ReadFault Document :=
  match (Json.Document.read? s).bind ofJson? with
  | none => .error (.invalidRegistry .malformed)
  | some d =>
    if d.format = expectedFormat then .ok d
    else .error (.invalidRegistry (.format d.format))

/-! ## 3. From a document to its registry -/

/-- Puts the elements of a document into a table, one after the other. -/
def define (origin : String) : List Entry → Table Element → Except ReadFault (Table Element)
  | [], t => .ok t
  | e :: rest, t =>
    match Primitive.ofName? e.primitive with
    | none => .error (.unknownPrimitive e.primitive)
    -- An element of the document wins over an included one, and remembers where it comes from.
    | some p => define origin rest (t.insert e.name ⟨e.name, p, e.description, origin⟩)

/-- The registry of a document whose includes have been merged into a table. -/
def registry (d : Document) (included : Table Element) : Except ReadFault Registry :=
  (define d.uri d.entries included).map fun elements => ⟨d.uri, d.revision, elements⟩

end Document

end Measurement.Registry
