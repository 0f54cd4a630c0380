/-
What a statement is about: its schema, its content and its token.

The schema is the registry and the names of parameters and result columns; the
content is all that a component acts on, which leaves out the label, the link
and the token. Both are hashed as lines of text with their parts in the order
of their names, so the order in which parts were added does not count.

The token of a statement is the one it was given, or else the digest of its
content. A specification whose scope is relative to the time of its evaluation
gets a token of that time.
-/
import Measurement.Digest
import Measurement.Statement.Basic

set_option autoImplicit false

namespace Measurement.Statement

/-- Texts in ascending order, with commas between them (`sorted`). -/
def inOrder (texts : List String) : String :=
  ",".intercalate (texts.mergeSort fun a b => decide (a ≤ b))

/-! ## 1. Schema -/

/-- The lines that make a schema. -/
def schemaLines (s : Statement) : List String :=
  ["r:" ++ s.registry.uri,
   "p:" ++ inOrder s.parameters.names,
   "r:" ++ inOrder s.columns.names]

/-- The digest of the schema (`schema_hash`). -/
def schemaDigest (s : Statement) : String := Digest.ofLines s.schemaLines

/-! ## 2. Content -/

/-- What a parameter contributes to the content. -/
def parameterText (p : Parameter) : String :=
  p.name ++ "=" ++ p.constraint.text ++ ":" ++ Value.textOrAbsent p.value

/-- What metadata contributes to the content. -/
def metadataText (m : Metavalue) : String := m.name ++ "=" ++ m.value.text

/-- The lines that make the content. -/
def contentLines (s : Statement) : List String :=
  ["v:" ++ s.verb,
   "w:" ++ s.scope.text,
   "p:" ++ inOrder (s.parameters.values.map parameterText),
   "m:" ++ inOrder (s.metadata.values.map metadataText),
   "r:" ++ inOrder s.columns.names,
   "e:" ++ s.exportUri.getD ""]

/-- The digest of the content (`mpcv_hash`). -/
def contentDigest (s : Statement) : String := Digest.ofLines s.contentLines

/-! ## 3. Tokens -/

/-- The token of a statement (`Statement::token`): the one it was given, or else the digest of its
content. -/
def token (s : Statement) : String := s.givenToken.getD s.contentDigest

/-- The statement with a token. -/
def withToken (s : Statement) (token : String) : Statement := { s with givenToken := some token }

/-- The digest of the content at a time (`hash::retoken`). -/
def contentDigestAt (s : Statement) (t : Instant) : String :=
  -- Requests within one second are the same request.
  Digest.ofLines [s.contentDigest, "t:" ++ t.wholeSecond.text]

end Measurement.Statement
