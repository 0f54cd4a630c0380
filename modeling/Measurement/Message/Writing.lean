/-
How messages are written.

A message is a JSON object whose first member is named for its kind and, for a
statement, holds the verb. Parameters are written as constraints where they are
offered (in capabilities and withdrawals) and as values where they are asked
for; absent values are written `*`. Only a result has rows.
-/
import Measurement.Message.Basic
import Measurement.Json.Basic

set_option autoImplicit false

namespace Measurement

/-- The highest version of messages that is understood, and the one that is written
(`PROTOCOL_VERSION`). -/
def messageVersion : Nat := 1

namespace Statement

/-- A member of an object, if it has a value. -/
def optionalMember (name : String) : Option String → List (String × Json)
  | some s => [(name, .text s)]
  | none => []

/-- The members of an object that shows the entries of a table under their names. -/
def tableMembers {α : Type} (t : Table α) (text : α → String) : List (String × Json) :=
  t.entries.map fun e => (e.1, .text (text e.2))

/-- The members of a written statement, with parameters written by `parameter`
(`encode_statement`). -/
def members (s : Statement) (kind : MessageKind) (parameter : Parameter → String) :
    List (String × Json) :=
  [(kind.name, .text s.verb), ("version", .natural messageVersion),
    ("registry", .text s.registry.uri)]
  ++ optionalMember "label" s.label
  ++ optionalMember "link" s.link
  ++ optionalMember "export" s.exportUri
  ++ [("token", .text s.token), ("when", .text s.scope.text),
    ("parameters", .object (tableMembers s.parameters parameter)),
    ("metadata", .object (tableMembers s.metadata fun m => m.value.text)),
    ("results", .array (s.columns.names.map .text))]

/-- The written form of an offer: parameters show what they admit. -/
def offerMembers (s : Statement) (kind : MessageKind) : List (String × Json) :=
  s.members kind fun p => p.constraint.text

/-- The written form of a request: parameters show their values. -/
def requestMembers (s : Statement) (kind : MessageKind) : List (String × Json) :=
  s.members kind fun p => Value.textOrAbsent p.value

/-- The rows of a statement as they are written. -/
def writtenRows (s : Statement) : Json :=
  .array ((List.range s.rowCount).map fun n =>
    .array ((s.row n).map fun v => .text (Value.textOrAbsent v)))

end Statement

namespace Message

mutual

/-- The JSON form of a message (`wire::to_json`). -/
def toJson : Message → Json
  | capability c => .object (c.statement.offerMembers .capability)
  | specification s => .object (s.statement.requestMembers .specification)
  | result r =>
    .object (r.statement.requestMembers .result ++ [("resultvalues", r.statement.writtenRows)])
  | receipt r => .object (r.statement.requestMembers .receipt)
  | withdrawal w => .object (w.statement.offerMembers .withdrawal)
  | redemption r =>
    .object [("redemption", .text r.verb), ("version", .natural messageVersion),
      ("token", .text r.token)]
  | interrupt i =>
    .object [("interrupt", .text i.verb), ("version", .natural messageVersion),
      ("token", .text i.token)]
  | exception e =>
    .object [("exception", .textOrNull e.token), ("version", .natural messageVersion),
      ("message", .text e.message)]
  | envelope kind contents =>
    .object [("envelope", .text kind.name), ("version", .natural messageVersion),
      ("contents", .array (allToJson contents))]

/-- The JSON forms of messages. -/
def allToJson : List Message → List Json
  | [] => []
  | m :: ms => toJson m :: allToJson ms

end

/-- A message as one line of text (`wire::to_string`). -/
def text (m : Message) : String := m.toJson.render

end Message

end Measurement
