/-
How messages are read.

The kind of a message is the first in the list of kinds that is the name of one
of its members. The version comes next, then for a statement its verb, the
registry and the parts in the order in which they are written. Null stands for
a member that is absent. A statement that names no registry is about the core
registry.

Senders write bare numbers and truth values where texts belong, and null for an
absent value, so a scalar of any sort is taken as a text (`scalarText`).

The registry of a statement is had from a function on URIs, and contents of an
envelope are read as messages of their own, to any depth.
-/
import Measurement.Json.Document
import Measurement.Message.Writing
import Measurement.Registry.Core

set_option autoImplicit false

namespace Measurement

/-- Where the registries of statements are looked up. -/
abbrev RegistryLookup := String → Except ReadFault Registry

namespace Message

/-- The members of a message. -/
abbrev Members := List (String × Json)

/-! ## 1. Members -/

/-- A fault of the form of a message. -/
def invalid {α : Type} (fault : MessageFault) : Except ReadFault α :=
  .error (.invalidMessage fault)

/-- The text under a name, if there is one (`optional_str`). -/
def optionalText (ms : Members) (name : String) : Except ReadFault (Option String) :=
  match Json.member? name ms with
  | none | some .null => .ok none
  | some (.text s) => .ok (some s)
  | some _ => invalid (.notString name)

/-- The text under a name (`required_str`). -/
def requiredText (ms : Members) (name : String) : Except ReadFault String := do
  match ← optionalText ms name with
  | some s => .ok s
  | none => .error (.missingField name)

/-- The text that a scalar stands for (`scalar_text`). -/
def scalarText : Json → Except ReadFault String
  | .text s => .ok s
  | .number n => .ok n.text
  | .bool true => .ok "True"
  | .bool false => .ok "False"
  | .null => .ok absent
  | j => invalid (.notScalar j.render)

/-- The names and texts in the object under a name (`string_map`). -/
def textRows (ms : Members) (name : String) : Except ReadFault (List (String × String)) :=
  match Json.member? name ms with
  | none | some .null => .ok []
  | some (.object rows) => rows.mapM fun r => (scalarText r.2).map fun s => (r.1, s)
  | some _ => invalid (.notObjectAt name)

/-- Checks that the version of a message is understood (`check_version`). -/
def checkVersion (ms : Members) : Except ReadFault Unit :=
  match Json.member? "version" ms with
  | none => .error (.missingField "version")
  | some (.number (.integer n)) =>
    if n < 0 then invalid .versionNotNatural
    else if messageVersion < n.toNat then .error (.unsupportedVersion n.toNat messageVersion)
    else .ok ()
  | some _ => invalid .versionNotNatural

/-! ## 2. Statements -/

/-- Adds a parameter that is offered: its text is a constraint. -/
def addOffered (s : Statement) (name text : String) : Except Fault Statement :=
  (s.addParameterText name text).mapError .read

/-- Adds a parameter that is asked for: its text is a value. -/
def addRequested (s : Statement) (name text : String) : Except Fault Statement := do
  -- A request constrains nothing: the value alone says what is wanted.
  let s ← (s.addParameterText name absent).mapError .read
  s.setParameterText name text

/-- The names of result columns. -/
def columnNames (ms : Members) : Except ReadFault (List Json) :=
  match Json.member? "results" ms with
  | none => .ok []
  | some (.array names) => .ok names
  | some _ => invalid (.notListAt "results")

/-- Adds a result column. -/
def addColumn (s : Statement) : Json → Except ReadFault Statement
  | .text name => s.addColumn name
  | _ => invalid .columnNotString

/-- Reads the head of a statement: everything before its parameters. -/
def readHead (lookup : RegistryLookup) (ms : Members) (kind : MessageKind) :
    Except ReadFault Statement := do
  let verb ← requiredText ms kind.name
  let uri ← optionalText ms "registry"
  let registry ← lookup (uri.getD Registry.coreUri)
  let label ← optionalText ms "label"
  let link ← optionalText ms "link"
  let exportUri ← optionalText ms "export"
  let token ← optionalText ms "token"
  let scope ← match ← optionalText ms "when" with
    | some text => Scope.read text
    | none => .ok .nowToFuture
  .ok { Statement.make verb registry with
    label := label, link := link, exportUri := exportUri, givenToken := token, scope := scope }

/-- Reads a statement, with parameters added by `add` (`decode_statement`). -/
def readStatement (lookup : RegistryLookup) (ms : Members) (kind : MessageKind)
    (add : Statement → String → String → Except Fault Statement) : Except Fault Statement := do
  let s ← (readHead lookup ms kind).mapError .read
  let parameters ← (textRows ms "parameters").mapError .read
  let s ← parameters.foldlM (fun s r => add s r.1 r.2) s
  let metadata ← (textRows ms "metadata").mapError .read
  let s ← metadata.foldlM (fun s r => s.addMetadataText r.1 r.2) s
  let names ← (columnNames ms).mapError .read
  (names.foldlM addColumn s).mapError .read

/-! ## 3. Rows -/

/-- Appends the cells of a row to the columns. -/
def pushCells : List Column → List Json → Except ReadFault (List Column)
  | c :: cs, cell :: cells => do
    let text ← scalarText cell
    let v ← Value.readOptional c.primitive text
    let rest ← pushCells cs cells
    .ok (c.push v :: rest)
  | _, _ => .ok []

/-- Appends rows to the columns; the first has the number `n`. -/
def pushRows (n : Nat) (columns : List Column) : List Json → Except ReadFault (List Column)
  | [] => .ok columns
  | row :: rows =>
    match row with
    | .array cells =>
      if cells.length = columns.length then do
        let columns ← pushCells columns cells
        pushRows (n + 1) columns rows
      else invalid (.rowWidth n columns.length)
    | _ => invalid (.rowWidth n columns.length)

/-- Reads the rows of a result (`decode_rows`). -/
def readRows (s : Statement) (ms : Members) : Except ReadFault Statement :=
  match Json.member? "resultvalues" ms with
  | none => .ok s
  | some (.array rows) =>
    (pushRows 0 s.columns.values rows).map fun columns =>
      { s with columns := s.columns.withValues columns }
  | some _ => invalid (.notListAt "resultvalues")

/-! ## 4. Messages -/

/-- Reads an exception. -/
def readException (ms : Members) : Except ReadFault Exception := do
  let token ← optionalText ms MessageKind.exception.name
  let message ← optionalText ms "message"
  .ok ⟨token, message.getD ""⟩

/-- Reads the kind of an envelope. -/
def readEnvelopeKind (ms : Members) : Except ReadFault EnvelopeKind := do
  let name ← requiredText ms MessageKind.envelope.name
  match EnvelopeKind.ofName? name with
  | some kind => .ok kind
  | none => invalid (.unknownEnvelope name)

/-- The kind of the message with these members. -/
def kindOf? (ms : Members) : Option MessageKind :=
  MessageKind.all.find? fun kind => (Json.member? kind.name ms).isSome

/-- Reads a message of a kind; `contents` is what an envelope holds. -/
def readKind (lookup : RegistryLookup) (ms : Members) (contents : Except Fault (List Message)) :
    MessageKind → Except Fault Message
  | .capability =>
    (readStatement lookup ms .capability addOffered).map fun s => capability ⟨s⟩
  | .withdrawal =>
    (readStatement lookup ms .withdrawal addOffered).map fun s => withdrawal ⟨s⟩
  | .specification =>
    (readStatement lookup ms .specification addRequested).map fun s => specification ⟨s⟩
  | .receipt =>
    (readStatement lookup ms .receipt addRequested).map fun s => receipt ⟨s⟩
  | .result => do
    let s ← readStatement lookup ms .result addRequested
    let s ← (readRows s ms).mapError .read
    .ok (result ⟨s⟩)
  | .redemption => Except.mapError .read do
    let verb ← requiredText ms MessageKind.redemption.name
    let token ← requiredText ms "token"
    .ok (redemption ⟨verb, token⟩)
  | .interrupt => Except.mapError .read do
    let verb ← requiredText ms MessageKind.interrupt.name
    let token ← requiredText ms "token"
    .ok (interrupt ⟨verb, token⟩)
  | .exception => ((readException ms).map exception).mapError .read
  | .envelope => do
    let kind ← (readEnvelopeKind ms).mapError .read
    let messages ← contents
    .ok (envelope kind messages)

/-- Reads the members of a message, given the contents that it has as an envelope. -/
def ofMembers (lookup : RegistryLookup) (ms : Members)
    (contents : Except Fault (List Message)) : Except Fault Message :=
  match kindOf? ms with
  | none => .error (.read (.invalidMessage .noKind))
  | some kind => do
    -- The version decides how the rest is to be understood, so it is checked before that.
    (checkVersion ms).mapError .read
    readKind lookup ms contents kind

mutual

/-- The message that a JSON value says (`wire::from_json`). -/
def ofJson (lookup : RegistryLookup) : Json → Except Fault Message
  | .object ms => ofMembers lookup ms (contentsOf lookup ms)
  | _ => .error (.read (.invalidMessage .notObject))

/-- The messages in the list under `contents`; none if there is no such member. -/
def contentsOf (lookup : RegistryLookup) : List (String × Json) → Except Fault (List Message)
  | [] => .ok []
  | (name, j) :: rest => if name = "contents" then listOf lookup j else contentsOf lookup rest

/-- The messages in a list. -/
def listOf (lookup : RegistryLookup) : Json → Except Fault (List Message)
  | .array items => allOf lookup items
  | _ => .error (.read (.invalidMessage .contentsNotList))

/-- The messages that JSON values say, one by one. -/
def allOf (lookup : RegistryLookup) : List Json → Except Fault (List Message)
  | [] => .ok []
  | j :: rest => do
    let m ← ofJson lookup j
    let ms ← allOf lookup rest
    .ok (m :: ms)

end

/-- The message that a text says (`wire::from_str`). -/
def read (lookup : RegistryLookup) (s : String) : Except Fault Message :=
  match Json.read s with
  | .ok j => ofJson lookup j
  | .error e => .error (.read (.notJson e))

end Message

end Measurement
