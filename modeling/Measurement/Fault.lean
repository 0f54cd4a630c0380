/-
What can go wrong with a text, a message or a statement.

A fault is a cause with the data that its wording needs, and `message` is the
only place where it is worded. `ReadFault` is for texts and messages that do
not say anything, `StatementFault` for statements that break the rules of their
kind, and `Fault` is either.
-/
import Measurement.Primitive
import Measurement.Crontab.Field
import Measurement.Json.Fault

set_option autoImplicit false

namespace Measurement

open Measurement.Text

/-! ## 1. Texts and messages -/

/-- What can be wrong with the text of a temporal scope. -/
inductive ScopeFault where
  | noInnerScope
  | innerScopeOpen
  | innerScopeForm
  | periodAndCrontab
  | noRecurrence
  | missingStart
  | startsInFuture
  | endsInPast
  | durationFromPast
  | periodNotPositive
deriving DecidableEq, Repr

/-- The wording of a fault of a temporal scope. -/
def ScopeFault.message : ScopeFault → String
  | noInnerScope => "repeated scope needs an inner scope in braces"
  | innerScopeOpen => "inner scope is not closed"
  | innerScopeForm => "inner scope must be of the form now [+ duration] [/ period]"
  | periodAndCrontab => "repeated scope cannot have both a period and a crontab"
  | noRecurrence => "repeated scope needs a period or a crontab"
  | missingStart => "missing start"
  | startsInFuture => "a scope cannot start in the future sentinel"
  | endsInPast => "a scope cannot end in the past sentinel"
  | durationFromPast => "a duration needs a concrete or current start"
  | periodNotPositive => "period must be positive"

/-- Why a path leads to no file. -/
inductive FileFault where
  | missing
  /-- The path goes on behind a file. -/
  | notFolder
  /-- The path leads to a folder. -/
  | folder
  | nameTooLong
  /-- The path holds a character that no name can hold. -/
  | noPath
deriving DecidableEq, Repr

/-- The wording of a fault of a path. -/
def FileFault.message : FileFault → String
  | missing => "No such file or directory (os error 2)"
  | notFolder => "Not a directory (os error 20)"
  | folder => "Is a directory (os error 21)"
  | nameTooLong => "File name too long (os error 36)"
  | noPath => "file name contained an unexpected NUL byte"

/-- What can be wrong with a registry document. -/
inductive RegistryFault where
  /-- The text is not a document of the expected form; the fault is not worded further. -/
  | malformed
  /-- The document is of another format. -/
  | format (found : String)
  /-- The registry is included while it is being loaded. -/
  | includesItself (uri : String)
  /-- There is no file for the document. -/
  | noFile (path : String) (fault : FileFault)
deriving DecidableEq, Repr

/-- The wording of a fault of a registry document. -/
def RegistryFault.message : RegistryFault → String
  | malformed => ""
  | format found => "unsupported registry format " ++ quoted found
  | includesItself uri => "registry " ++ uri ++ " includes itself"
  | noFile path fault => path ++ ": " ++ fault.message

/-- What can be wrong with the form of a message. -/
inductive MessageFault where
  | notObject
  | noKind
  | versionNotNatural
  | notString (key : String)
  | notObjectAt (key : String)
  | notListAt (key : String)
  | contentsNotList
  | columnNotString
  | rowWidth (row width : Nat)
  | unknownEnvelope (name : String)
  /-- A container stands where a scalar is expected; `found` is its text. -/
  | notScalar (found : String)
deriving DecidableEq, Repr

/-- The wording of a fault of a message. -/
def MessageFault.message : MessageFault → String
  | notObject => "message is not an object"
  | noKind => "no message kind key"
  | versionNotNatural => "version is not a natural number"
  | notString key => key ++ " is not a string"
  | notObjectAt key => key ++ " is not an object"
  | notListAt key => key ++ " is not a list"
  | contentsNotList => "envelope contents is not a list"
  | columnNotString => "result column name is not a string"
  | rowWidth row width => s!"result row {row} does not have {width} values"
  | unknownEnvelope name => "unknown envelope kind " ++ quoted name
  | notScalar found => "expected a scalar, found " ++ found

/-- What can be wrong with a text or a message (`ParseError`). -/
inductive ReadFault where
  | invalidValue (primitive : Primitive) (text : String)
  | unknownPrimitive (name : String)
  | invalidTime (text : String)
  | invalidDuration (text : String)
  | invalidScope (text : String) (fault : ScopeFault)
  | invalidCrontab (text : String) (fault : Crontab.Fault)
  | invalidConstraint (text : String)
  | unknownElement (name registry : String)
  | unknownRegistry (uri : String)
  | invalidRegistry (fault : RegistryFault)
  | unsupportedVersion (found supported : Nat)
  | missingField (key : String)
  | invalidMessage (fault : MessageFault)
  /-- The text is not JSON. -/
  | notJson (fault : Json.Fault)
deriving DecidableEq, Repr

/-- The wording of a fault of a text or a message. -/
def ReadFault.message : ReadFault → String
  | invalidValue primitive text => "invalid " ++ primitive.name ++ " value: " ++ quoted text
  | unknownPrimitive name => "unknown primitive: " ++ name
  | invalidTime text => "invalid time: " ++ quoted text
  | invalidDuration text => "invalid duration: " ++ quoted text
  | invalidScope text fault => "invalid temporal scope " ++ quoted text ++ ": " ++ fault.message
  | invalidCrontab text fault => "invalid crontab " ++ quoted text ++ ": " ++ fault.message
  | invalidConstraint text => "invalid constraint: " ++ quoted text
  | unknownElement name registry => "unknown element " ++ name ++ " in registry " ++ registry
  | unknownRegistry uri => "unknown registry: " ++ uri
  | invalidRegistry fault => "invalid registry document: " ++ fault.message
  | unsupportedVersion found supported =>
    s!"unsupported protocol version {found} (highest understood: {supported})"
  | missingField key => "missing field: " ++ key
  | invalidMessage fault => "invalid message: " ++ fault.message
  | notJson fault => "JSON error: " ++ fault.message

/-! ## 2. Statements -/

/-- How a statement can break the rules of its kind (`ValidationError`). Values, constraints and
scopes are given by their texts. -/
inductive StatementFault where
  | constraintViolation (name value constraint : String)
  | primitiveMismatch (name value : String) (primitive : Primitive)
  | unknownParameter (name : String)
  | rowOutOfRange (name : String) (row limit : Nat)
  | unknownColumn (name : String)
  | capabilityValue (name : String)
  | capabilityRows
  | missingValue (name : String)
  | indefiniteScope (scope : String)
deriving DecidableEq, Repr

/-- The wording of a fault of a statement. -/
def StatementFault.message : StatementFault → String
  | constraintViolation name value constraint =>
    "value " ++ value ++ " does not satisfy constraint " ++ constraint ++ " on parameter " ++ name
  | primitiveMismatch name value primitive =>
    "value " ++ value ++ " is not a " ++ primitive.name ++ " as required by " ++ name
  | unknownParameter name => "no parameter named " ++ name
  | rowOutOfRange name row limit =>
    s!"row {row} of result column {name} is beyond the limit of {limit} rows"
  | unknownColumn name => "no result column named " ++ name
  | capabilityValue name => "capability parameter " ++ name ++ " must not carry a value"
  | capabilityRows => "capability must not carry result rows"
  | missingValue name => "parameter " ++ name ++ " has no value"
  | indefiniteScope scope => "result temporal scope " ++ scope ++ " is not definite"

/-- A fault of either sort (`Error`). -/
inductive Fault where
  | read (fault : ReadFault)
  | statement (fault : StatementFault)
deriving DecidableEq, Repr

/-- The wording of a fault. -/
def Fault.message : Fault → String
  | read fault => fault.message
  | statement fault => fault.message

end Measurement
