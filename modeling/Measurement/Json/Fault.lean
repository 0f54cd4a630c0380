/-
What can be wrong with a JSON text, and where.

A text is read from its start, and the first fault ends the reading. A reader
says why it stopped and how many octets it had not got past (`Stop`); in the
text itself that is a line and a column (`Fault`). Lines count from one. A
column is the number of octets of the line up to and including the one that is
wrong, so where the text ends too early it is the length of the last line.
-/

set_option autoImplicit false

namespace Measurement.Json

/-- What can be wrong with a JSON text. -/
inductive Cause where
  /-- The text ends in an array. -/
  | endInArray
  | endInObject
  /-- The text ends between quotes. -/
  | endInText
  /-- The text ends where a value or the rest of one belongs. -/
  | endInValue
  | noColon
  /-- Neither a comma nor the end of the array follows an item. -/
  | noItemEnd
  | noMemberEnd
  /-- A word starts like `null`, `true` or `false` and goes on differently. -/
  | noLiteral
  | noValue
  | noName
  | badEscape
  | badNumeral
  /-- A number has no finite value. -/
  | outOfRange
  | control
  /-- A surrogate does not belong to a pair. -/
  | loneSurrogate
  /-- No second surrogate follows a first one. -/
  | brokenPair
  | trailingComma
  /-- Something follows the value. -/
  | trailing
  /-- Arrays and objects stand too deep in one another. -/
  | tooDeep
deriving DecidableEq, Repr

/-- The wording of a cause. -/
def Cause.message : Cause → String
  | endInArray => "EOF while parsing a list"
  | endInObject => "EOF while parsing an object"
  | endInText => "EOF while parsing a string"
  | endInValue => "EOF while parsing a value"
  | noColon => "expected `:`"
  | noItemEnd => "expected `,` or `]`"
  | noMemberEnd => "expected `,` or `\x7d`"
  | noLiteral => "expected ident"
  | noValue => "expected value"
  | noName => "key must be a string"
  | badEscape => "invalid escape"
  | badNumeral => "invalid number"
  | outOfRange => "number out of range"
  | control => "control character (\\u0000-\\u001F) found while parsing a string"
  | loneSurrogate => "lone leading surrogate in hex escape"
  | brokenPair => "unexpected end of hex escape"
  | trailingComma => "trailing comma"
  | trailing => "trailing characters"
  | tooDeep => "recursion limit exceeded"

/-- What is wrong with a text, and where. -/
structure Fault where
  cause : Cause
  line : Nat
  column : Nat
deriving DecidableEq, Repr

/-- The wording of a fault. -/
def Fault.message (f : Fault) : String :=
  f.cause.message ++ s!" at line {f.line} column {f.column}"

/-! ## 1. Where a reader stopped -/

/-- The number of octets of a text. -/
def octets (s : List Char) : Nat := s.foldl (fun n c => n + c.utf8Size) 0

/-- Why a reader stopped, and how many octets of the text it had not got past. -/
structure Stop where
  cause : Cause
  left : Nat
deriving DecidableEq, Repr

namespace Stop

/-- At the head of what is left. -/
def before (cause : Cause) (s : List Char) : Stop := ⟨cause, octets s⟩

/-- At the first octet of what is left, or at the end. -/
def upon (cause : Cause) (s : List Char) : Stop := ⟨cause, octets s - 1⟩

/-- Where the rest of a value is missing: the text ends or goes on with something else. -/
def missing (cause : Cause) (s : List Char) : Stop :=
  if s.isEmpty then ⟨.endInValue, 0⟩ else upon cause s

/-- The fault that a stop is in a text. -/
def locate (stop : Stop) (s : String) : Fault :=
  let passed := s.toUTF8.extract 0 (s.utf8ByteSize - stop.left)
  let (line, column) := passed.foldl
    (fun p octet => if octet = 10 then (p.1 + 1, 0) else (p.1, p.2 + 1)) (1, 0)
  ⟨stop.cause, line, column⟩

end Stop

end Measurement.Json
