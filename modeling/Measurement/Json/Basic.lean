/-
JSON values.

The members of an object keep their order, because a message is written in the
order in which its parts were put together. A value built by `Json.insert` or
read from a text holds each name once.
-/
import Measurement.Json.Number
import Measurement.Table

set_option autoImplicit false

namespace Measurement

/-- A JSON value. -/
inductive Json where
  | null
  | bool (b : Bool)
  | number (n : Json.Number)
  | text (s : String)
  | array (items : List Json)
  | object (members : List (String × Json))
deriving Inhabited

namespace Json

/-- The natural number `n`. -/
def natural (n : Nat) : Json := .number (.integer n)

/-- A text, or null where there is none. -/
def textOrNull : Option String → Json
  | some s => .text s
  | none => .null

/-- The member of an object under a name. -/
def member? (name : String) : List (String × Json) → Option Json := entryUnder? name

/-! ## Writing -/

/-- A character inside a written text: the quote, the backslash and the controls are escaped, and
nothing else. -/
def writtenChar (c : Char) : List Char :=
  match c with
  | '"' => ['\\', '"']
  | '\\' => ['\\', '\\']
  | '\n' => ['\\', 'n']
  | '\r' => ['\\', 'r']
  | '\t' => ['\\', 't']
  | '\x08' => ['\\', 'b']
  | '\x0c' => ['\\', 'f']
  | _ => if c.toNat < 0x20 then ['\\', 'u', '0', '0'] ++ Text.hexOctet c.toNat.toUInt8 else [c]

/-- A text between quotes. -/
def writtenText (s : String) : String :=
  "\"" ++ String.ofList (s.toList.flatMap writtenChar) ++ "\""

mutual

/-- The value as one line without blanks. -/
def render : Json → String
  | .null => "null"
  | .bool true => "true"
  | .bool false => "false"
  | .number n => n.text
  | .text s => writtenText s
  | .array items => "[" ++ renderItems items ++ "]"
  | .object members => "\x7b" ++ renderMembers members ++ "\x7d"

/-- The items of an array with commas between them. -/
def renderItems : List Json → String
  | [] => ""
  | [j] => render j
  | j :: rest => render j ++ "," ++ renderItems rest

/-- The members of an object with commas between them. -/
def renderMembers : List (String × Json) → String
  | [] => ""
  | [(name, j)] => writtenText name ++ ":" ++ render j
  | (name, j) :: rest => writtenText name ++ ":" ++ render j ++ "," ++ renderMembers rest

end

end Json

end Measurement
