/-
Keys and texts of TOML documents.

A text stands between quotes with escapes or between apostrophes without, on one
line or, between three of either, on several. A key is a row of segments with
points between them, each bare or written as a text on one line.

Every reader here takes its part off the front of a text and gives what it says
together with what follows.
-/
import Measurement.Text.Split
import Measurement.Text.Numeral

set_option autoImplicit false

namespace Measurement.Toml

open Measurement.Text

/-! ## 1. Characters -/

/-- A space or a tab. -/
def isSpace (c : Char) : Bool := c == ' ' || c == '\t'

/-- A character that can stand in a comment or a text on one line: a tab, or no control. -/
def isPlain (c : Char) : Bool := c == '\t' || (0x20 ≤ c.toNat && c.toNat != 0x7F)

/-- A character of a bare segment of a key. -/
def isBare (c : Char) : Bool := c.isAlphanum || c == '_' || c == '-'

/-- The text from its first character that is not a space or tab. -/
def dropSpaces (s : List Char) : List Char := s.dropWhile isSpace

/-- What follows a line break, if the text starts with one. -/
def dropBreak? : List Char → Option (List Char)
  | '\n' :: r => some r
  | '\r' :: '\n' :: r => some r
  | _ => none

/-- The character with a code in hexadecimal. -/
def charOfHex? (s : List Char) : Option Char :=
  (hexNumber? s).bind fun n => if n.isValidChar then some (Char.ofNat n) else none

/-- The character that a letter after a backslash stands for. -/
def escaped? : Char → Option Char
  | 'b' => some '\x08'
  | 't' => some '\t'
  | 'n' => some '\n'
  | 'f' => some '\x0c'
  | 'r' => some '\r'
  | '"' => some '"'
  | '\\' => some '\\'
  | _ => none

/-! ## 2. Texts -/

/-- What a text says and what follows it. -/
abbrev Taken := Option (List Char × List Char)

/-- Puts a character in front of what a text says. -/
def Taken.cons (c : Char) (t : Taken) : Taken := t.map fun p => (c :: p.1, p.2)

/-- Takes a text between quotes up to the closing one. -/
def takeBasic : List Char → Taken
  | [] => none
  | '"' :: r => some ([], r)
  | '\\' :: 'u' :: a :: b :: c :: d :: r =>
    (charOfHex? [a, b, c, d]).bind fun e => (takeBasic r).cons e
  | '\\' :: 'U' :: a :: b :: c :: d :: e :: f :: g :: h :: r =>
    (charOfHex? [a, b, c, d, e, f, g, h]).bind fun e => (takeBasic r).cons e
  | '\\' :: c :: r => (escaped? c).bind fun e => (takeBasic r).cons e
  | c :: r => if isPlain c then (takeBasic r).cons c else none

/-- Takes a text between apostrophes up to the closing one. -/
def takeLiteral : List Char → Taken
  | [] => none
  | '\'' :: r => some ([], r)
  | c :: r => if isPlain c then (takeLiteral r).cons c else none

/-- What follows three closing marks: up to two more of them belong to the text. -/
def closing (mark : Char) : List Char → List Char × List Char
  | a :: b :: r =>
    if a = mark ∧ b = mark then ([mark, mark], r)
    else if a = mark then ([mark], b :: r)
    else ([], a :: b :: r)
  | [a] => if a = mark then ([mark], []) else ([], [a])
  | [] => ([], [])

/-- Whether nothing but spaces is left on the line. -/
def endsLine (s : List Char) : Bool := (dropBreak? (dropSpaces s)).isSome

/-- Takes a text of several lines between quotes. After a backslash at the end of a line, blanks
and line breaks are passed over (`passing`). -/
def takeLongBasic (passing : Bool) : List Char → Taken
  | [] => none
  | '"' :: '"' :: '"' :: r => some (closing '"' r)
  | '\\' :: 'u' :: a :: b :: c :: d :: r =>
    (charOfHex? [a, b, c, d]).bind fun e => (takeLongBasic false r).cons e
  | '\\' :: 'U' :: a :: b :: c :: d :: e :: f :: g :: h :: r =>
    (charOfHex? [a, b, c, d, e, f, g, h]).bind fun e => (takeLongBasic false r).cons e
  | '\\' :: c :: r =>
    match escaped? c with
    | some e => (takeLongBasic false r).cons e
    -- No letter of an escape: the line has to end here, after nothing but spaces.
    | none => if endsLine (c :: r) then takeLongBasic true (c :: r) else none
  | '\r' :: '\n' :: r =>
    if passing then takeLongBasic true r else (takeLongBasic false r).cons '\n'
  | c :: r =>
    if passing && (isSpace c || c == '\n') then takeLongBasic true r
    else if isPlain c || c == '\n' then (takeLongBasic false r).cons c
    else none

/-- Takes a text of several lines between apostrophes. -/
def takeLongLiteral : List Char → Taken
  | [] => none
  | '\'' :: '\'' :: '\'' :: r => some (closing '\'' r)
  | '\r' :: '\n' :: r => (takeLongLiteral r).cons '\n'
  | c :: r => if isPlain c || c == '\n' then (takeLongLiteral r).cons c else none

/-- The text after a line break, if it starts with one. -/
def dropFirstBreak (s : List Char) : List Char := (dropBreak? s).getD s

/-- Takes a text of any form, if there is one. -/
def takeText : List Char → Taken
  | '"' :: '"' :: '"' :: r => takeLongBasic false (dropFirstBreak r)
  | '\'' :: '\'' :: '\'' :: r => takeLongLiteral (dropFirstBreak r)
  | '"' :: r => takeBasic r
  | '\'' :: r => takeLiteral r
  | _ => none

/-! ## 3. Keys -/

/-- Takes a segment of a key. -/
def takeSegment : List Char → Taken
  | '"' :: r => takeBasic r
  | '\'' :: r => takeLiteral r
  | s =>
    let bare := s.takeWhile isBare
    if bare.isEmpty then none else some (bare, s.dropWhile isBare)

/-- Takes the segments of a key, at most `fuel` of them, and the spaces after it. -/
def takeSegments : Nat → List Char → Option (List String × List Char)
  | 0, _ => none
  | fuel + 1, s =>
    (takeSegment s).bind fun p =>
      let segment := String.ofList p.1
      match dropSpaces p.2 with
      | '.' :: r => (takeSegments fuel (dropSpaces r)).map fun q => (segment :: q.1, q.2)
      | r => some ([segment], r)

/-- A key: the names of the tables on the way, and the last name. -/
structure Key where
  path : List String
  name : String
deriving DecidableEq

/-- The most segments that a key may have. -/
def maxSegments : Nat := 79

/-- The key with these segments. -/
def Key.ofSegments? (segments : List String) : Option Key :=
  if segments.length ≤ maxSegments then
    segments.getLast?.map fun name => ⟨segments.dropLast, name⟩
  else none

/-- Takes a key and the spaces after it. -/
def takeKey (s : List Char) : Option (Key × List Char) := do
  let (segments, r) ← takeSegments (s.length + 1) s
  let key ← Key.ofSegments? segments
  some (key, r)

end Measurement.Toml
