/-
TOML documents.

A document is a row of lines: keys with values, which go into the table that
was opened last, and headers, which open one. Arrays go over several lines with
comments between their items; tables between braces stay on one. Arrays and
tables stand in one another to a certain depth.
-/
import Measurement.Toml.Scalar
import Measurement.Toml.Table

set_option autoImplicit false

namespace Measurement.Toml

open Measurement.Text

/-! ## 1. Values -/

/-- What follows blanks, line breaks and comments; none if a comment holds a control character. -/
def dropGap (inComment : Bool) : List Char → Option (List Char)
  | [] => some []
  | '\r' :: '\n' :: r => dropGap false r
  | c :: r =>
    if c = '\n' then dropGap false r
    else if inComment then (if isPlain c then dropGap true r else none)
    else if isSpace c then dropGap false r
    else if c = '#' then dropGap true r
    else some (c :: r)

/-- Arrays and tables between braces may stand in one another this deep. -/
def maxDepth : Nat := 79

mutual

/-- Takes a value; `room` says how many arrays and tables may still be opened. -/
def takeValue (room : Nat) : Nat → List Char → Option (Node × List Char)
  | 0, _ => none
  | fuel + 1, s =>
    match s with
    | '[' :: r =>
      if room = 0 then none
      else (takeItems (room - 1) fuel r).map fun p => (.array p.1, p.2)
    | '\x7b' :: r =>
      if room = 0 then none
      else match dropSpaces r with
        | '\x7d' :: r => some (.table .value [], r)
        | r => do
          let (pairs, r) ← takePairs (room - 1) fuel r
          let es ← Entries.ofPairs pairs
          some (.table .value es, r)
    | s =>
      match takeText s with
      | some (text, r) => some (.text (String.ofList text), r)
      | none => (dropScalar? s).map fun r => (.scalar, r)

/-- Takes the items of an array up to its closing bracket. -/
def takeItems (room : Nat) : Nat → List Char → Option (List Node × List Char)
  | 0, _ => none
  | fuel + 1, s =>
    match dropGap false s with
    | none => none
    | some (']' :: r) => some ([], r)
    | some s => do
      let (v, r) ← takeValue room fuel s
      match ← dropGap false r with
      | ',' :: r => do
        let (vs, r) ← takeItems room fuel r
        some (v :: vs, r)
      | ']' :: r => some ([v], r)
      | _ => none

/-- Takes the keys and values of a table up to its closing brace. -/
def takePairs (room : Nat) : Nat → List Char → Option (List (Key × Node) × List Char)
  | 0, _ => none
  | fuel + 1, s => do
    let (key, r) ← takeKey (dropSpaces s)
    let r ← dropLead? ['='] r
    let (v, r) ← takeValue room fuel (dropSpaces r)
    match dropSpaces r with
    | ',' :: r => do
      let (pairs, r) ← takePairs room fuel r
      some ((key, v) :: pairs, r)
    | '\x7d' :: r => some ([(key, v)], r)
    | _ => none

end

/-! ## 2. Lines -/

/-- A line of a document. -/
inductive Line where
  | blank
  | pair (key : Key) (v : Node)
  | table (key : Key)
  | item (key : Key)

/-- What follows the end of a line: spaces, perhaps a comment, and a line break unless the document
ends. -/
def dropLineEnd? (s : List Char) : Option (List Char) :=
  let r := match dropSpaces s with
    | '#' :: r => r.dropWhile isPlain
    | r => r
  match r with
  | [] => some []
  | r => dropBreak? r

/-- Takes what stands on a line. -/
def takeContent (s : List Char) : Option (Line × List Char) :=
  match s with
  | [] | '\n' :: _ | '\r' :: _ | '#' :: _ => some (.blank, s)
  | '[' :: '[' :: r => do
    let (key, r) ← takeKey (dropSpaces r)
    let r ← dropLead? [']', ']'] r
    some (.item key, r)
  | '[' :: r => do
    let (key, r) ← takeKey (dropSpaces r)
    let r ← dropLead? [']'] r
    some (.table key, r)
  | s => do
    let (key, r) ← takeKey s
    let r ← dropLead? ['='] r
    let (v, r) ← takeValue maxDepth (2 * r.length + 2) (dropSpaces r)
    some (.pair key v, r)

/-- The lines of a text, at most `fuel` of them. -/
def linesWithin : Nat → List Char → Option (List Line)
  | 0, s => if s.isEmpty then some [] else none
  | fuel + 1, s =>
    if s.isEmpty then some []
    else do
      let (line, r) ← takeContent (dropSpaces s)
      let rest ← linesWithin fuel (← dropLineEnd? r)
      some (line :: rest)

/-! ## 3. Documents -/

/-- The tables of a document so far and the header of the table that was opened last. -/
structure Builder where
  root : Entries
  opened : List String

/-- Adds a line. -/
def Builder.add (b : Builder) : Line → Option Builder
  | .blank => some b
  | .pair key v =>
    (Entries.within (Entries.put key.name v key.path) b.opened b.root).map fun root =>
      { b with root := root }
  | .table key =>
    (Entries.within (Entries.openTable key.name) key.path b.root).map fun root =>
      ⟨root, key.path ++ [key.name]⟩
  | .item key =>
    (Entries.within (Entries.openItem key.name) key.path b.root).map fun root =>
      ⟨root, key.path ++ [key.name]⟩

/-- The entries of the document that a text holds. A mark of the order of octets at its beginning
is passed over. -/
def read? (s : String) : Option Entries :=
  let bare := match s.toList with
    | '\ufeff' :: r => r
    | r => r
  (linesWithin (bare.length + 1) bare).bind fun lines =>
    (lines.foldlM Builder.add ⟨[], []⟩).map Builder.root

end Measurement.Toml
