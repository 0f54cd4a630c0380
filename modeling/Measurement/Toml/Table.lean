/-
The tables of a TOML document and how they may be put together.

A table is opened once, by a header or as a value between braces. Tables that
are only on the way to another one are there without having been opened: a
header on the way leaves one that can still be opened (`implied`), a key with
points leaves one that takes further keys with points (`dotted`). Nothing is
written twice.
-/
import Measurement.Table
import Measurement.Toml.Text

set_option autoImplicit false

namespace Measurement.Toml

/-- How a table came to be there. -/
inductive Origin where
  /-- By a header. -/
  | header
  /-- On the way of a header. -/
  | implied
  /-- On the way of a key. -/
  | dotted
  /-- As a value. -/
  | value
deriving DecidableEq

/-- A value of a document. -/
inductive Node where
  | text (s : String)
  /-- A number, a truth value or a time. No part of a configuration asks for one, so it only takes
  up its place. -/
  | scalar
  | array (items : List Node)
  | table (origin : Origin) (entries : List (String × Node))
  /-- Tables opened one after the other under one header. -/
  | tables (items : List (List (String × Node)))
deriving Inhabited

/-- The entries of a table. -/
abbrev Entries := List (String × Node)

namespace Entries

/-- Whether a name is taken. -/
def has (es : Entries) (name : String) : Bool := (entryUnder? name es).isSome

/-- Writes a value under a key, relative to a table. -/
def put (key : String) (v : Node) : List String → Entries → Option Entries
  | [], es => if has es key then none else some (es ++ [(key, v)])
  | name :: path, es =>
    match entryUnder? name es with
    | none => (put key v path []).map fun sub => putEntry name (.table .dotted sub) es
    | some (.table origin sub) =>
      -- A table on the way of a header takes no keys of its own, but lets longer keys pass.
      if origin = .dotted ∨ (origin = .implied ∧ path ≠ []) then
        (put key v path sub).map fun sub => putEntry name (.table origin sub) es
      else none
    -- The latest of several tables was opened by a header, so it too takes longer keys only.
    | some (.tables items) =>
      if path = [] then none
      else match items.getLast? with
        | none => none
        | some latest =>
          (put key v path latest).map fun latest =>
            putEntry name (.tables (items.dropLast ++ [latest])) es
    | some _ => none

/-- Changes the table that a header's path leads to, the latest of several. -/
def within (change : Entries → Option Entries) : List String → Entries → Option Entries
  | [], es => change es
  | name :: path, es =>
    match entryUnder? name es with
    | none => (within change path []).map fun sub => putEntry name (.table .implied sub) es
    -- A table between braces is complete.
    | some (.table .value _) => none
    | some (.table origin sub) =>
      (within change path sub).map fun sub => putEntry name (.table origin sub) es
    | some (.tables items) =>
      match items.getLast? with
      | none => none
      | some latest =>
        (within change path latest).map fun latest =>
          putEntry name (.tables (items.dropLast ++ [latest])) es
    | some _ => none

/-- Opens a table. -/
def openTable (name : String) (es : Entries) : Option Entries :=
  match entryUnder? name es with
  | none => some (putEntry name (.table .header []) es)
  | some (.table .implied sub) => some (putEntry name (.table .header sub) es)
  | some _ => none

/-- Opens one more of several tables. -/
def openItem (name : String) (es : Entries) : Option Entries :=
  match entryUnder? name es with
  | none => some (putEntry name (.tables [[]]) es)
  | some (.tables items) => some (putEntry name (.tables (items ++ [[]])) es)
  | some _ => none

/-- The table that keys and their values make. -/
def ofPairs (pairs : List (Key × Node)) : Option Entries :=
  pairs.foldlM (fun es p => put p.1.name p.2 p.1.path es) []

end Entries

end Measurement.Toml
