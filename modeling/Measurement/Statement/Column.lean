/-
Result columns: the values of one element, row by row.

A cell may be absent. Writing past the end fills the rows between with absent
cells. A cell that is written by row number is checked against the primitive of
the element and the limit of rows; a cell that is appended is not.
-/
import Measurement.Statement.Parameter

set_option autoImplicit false

namespace Measurement

/-- One column of a tabular result (`ResultColumn`). -/
structure Column where
  element : Element
  /-- The cells from the first row on. -/
  cells : Array (Option Value)
deriving DecidableEq

namespace Column

/-- The number of rows in which a cell can be written (`MAX_RESULT_ROWS`). -/
def rowLimit : Nat := Nat.pow 2 20

/-- A column without rows. -/
def make (e : Element) : Column := ⟨e, #[]⟩

/-- The name of a column is that of its element. -/
def name (c : Column) : String := c.element.name

/-- The primitive of a column is that of its element. -/
def primitive (c : Column) : Primitive := c.element.primitive

/-- The number of rows. -/
def size (c : Column) : Nat := c.cells.size

/-- The value in a row. -/
def get? (c : Column) (row : Nat) : Option Value := (c.cells[row]?).join

/-- The cells with one of them written, padded with absent cells if they do not reach it. -/
def writeCell (cells : Array (Option Value)) (row : Nat) (v : Value) : Array (Option Value) :=
  if h : row < cells.size then cells.set row (some v) h
  else (cells ++ Array.replicate (row - cells.size) none).push (some v)

/-- The column with a value in a row (`ResultColumn::set`). -/
def set (c : Column) (row : Nat) (v : Value) : Except StatementFault Column := do
  c.element.check v
  if row < rowLimit then .ok { c with cells := writeCell c.cells row v }
  else .error (.rowOutOfRange c.name row rowLimit)

/-- The column with one more row (`ResultColumn::push`). -/
def push (c : Column) (v : Option Value) : Column := { c with cells := c.cells.push v }

/-- The column without its rows. -/
def cleared (c : Column) : Column := { c with cells := #[] }

/-- Whether two columns say the same. -/
def same (c d : Column) : Bool :=
  decide (c.element = d.element) && c.cells.size == d.cells.size
    && (c.cells.zip d.cells).all fun p =>
      match p.1, p.2 with
      | some v, some w => v.same w
      | none, none => true
      | _, _ => false

end Column

end Measurement
