/-
Statements that are changed in place.

The operations on statements give a statement or a fault, and whoever asks for
one keeps the statement at hand if it fails. Here they are said once more as
changes in place, step by step, with the checks and writes in the order in which
they are made: what is written before a fault stays written (`InPlace`). A column
is lengthened in one step and its cell written in the next.

Both ways agree for each of the eight operations that can fail (`on_inPlace`):
all that is checked is checked before the first write. So an operation that does
not fit leaves the statement exactly as it was, and one that fits changes a single
parameter, metavalue or column (`operations_are_all_or_nothing`).
-/
import Measurement.Proofs.Statement.Cells
import Measurement.Proofs.Statement.Rows

set_option autoImplicit false

namespace Measurement.Statement

/-! ## 1. Changes in place -/

/-- A change of a statement in place. A fault ends it and takes nothing back. -/
abbrev InPlace (α : Type) : Type := ExceptT Fault (StateM Statement) α

namespace InPlace

variable {α β ε : Type}

/-- What a change gives, and the statement that it leaves. -/
def on (x : InPlace α) (s : Statement) : Except Fault α × Statement := StateT.run (ExceptT.run x) s

/-- A check. -/
def demand (x : Except ε α) (as : ε → Fault) : InPlace α :=
  match x with
  | .ok a => pure a
  | .error e => throw (as e)

/-- What is looked up. -/
def found (x : Option α) (fault : StatementFault) : InPlace α :=
  match x with
  | some a => pure a
  | none => throw (.statement fault)

variable (s : Statement)

theorem on_get_bind (f : Statement → InPlace β) : on (get >>= f) s = on (f s) s := rfl

theorem on_modify (f : Statement → Statement) : on (modify f) s = (.ok (), f s) := rfl

theorem on_modify_bind (f : Statement → Statement) (x : Unit → InPlace β) :
    on (modify f >>= x) s = on (x ()) (f s) := rfl

theorem on_demand_bind (x : Except ε α) (as : ε → Fault) (f : α → InPlace β) :
    on (demand x as >>= f) s = match x with
      | .ok a => on (f a) s
      | .error e => (.error (as e), s) := by
  cases x <;> rfl

theorem on_found_bind (x : Option α) (fault : StatementFault) (f : α → InPlace β) :
    on (found x fault >>= f) s = match x with
      | some a => on (f a) s
      | none => (.error (.statement fault), s) := by
  cases x <;> rfl

end InPlace

end Measurement.Statement

namespace Measurement

/-- The table with the entry under a name changed where it stands. -/
def Table.change {α : Type} (t : Table α) (name : String) (f : α → α) : Table α :=
  match t.get? name with
  | some a => t.insert name (f a)
  | none => t

theorem Table.change_of_get? {α : Type} {t : Table α} {name : String} {a : α} (f : α → α)
    (h : t.get? name = some a) : t.change name f = t.insert name (f a) := by
  rw [change, h]

theorem Table.change_insert {α : Type} (t : Table α) (name : String) (a : α) (f : α → α) :
    (t.insert name a).change name f = t.insert name (f a) := by
  rw [change_of_get? f (get?_insert_self t name a), insert_insert]

namespace Column

/-- The column with a number of rows at least; those that it lacks are absent. -/
def lengthened (n : Nat) (c : Column) : Column :=
  if c.size < n then { c with cells := c.cells ++ Array.replicate (n - c.size) none } else c

/-- The column with a cell written that it has. -/
def overwritten (row : Nat) (v : Value) (c : Column) : Column :=
  { c with cells := c.cells.setIfInBounds row (some v) }

theorem setIfInBounds_last {α : Type} (as : Array α) (a b : α) :
    (as.push a).setIfInBounds as.size b = as.push b := by
  grind

/-- A cell is written as in a column that is long enough. -/
theorem overwritten_lengthened (c : Column) (row : Nat) (v : Value) :
    overwritten row v (lengthened (row + 1) c) = { c with cells := writeCell c.cells row v } := by
  rw [overwritten, lengthened, writeCell]
  by_cases hrow : row < c.cells.size
  · have hlong : ¬ c.size < row + 1 := by
      rw [size]
      omega
    rw [dif_pos hrow, if_neg hlong, Array.setIfInBounds, dif_pos hrow]
  · have hshort : c.size < row + 1 := by
      rw [size]
      omega
    rw [dif_neg hrow, if_pos hshort]
    have hpadding : Array.replicate (row + 1 - c.size) (none : Option Value)
        = (Array.replicate (row - c.cells.size) none).push none := by
      rw [← Array.replicate_succ, size]
      congr 1
      omega
    -- The last of the absent cells is the one that is written.
    have hlast : row = (c.cells ++ Array.replicate (row - c.cells.size) none).size := by
      rw [Array.size_append, Array.size_replicate]
      omega
    have hcells := setIfInBounds_last (c.cells ++ Array.replicate (row - c.cells.size) none) none
      (some v)
    rw [← hlast] at hcells
    rw [hpadding, Array.append_push, hcells]

end Column

namespace Statement

/-! ## 2. Operations in place -/

/-- An operation that can fail. -/
inductive Edit where
  | addParameter (name : String) (c : Constraint)
  | addParameterText (name text : String)
  | setParameter (name : String) (v : Value)
  | setParameterText (name text : String)
  | addMetadata (name : String) (v : Value)
  | addMetadataText (name text : String)
  | addColumn (name : String)
  | setCell (name : String) (row : Nat) (v : Value)

namespace Edit

open InPlace

/-- The statement that an operation gives. -/
def result (s : Statement) : Edit → Except Fault Statement
  | addParameter name c => (s.addParameter name c).mapError .read
  | addParameterText name text => (s.addParameterText name text).mapError .read
  | setParameter name v => (s.setParameter name v).mapError .statement
  | setParameterText name text => s.setParameterText name text
  | addMetadata name v => s.addMetadata name v
  | addMetadataText name text => s.addMetadataText name text
  | addColumn name => (s.addColumn name).mapError .read
  | setCell name row v => (s.setCell name row v).mapError .statement

/-- A parameter is written under its name (`add_parameter`). -/
def placeParameter (name : String) (c : Constraint) : InPlace Unit := do
  let e ← demand ((← get).registry.element name) .read
  modify fun s => { s with parameters := s.parameters.insert name (.make e c) }

/-- A value is written into the parameter under a name, which is the one given
(`set_parameter_value`). -/
def placeValue (name : String) (p : Parameter) (v : Value) : InPlace Unit := do
  demand (p.element.check v) .statement
  demand (if p.constraint.metBy v then .ok ()
    else .error (.constraintViolation p.name v.text p.constraint.text)) Fault.statement
  modify fun s => { s with parameters := s.parameters.change name ({ · with value := some v }) }

/-- Metadata is written under its name (`add_metadata`). -/
def placeMetadata (name : String) (v : Value) : InPlace Unit := do
  let e ← demand ((← get).registry.element name) .read
  let m ← demand (Metavalue.make e v) .statement
  modify fun s => { s with metadata := s.metadata.insert name m }

/-- What an operation does in place, step by step. -/
def inPlace : Edit → InPlace Unit
  | addParameter name c => placeParameter name c
  | addParameterText name text => do
    let e ← demand ((← get).registry.element name) .read
    let c ← demand (Constraint.read e.primitive text) .read
    placeParameter name c
  | setParameter name v => do
    let p ← found ((← get).parameters.get? name) (.unknownParameter name)
    placeValue name p v
  | setParameterText name text => do
    let p ← found ((← get).parameters.get? name) (.unknownParameter name)
    match ← demand (Value.readOptional p.primitive text) .read with
    | some v => placeValue name p v
    | none =>
      modify fun s => { s with parameters := s.parameters.change name ({ · with value := none }) }
  | addMetadata name v => placeMetadata name v
  | addMetadataText name text => do
    let e ← demand ((← get).registry.element name) .read
    let v ← demand (Value.read e.primitive text) .read
    placeMetadata name v
  | addColumn name => do
    let e ← demand ((← get).registry.element name) .read
    modify fun s =>
      if s.columns.contains name then s
      else { s with columns := s.columns.insert name (.make e) }
  | setCell name row v => do
    let c ← found ((← get).columns.get? name) (.unknownColumn name)
    demand (c.element.check v) .statement
    demand (if row < Column.rowLimit then .ok ()
      else .error (.rowOutOfRange c.name row Column.rowLimit)) Fault.statement
    modify fun s => { s with columns := s.columns.change name (Column.lengthened (row + 1)) }
    modify fun s => { s with columns := s.columns.change name (Column.overwritten row v) }

end Edit

/-- What is checked on the way to a statement, whose fault becomes one of another sort. -/
theorem mapError_bind {ε δ α β : Type} (x : Except ε α) (f : α → Except ε β) (as : ε → δ) :
    (x >>= f).mapError as = x.mapError as >>= fun a => (f a).mapError as := by
  cases x <;> rfl

/-- What an operation says and leaves, if it is done as a whole or not at all. -/
def wholly (s : Statement) : Except Fault Statement → Except Fault Unit × Statement
  | .ok t => (.ok (), t)
  | .error fault => (.error fault, s)

theorem wholly_bind {ε α : Type} (s : Statement) (x : Except ε α) (as : ε → Fault)
    (f : α → Except Fault Statement) :
    s.wholly (x.mapError as >>= f) = match x with
      | .ok a => s.wholly (f a)
      | .error e => (.error (as e), s) := by
  cases x <;> rfl

namespace Edit

open InPlace

variable (s : Statement)

theorem on_placeParameter (name : String) (c : Constraint) :
    on (placeParameter name c) s = s.wholly ((s.addParameter name c).mapError .read) := by
  rw [placeParameter, on_get_bind, on_demand_bind, Statement.addParameter]
  cases s.registry.element name <;> rfl

theorem on_placeMetadata (name : String) (v : Value) :
    on (placeMetadata name v) s = s.wholly (s.addMetadata name v) := by
  rw [placeMetadata, on_get_bind, on_demand_bind, Statement.addMetadata, wholly_bind]
  cases s.registry.element name with
  | error fault => rfl
  | ok e =>
    simp only [on_demand_bind, wholly_bind]
    cases Metavalue.make e v <;> rfl

theorem on_placeValue {name : String} {p : Parameter}
    (hp : s.parameters.get? name = some p) (v : Value) :
    on (placeValue name p v) s = s.wholly (((p.assign v).mapError .statement).map fun q =>
      { s with parameters := s.parameters.insert name q }) := by
  rw [placeValue, on_demand_bind, Parameter.assign]
  cases p.element.check v with
  | error fault => rfl
  | ok u =>
    simp only [on_demand_bind]
    by_cases hmet : p.constraint.metBy v = true
    · simp only [if_pos hmet, on_modify, Table.change_of_get? _ hp]
      rfl
    · simp only [if_neg hmet]
      rfl

/-- An operation in place does as a whole what the operation does, or it does nothing: all checks
come before the first write. -/
theorem on_inPlace (e : Edit) : on e.inPlace s = s.wholly (e.result s) := by
  cases e with
  | addParameter name c => exact on_placeParameter s name c
  | addParameterText name text =>
    rw [inPlace, on_get_bind, on_demand_bind, result, Statement.addParameterText, mapError_bind,
      wholly_bind]
    cases s.registry.element name with
    | error fault => rfl
    | ok e =>
      simp only [on_demand_bind, on_placeParameter, mapError_bind, wholly_bind]
      cases Constraint.read e.primitive text <;> rfl
  | setParameter name v =>
    rw [inPlace, on_get_bind, on_found_bind, result, Statement.setParameter]
    cases hp : s.parameters.get? name with
    | none => rfl
    | some p =>
      simp only [on_placeValue s hp]
      cases p.assign v <;> rfl
  | setParameterText name text =>
    rw [inPlace, on_get_bind, on_found_bind, result, Statement.setParameterText]
    cases hp : s.parameters.get? name with
    | none => rfl
    | some p =>
      simp only [on_demand_bind, Parameter.assignText]
      cases Value.readOptional p.primitive text with
      | error fault => rfl
      | ok o =>
        cases o with
        | none => simp only [on_modify, Table.change_of_get? _ hp]; rfl
        | some v => exact on_placeValue s hp v
  | addMetadata name v => exact on_placeMetadata s name v
  | addMetadataText name text =>
    rw [inPlace, on_get_bind, on_demand_bind, result, Statement.addMetadataText, wholly_bind]
    cases s.registry.element name with
    | error fault => rfl
    | ok e =>
      simp only [on_demand_bind, on_placeMetadata, wholly_bind]
      cases Value.read e.primitive text <;> rfl
  | addColumn name =>
    rw [inPlace, on_get_bind, on_demand_bind, result, Statement.addColumn]
    cases s.registry.element name <;> rfl
  | setCell name row v =>
    rw [inPlace, on_get_bind, on_found_bind, result, Statement.setCell]
    cases hc : s.columns.get? name with
    | none => rfl
    | some c =>
      simp only [on_demand_bind, Column.set]
      cases c.element.check v with
      | error fault => rfl
      | ok u =>
        by_cases hrow : row < Column.rowLimit
        · -- The two writes, the padding and the cell, make one.
          simp only [if_pos hrow, on_modify_bind, on_modify, Table.change_of_get? _ hc,
            Table.change_insert, Column.overwritten_lengthened]
          rfl
        · simp only [if_neg hrow]
          rfl

end Edit

end Statement

/-! ## 3. What an operation needs and what it changes -/

/-- Whether two tables differ at most under one name. What is there keeps its place, and a new entry
stands behind it. -/
structure Table.DiffersAt {α : Type} (name : String) (t u : Table α) : Prop where
  others : ∀ other, other ≠ name → u.get? other = t.get? other
  names : u.names = if name ∈ t.names then t.names else t.names ++ [name]

theorem Table.differsAt_insert {α : Type} (t : Table α) (name : String) (a : α) :
    DiffersAt name t (t.insert name a) := by
  refine ⟨fun other hother => ?_, names_insert t name a⟩
  rw [get?_insert, if_neg hother]

theorem Table.differsAt_refl {α : Type} {t : Table α} {name : String} (h : name ∈ t.names) :
    DiffersAt name t t :=
  ⟨fun _ _ => rfl, by rw [if_pos h]⟩

namespace Column

/-- Absent cells behind the last one show what was shown there before: nothing. -/
theorem get?_padded (cells : Array (Option Value)) (k i : Nat) :
    ((cells ++ Array.replicate k none)[i]?).join = (cells[i]?).join := by
  rw [Array.getElem?_append]
  split
  · rfl
  · rename_i hpast
    rw [Array.getElem?_eq_none (Nat.not_lt.1 hpast), Array.getElem?_replicate]
    split <;> rfl

/-- What a column shows after one of its cells was written. -/
theorem get?_writeCell (cells : Array (Option Value)) (row : Nat) (v : Value) (i : Nat) :
    ((writeCell cells row v)[i]?).join = if i = row then some v else (cells[i]?).join := by
  rw [writeCell]
  split
  · rename_i hrow
    rw [Array.getElem?_set]
    by_cases hi : i = row
    · rw [if_pos hi.symm, if_pos hi]
      rfl
    · rw [if_neg (Ne.symm hi), if_neg hi]
  · rename_i hrow
    have hsize : (cells ++ Array.replicate (row - cells.size) none).size = row := by
      rw [Array.size_append, Array.size_replicate]
      omega
    rw [Array.getElem?_push, hsize]
    by_cases hi : i = row
    · rw [if_pos hi, if_pos hi]
      rfl
    · rw [if_neg hi, if_neg hi, get?_padded]

/-- Whether a column is another one with a value in a row: the rows that it has behind the other's
last one are absent but for this one. -/
structure Wrote (row : Nat) (v : Value) (c d : Column) : Prop where
  element : d.element = c.element
  size : d.size = max c.size (row + 1)
  written : d.get? row = some v
  others : ∀ i, i ≠ row → d.get? i = c.get? i
  padding : ∀ i, c.size ≤ i → i ≠ row → d.get? i = none

theorem wrote_of_set {c d : Column} {row : Nat} {v : Value} (h : c.set row v = .ok d) :
    Wrote row v c d := by
  obtain ⟨hrow, hsize⟩ := size_of_set h
  obtain ⟨-, -, rfl⟩ := set_eq_ok_iff.1 h
  refine ⟨rfl, hsize, ?_, fun i hi => ?_, fun i hpast hi => ?_⟩
  · rw [get?, get?_writeCell, if_pos rfl]
  · rw [get?, get?_writeCell, if_neg hi, get?]
  · rw [get?, get?_writeCell, if_neg hi, Array.getElem?_eq_none hpast]
    rfl

end Column

namespace Statement

namespace Edit

/-- What an operation needs to succeed. -/
def Fits (s : Statement) : Edit → Prop
  | addParameter name _ | addColumn name => ∃ e, s.registry.element name = .ok e
  | addParameterText name text => ∃ e c, s.registry.element name = .ok e
      ∧ Constraint.read e.primitive text = .ok c
  | setParameter name v => ∃ p, s.parameters.get? name = some p ∧ v.primitive = p.primitive
      ∧ p.constraint.metBy v = true
  | setParameterText name text => ∃ p o, s.parameters.get? name = some p
      ∧ Value.readOptional p.primitive text = .ok o ∧ ∀ v ∈ o, p.constraint.metBy v = true
  | addMetadata name v => ∃ e, s.registry.element name = .ok e ∧ v.primitive = e.primitive
  | addMetadataText name text => ∃ e v, s.registry.element name = .ok e
      ∧ Value.read e.primitive text = .ok v
  | setCell name row v => ∃ c, s.columns.get? name = some c ∧ v.primitive = c.primitive
      ∧ row < Column.rowLimit

/-- What an operation may change: what stands under its name. -/
def Frame (s t : Statement) : Edit → Prop
  | addParameter name _ | addParameterText name _ | setParameter name _ | setParameterText name _ =>
    { t with parameters := s.parameters } = s ∧ s.parameters.DiffersAt name t.parameters
  | addMetadata name _ | addMetadataText name _ =>
    { t with metadata := s.metadata } = s ∧ s.metadata.DiffersAt name t.metadata
  | addColumn name | setCell name _ _ =>
    { t with columns := s.columns } = s ∧ s.columns.DiffersAt name t.columns

/-- What stands under its name afterwards. -/
def Wrote (s t : Statement) : Edit → Prop
  | addParameter name c => ∃ e, s.registry.element name = .ok e
      ∧ t.parameters.get? name = some (.make e c)
  | addParameterText name text => ∃ e c, s.registry.element name = .ok e
      ∧ Constraint.read e.primitive text = .ok c ∧ t.parameters.get? name = some (.make e c)
  | setParameter name v => ∃ p, s.parameters.get? name = some p
      ∧ t.parameters.get? name = some { p with value := some v }
  | setParameterText name text => ∃ p o, s.parameters.get? name = some p
      ∧ Value.readOptional p.primitive text = .ok o
      ∧ t.parameters.get? name = some { p with value := o }
  | addMetadata name v => ∃ e, s.registry.element name = .ok e
      ∧ t.metadata.get? name = some ⟨e, v⟩
  | addMetadataText name text => ∃ e v, s.registry.element name = .ok e
      ∧ Value.read e.primitive text = .ok v ∧ t.metadata.get? name = some ⟨e, v⟩
  | addColumn name => ∃ e, s.registry.element name = .ok e
      ∧ t.columns.get? name = some ((s.columns.get? name).getD (.make e))
  | setCell name row v => ∃ c d, s.columns.get? name = some c ∧ t.columns.get? name = some d
      ∧ Column.Wrote row v c d

variable {s t : Statement} {e : Edit}

theorem exists_result_iff : (∃ t, e.result s = .ok t) ↔ e.Fits s := by
  cases e with
  | addParameter name c => simp [result, Fits, mapError_eq_ok_iff, addParameter_eq_ok_iff]
  | addParameterText name text =>
    simp [result, Fits, mapError_eq_ok_iff, addParameterText_eq_ok_iff]
  | setParameter name v =>
    simp [result, Fits, mapError_eq_ok_iff, setParameter_eq_ok_iff, Parameter.assign_eq_ok_iff]
  | setParameterText name text =>
    simp [result, Fits, setParameterText_eq_ok_iff, Parameter.assignText_eq_ok_iff]
  | addMetadata name v => simp [result, Fits, addMetadata_eq_ok_iff]
  | addMetadataText name text => simp [result, Fits, Message.addMetadataText_eq_ok_iff]
  | addColumn name => simp [result, Fits, mapError_eq_ok_iff, addColumn_eq_ok_iff]
  | setCell name row v =>
    simp [result, Fits, mapError_eq_ok_iff, setCell_eq_ok_iff, Column.set_eq_ok_iff]

/-- An operation that succeeds writes what stands under its name, and nothing else. -/
theorem frame_of_result (h : e.result s = .ok t) : e.Frame s t ∧ e.Wrote s t := by
  cases e with
  | addParameter name c =>
    obtain ⟨e, he, rfl⟩ := addParameter_eq_ok_iff.1 (mapError_eq_ok_iff.1 h)
    exact ⟨⟨rfl, Table.differsAt_insert _ _ _⟩, e, he, Table.get?_insert_self _ _ _⟩
  | addParameterText name text =>
    obtain ⟨e, c, he, hc, rfl⟩ := addParameterText_eq_ok_iff.1 (mapError_eq_ok_iff.1 h)
    exact ⟨⟨rfl, Table.differsAt_insert _ _ _⟩, e, c, he, hc, Table.get?_insert_self _ _ _⟩
  | setParameter name v =>
    obtain ⟨p, q, hp, hq, rfl⟩ := setParameter_eq_ok_iff.1 (mapError_eq_ok_iff.1 h)
    obtain ⟨-, -, rfl⟩ := Parameter.assign_eq_ok_iff.1 hq
    exact ⟨⟨rfl, Table.differsAt_insert _ _ _⟩, p, hp, Table.get?_insert_self _ _ _⟩
  | setParameterText name text =>
    obtain ⟨p, q, hp, hq, rfl⟩ := setParameterText_eq_ok_iff.1 h
    obtain ⟨o, ho, -, rfl⟩ := Parameter.assignText_eq_ok_iff.1 hq
    exact ⟨⟨rfl, Table.differsAt_insert _ _ _⟩, p, o, hp, ho, Table.get?_insert_self _ _ _⟩
  | addMetadata name v =>
    obtain ⟨e, he, -, rfl⟩ := addMetadata_eq_ok_iff.1 h
    exact ⟨⟨rfl, Table.differsAt_insert _ _ _⟩, e, he, Table.get?_insert_self _ _ _⟩
  | addMetadataText name text =>
    obtain ⟨e, v, he, hv, rfl⟩ := Message.addMetadataText_eq_ok_iff.1 h
    exact ⟨⟨rfl, Table.differsAt_insert _ _ _⟩, e, v, he, hv, Table.get?_insert_self _ _ _⟩
  | addColumn name =>
    obtain ⟨e, he, rfl⟩ := addColumn_eq_ok_iff.1 (mapError_eq_ok_iff.1 h)
    split
    · -- The column that is there stays as it is.
      rename_i hthere
      obtain ⟨c, hc⟩ := Option.isSome_iff_exists.1 hthere
      refine ⟨⟨rfl, Table.differsAt_refl (Table.mem_names_iff.2 ⟨c, hc⟩)⟩, e, he, ?_⟩
      rw [hc]
      rfl
    · rename_i hnew
      rw [Bool.not_eq_true, Table.contains_eq_false_iff] at hnew
      refine ⟨⟨rfl, Table.differsAt_insert _ _ _⟩, e, he, ?_⟩
      rw [hnew]
      exact Table.get?_insert_self _ _ _
  | setCell name row v =>
    obtain ⟨c, d, hc, hd, rfl⟩ := setCell_eq_ok_iff.1 (mapError_eq_ok_iff.1 h)
    exact ⟨⟨rfl, Table.differsAt_insert _ _ _⟩, c, d, hc, Table.get?_insert_self _ _ _,
      Column.wrote_of_set hd⟩

end Edit

/-- Of the eight operations that can fail each one is done as a whole or not at all. If it does not
fit the statement, it ends with a fault and the statement is what it was. If it fits, it gives what
stands under its name and leaves all else as it was, in the order in which it was; and a cell that
is written is the only one that another value is read back from. -/
theorem operations_are_all_or_nothing (s : Statement) (e : Edit) :
    (¬ e.Fits s ∧ ∃ fault, e.result s = .error fault ∧ e.inPlace.on s = (.error fault, s))
      ∨ (e.Fits s ∧ ∃ t, e.result s = .ok t ∧ e.inPlace.on s = (.ok (), t)
        ∧ e.Frame s t ∧ e.Wrote s t) := by
  have hplace := e.on_inPlace s
  cases hresult : e.result s with
  | error fault =>
    refine .inl ⟨fun hfits => ?_, fault, rfl, by rw [hplace, hresult]; rfl⟩
    obtain ⟨t, ht⟩ := Edit.exists_result_iff.2 hfits
    rw [hresult] at ht
    cases ht
  | ok t =>
    obtain ⟨hframe, hwrote⟩ := Edit.frame_of_result hresult
    exact .inr ⟨Edit.exists_result_iff.1 ⟨t, hresult⟩, t, rfl, by rw [hplace, hresult]; rfl,
      hframe, hwrote⟩

end Statement

end Measurement
