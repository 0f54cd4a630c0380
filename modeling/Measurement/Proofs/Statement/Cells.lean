/-
Cells that are written one by one.

A cell is written exactly in a column for values of its primitive, in a row below
the limit (`exists_setCell_iff`), and everything else stays as it is
(`setCell_spec`). So what a column shows grows by one row with each cell that is
written behind the last one (`Column.Shows.set`).
-/
import Measurement.Proofs.Statement.Operations

set_option autoImplicit false

namespace Measurement

/-! ## 1. Columns -/

namespace Column

variable {c d : Column} {n : Nat} {f : Nat → Option Value} {v : Value}

/-- Whether a column has a number of rows, and these values in them. -/
structure Shows (c : Column) (n : Nat) (f : Nat → Option Value) : Prop where
  size : c.size = n
  cells : ∀ i < n, c.get? i = f i

theorem shows_cleared (c : Column) (f : Nat → Option Value) : c.cleared.Shows 0 f :=
  ⟨rfl, fun i hi => absurd hi (Nat.not_lt_zero i)⟩

/-- A cell that is written behind the last row is one more row. -/
theorem Shows.set (h : c.Shows n f) (hset : c.set n v = .ok d) (hv : f n = some v) :
    d.Shows (n + 1) f := by
  obtain ⟨-, -, rfl⟩ := set_eq_ok_iff.1 hset
  have hsize : c.cells.size = n := h.size
  have hcells : writeCell c.cells n v = c.cells.push (some v) := by
    rw [writeCell, dif_neg (by omega), hsize, Nat.sub_self]
    simp
  refine ⟨?_, fun i hi => ?_⟩
  · rw [Column.size, hcells, Array.size_push, hsize]
  · rw [get?, hcells, Array.getElem?_push, hsize]
    by_cases hlast : i = n
    · rw [if_pos hlast, hlast, hv]
      rfl
    · rw [if_neg hlast]
      exact h.cells i (by omega)

end Column

/-! ## 2. Statements -/

namespace Statement

variable {s t : Statement} {name other : String} {row : Nat} {v : Value}

/-- Whether a statement has a column for values of a primitive. -/
def Takes (s : Statement) (name : String) (p : Primitive) : Prop :=
  ∃ c, s.columns.get? name = some c ∧ c.primitive = p

/-- A cell is written exactly in a column for its value, below the limit of rows. -/
theorem exists_setCell_iff :
    (∃ t, s.setCell name row v = .ok t) ↔ s.Takes name v.primitive ∧ row < Column.rowLimit := by
  simp only [setCell_eq_ok_iff, Column.set_eq_ok_iff]
  constructor
  · rintro ⟨t, c, d, hc, ⟨hprimitive, hrow, -⟩, -⟩
    exact ⟨⟨c, hc, hprimitive.symm⟩, hrow⟩
  · rintro ⟨⟨c, hc, hprimitive⟩, hrow⟩
    exact ⟨_, c, _, hc, ⟨hprimitive.symm, hrow, rfl⟩, rfl⟩

/-- Beyond the limit of rows a cell is refused. -/
theorem setCell_beyond (h : s.Takes name v.primitive) (hrow : Column.rowLimit ≤ row) :
    ∃ column, s.setCell name row v = .error (.rowOutOfRange column row Column.rowLimit) := by
  obtain ⟨c, hc, hprimitive⟩ := h
  have hchecked : c.element.check v = .ok () := if_pos hprimitive.symm
  refine ⟨c.name, ?_⟩
  rw [setCell, hc]
  simp only [Column.set, hchecked]
  rw [show ((Except.ok () : Except StatementFault Unit) >>= fun _ => _) = _ from rfl,
    if_neg (Nat.not_lt.2 hrow)]
  rfl

/-- A cell that is written changes no column but its own, and of that neither place nor
primitive. -/
theorem setCell_spec (h : s.setCell name row v = .ok t) :
    { t with columns := s.columns } = s ∧ t.columns.names = s.columns.names
      ∧ (∀ other, other ≠ name → t.columns.get? other = s.columns.get? other)
      ∧ ∃ c d, s.columns.get? name = some c ∧ t.columns.get? name = some d
        ∧ c.set row v = .ok d := by
  obtain ⟨c, d, hc, hd, rfl⟩ := setCell_eq_ok_iff.1 h
  refine ⟨rfl, ?_, fun other hother => ?_, c, d, hc, ?_, hd⟩
  · rw [Table.names_insert, if_pos (Table.mem_names_iff.2 ⟨c, hc⟩)]
  · rw [Table.get?_insert, if_neg hother]
  · rw [Table.get?_insert_self]

theorem takes_setCell (h : s.setCell name row v = .ok t) (other : String) (p : Primitive) :
    t.Takes other p ↔ s.Takes other p := by
  obtain ⟨-, -, hothers, c, d, hc, hd, hset⟩ := setCell_spec h
  rw [Takes, Takes]
  by_cases hother : other = name
  · subst hother
    have hsame : d.primitive = c.primitive :=
      congrArg Element.primitive (Column.element_of_set hset)
    simp only [hc, hd, Option.some.injEq, exists_eq_left', hsame]
  · rw [hothers other hother]

theorem rowCount_le_iff {n : Nat} : s.rowCount ≤ n ↔ ∀ c ∈ s.columns.values, c.size ≤ n := by
  have hfold : ∀ (cs : List Column) (m : Nat),
      cs.foldl (fun k c => max k c.size) m ≤ n ↔ m ≤ n ∧ ∀ c ∈ cs, c.size ≤ n := by
    intro cs
    induction cs with
    | nil => simp
    | cons c cs ih =>
      intro m
      rw [List.foldl_cons, ih, Nat.max_le, List.forall_mem_cons, and_assoc]
  rw [rowCount, hfold]
  exact and_iff_right (Nat.zero_le n)

end Statement

end Measurement
