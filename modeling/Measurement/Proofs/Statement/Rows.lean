/-
How many rows the columns of a statement have.

A cell is written only in a row below the limit, and the column then reaches to
that row at least (`Column.size_of_set`). So no operation takes a column beyond
the limit or back below it, other than those that take all rows away
(`isOverfull_apply_iff`).

The rows that a message lists are appended one after the other, and nothing asks
for the limit there. The statements with a column beyond the limit are therefore
those that come of such a message (`rows_beyond_limit_iff`).
-/
import Measurement.Proofs.Statement.Acceptance

set_option autoImplicit false

namespace Measurement

/-! ## 1. Columns -/

namespace Column

variable {c d : Column} {row : Nat} {v : Value}

theorem size_writeCell (cells : Array (Option Value)) (row : Nat) (v : Value) :
    (writeCell cells row v).size = max cells.size (row + 1) := by
  rw [writeCell]
  split
  · rw [Array.size_set]
    omega
  · rw [Array.size_push, Array.size_append, Array.size_replicate]
    omega

/-- A row in which a cell is written lies below the limit, and the column reaches to it. -/
theorem size_of_set (h : c.set row v = .ok d) :
    row < rowLimit ∧ d.size = max c.size (row + 1) := by
  obtain ⟨-, hrow, rfl⟩ := set_eq_ok_iff.1 h
  exact ⟨hrow, size_writeCell c.cells row v⟩

/-- Whether a column has more rows than a cell can be written in. -/
def IsOverfull (c : Column) : Prop := rowLimit < c.size

theorem isOverfull_of_set (h : c.set row v = .ok d) : d.IsOverfull ↔ c.IsOverfull := by
  obtain ⟨hrow, hsize⟩ := size_of_set h
  rw [IsOverfull, IsOverfull, hsize]
  omega

theorem not_isOverfull_make (e : Element) : ¬ (make e).IsOverfull := Nat.not_lt_zero _

theorem not_isOverfull_cleared (c : Column) : ¬ c.cleared.IsOverfull := Nat.not_lt_zero _

end Column

/-! ## 2. Entries of which one has a property -/

namespace Table

variable {α : Type} {t : Table α} {p : α → Prop} {name : String} {a : α}

theorem exists_value_iff : (∃ b ∈ t.values, p b) ↔ ∃ other b, t.get? other = some b ∧ p b := by
  constructor
  · rintro ⟨b, hb, hp⟩
    obtain ⟨e, he, rfl⟩ := List.mem_map.1 hb
    exact ⟨e.1, e.2, get?_of_mem he, hp⟩
  · rintro ⟨other, b, hb, hp⟩
    exact ⟨b, List.mem_map.2 ⟨(other, b), mem_of_get? hb, rfl⟩, hp⟩

/-- What is written under a name makes no difference if it has a property exactly when what stood
there had it. -/
theorem exists_value_insert_iff (h : p a ↔ ∃ b, t.get? name = some b ∧ p b) :
    (∃ b ∈ (t.insert name a).values, p b) ↔ ∃ b ∈ t.values, p b := by
  rw [exists_value_iff, exists_value_iff]
  constructor
  · rintro ⟨other, b, hb, hp⟩
    rw [get?_insert] at hb
    split at hb
    · cases hb
      exact ⟨name, h.1 hp⟩
    · exact ⟨other, b, hb, hp⟩
  · rintro ⟨other, b, hb, hp⟩
    by_cases hother : other = name
    · subst hother
      exact ⟨other, a, get?_insert_self t other a, h.2 ⟨b, hb, hp⟩⟩
    · exact ⟨other, b, by rw [get?_insert, if_neg hother, hb], hp⟩

end Table

namespace Statement

/-! ## 3. What operations do to columns -/

/-- Whether an operation takes away all rows. -/
def Operation.clearsRows : Operation → Bool
  | specify | report => true
  | _ => false

/-- An operation takes away all rows, or it leaves the columns as they are, adds one without rows or
writes a cell. -/
theorem columns_apply (s : Statement) (o : Operation) :
    (o.clearsRows = true ∧ (o.apply s).columns = s.columns.map Column.cleared)
      ∨ (o.clearsRows = false ∧
        ((o.apply s).columns = s.columns
          ∨ (∃ name e, s.columns.get? name = none
            ∧ (o.apply s).columns = s.columns.insert name (.make e))
          ∨ ∃ name row v c d, s.columns.get? name = some c ∧ c.set row v = .ok d
            ∧ (o.apply s).columns = s.columns.insert name d)) := by
  cases o with
  -- Changes into a statement of another kind start without rows.
  | specify | report => exact .inl ⟨rfl, rfl⟩
  | setLabel | setLink | setExport | setToken | setScope | fillParameters | retoken =>
    exact .inr ⟨rfl, .inl rfl⟩
  -- Parameters and metadata are no columns, whether the operation succeeds or not.
  | addParameter name c =>
    refine .inr ⟨rfl, .inl (orKeep_same columns fun t ht => ?_)⟩
    obtain ⟨e, -, rfl⟩ := addParameter_eq_ok_iff.1 ht
    rfl
  | addParameterText name text =>
    refine .inr ⟨rfl, .inl (orKeep_same columns fun t ht => ?_)⟩
    obtain ⟨e, c, -, -, rfl⟩ := addParameterText_eq_ok_iff.1 ht
    rfl
  | setParameter name v =>
    refine .inr ⟨rfl, .inl (orKeep_same columns fun t ht => ?_)⟩
    obtain ⟨p, q, -, -, rfl⟩ := setParameter_eq_ok_iff.1 ht
    rfl
  | setParameterText name text =>
    refine .inr ⟨rfl, .inl (orKeep_same columns fun t ht => ?_)⟩
    obtain ⟨p, q, -, -, rfl⟩ := setParameterText_eq_ok_iff.1 ht
    rfl
  | addMetadata name v =>
    refine .inr ⟨rfl, .inl (orKeep_same columns fun t ht => ?_)⟩
    obtain ⟨e, -, -, rfl⟩ := addMetadata_eq_ok_iff.1 ht
    rfl
  | addMetadataText name text =>
    refine .inr ⟨rfl, .inl (orKeep_same columns fun t ht => ?_)⟩
    obtain ⟨e, v, -, -, rfl⟩ := Message.addMetadataText_eq_ok_iff.1 ht
    rfl
  | addColumn name =>
    refine .inr ⟨rfl, ?_⟩
    rw [Operation.apply]
    cases hadd : s.addColumn name with
    | error fault => exact .inl rfl
    | ok t =>
      obtain ⟨e, -, rfl⟩ := addColumn_eq_ok_iff.1 hadd
      rw [orKeep]
      split
      · exact .inl rfl
      · rename_i hnew
        rw [Bool.not_eq_true, Table.contains_eq_false_iff] at hnew
        exact .inr (.inl ⟨name, e, hnew, rfl⟩)
  | setCell name row v =>
    refine .inr ⟨rfl, ?_⟩
    rw [Operation.apply]
    cases hset : s.setCell name row v with
    | error fault => exact .inl rfl
    | ok t =>
      obtain ⟨c, d, hc, hd, rfl⟩ := setCell_eq_ok_iff.1 hset
      exact .inr (.inr ⟨name, row, v, c, d, hc, hd, rfl⟩)

/-! ## 4. Columns beyond the limit -/

/-- Whether a column of a statement has more rows than a cell can be written in. -/
def IsOverfull (s : Statement) : Prop := ∃ c ∈ s.columns.values, c.IsOverfull

/-- An operation brings no column beyond the limit, and none back unless it takes all rows away. -/
theorem isOverfull_apply_iff (s : Statement) (o : Operation) :
    (o.apply s).IsOverfull ↔ o.clearsRows = false ∧ s.IsOverfull := by
  rw [IsOverfull, IsOverfull]
  obtain ⟨hclears, hcolumns⟩ | ⟨hclears, hcolumns⟩ := columns_apply s o
  · rw [hclears, hcolumns, Table.values_map]
    simp [Column.not_isOverfull_cleared]
  rw [hclears]
  simp only [true_and]
  obtain hcolumns | ⟨name, e, hnew, hcolumns⟩ | ⟨name, row, v, c, d, hc, hd, hcolumns⟩ := hcolumns
  · rw [hcolumns]
  · -- A column that is added has no rows, and there was none in its place.
    rw [hcolumns]
    refine Table.exists_value_insert_iff ?_
    simp [hnew, Column.not_isOverfull_make]
  · -- A cell is written below the limit, so its column is beyond it as before or not at all.
    rw [hcolumns]
    refine Table.exists_value_insert_iff ?_
    simp [hc, Column.isOverfull_of_set hd]

/-- Columns stay beyond the limit through operations of which none takes all rows away. -/
theorem isOverfull_run {s : Statement} (h : s.IsOverfull) {os : List Operation}
    (hos : ∀ o ∈ os, o.clearsRows = false) : (s.run os).IsOverfull := by
  induction os generalizing s with
  | nil => exact h
  | cons o os ih =>
    rw [List.forall_mem_cons] at hos
    exact ih ((isOverfull_apply_iff s o).2 ⟨hos.1, h⟩) hos.2

/-- A statement that a message says has a column beyond the limit exactly if it names a column and
the message is a result that lists so many rows. -/
theorem isOverfull_of_readAlone {lookup : RegistryLookup} {ms : Message.Members}
    {kind : MessageKind} {s : Statement} (h : Message.ReadAlone lookup ms (kind, s)) :
    s.IsOverfull
      ↔ s.columns.names ≠ [] ∧ kind = .result ∧ Column.rowLimit < Message.rowsListed ms := by
  have hsizes := (Message.isRead_of_readAlone h).sizes
  constructor
  · rintro ⟨c, hc, hover⟩
    obtain ⟨e, he, rfl⟩ := List.mem_map.1 hc
    rw [Column.IsOverfull, hsizes e he] at hover
    split at hover
    · rename_i hkind
      exact ⟨List.ne_nil_of_mem (List.mem_map_of_mem he), hkind, hover⟩
    · exact absurd hover (Nat.not_lt_zero _)
  · rintro ⟨hnames, hkind, hover⟩
    obtain ⟨name, hname⟩ := List.exists_mem_of_ne_nil _ hnames
    obtain ⟨e, he, rfl⟩ := List.mem_map.1 hname
    refine ⟨e.2, List.mem_map_of_mem he, ?_⟩
    rw [Column.IsOverfull, hsizes e he, if_pos hkind]
    exact hover

/-- The statements with a column of more rows than a cell can be written in are those of results
that list so many rows for a column, changed by operations of which none takes all rows away. -/
theorem rows_beyond_limit_iff (loaded : Registry → Prop) (allowed : Operation → Prop)
    (s : Statement) :
    (Reachable loaded allowed s ∧ ∃ c ∈ s.columns.values, Column.rowLimit < c.size)
      ↔ ∃ lookup ms r os, Message.ofJson lookup (.object ms) = .ok (.result r)
        ∧ Column.rowLimit < Message.rowsListed ms ∧ r.statement.columns.names ≠ []
        ∧ loaded r.statement.registry
        ∧ (∀ o ∈ os, allowed o ∧ o.clearsRows = false) ∧ s = r.statement.run os := by
  constructor
  · rintro ⟨hreachable, hover⟩
    -- On how the statement came about: what was read begins the row of operations, and each
    -- operation after it is its last.
    induction hreachable with
    | make verb hr =>
      obtain ⟨c, hc, -⟩ := hover
      exact absurd hc List.not_mem_nil
    | @read lookup j m kind s hm hs hr =>
      obtain ⟨ms, halone⟩ := Message.readAlone_ofJson lookup j m hm _ hs
      obtain ⟨hnames, rfl, hrows⟩ := (isOverfull_of_readAlone halone).1 hover
      obtain ⟨k, hk, hkind, hsaid⟩ := halone
      cases k with
      | result r =>
        cases List.mem_singleton.1 hsaid
        exact ⟨lookup, ms, r, [], hk, hrows, hnames, hr, fun o ho => absurd ho List.not_mem_nil,
          rfl⟩
      | envelope => exact absurd rfl hkind
      | redemption | interrupt | exception => cases hsaid
      | capability | specification | receipt | withdrawal =>
        cases List.mem_singleton.1 hsaid
    | @apply s o ho hreachable ih =>
      obtain ⟨hclears, hover⟩ := (isOverfull_apply_iff s o).1 hover
      obtain ⟨lookup, ms, r, os, hm, hrows, hnames, hr, hos, rfl⟩ := ih hover
      refine ⟨lookup, ms, r, os ++ [o], hm, hrows, hnames, hr, ?_, (run_append _ os [o]).symm⟩
      intro p hp
      obtain hp | hp := List.mem_append.1 hp
      · exact hos p hp
      · rw [List.mem_singleton] at hp
        rw [hp]
        exact ⟨ho, hclears⟩
  · rintro ⟨lookup, ms, r, os, hm, hrows, hnames, hr, hos, rfl⟩
    have hsaid : (.result, r.statement) ∈ (Message.result r).statements := List.mem_singleton.2 rfl
    have halone : Message.ReadAlone lookup ms (.result, r.statement) :=
      ⟨.result r, hm, MessageKind.noConfusion, hsaid⟩
    exact ⟨reachable_run (.read hm hsaid hr) fun o ho => (hos o ho).1,
      isOverfull_run ((isOverfull_of_readAlone halone).2 ⟨hnames, rfl, hrows⟩)
        fun o ho => (hos o ho).2⟩

/-! ## 5. A long result -/

open Message

/-- The rows of one column whose cells are all absent. -/
def absentRows (n : Nat) : List Json := List.replicate n (.array [.null])

theorem pushRows_absentRows (n k : Nat) (c : Column) :
    pushRows k [c] (absentRows n)
      = .ok [{ c with cells := c.cells ++ Array.replicate n none }] := by
  induction n generalizing k c with
  | zero => simp [absentRows, pushRows]
  | succ n ih =>
    have hrow : pushCells [c] [.null] = .ok [c.push none] := rfl
    have hcells : c.cells.push none ++ Array.replicate n none
        = c.cells ++ Array.replicate (n + 1) none := by
      apply Array.ext'
      simp [List.replicate_succ]
    rw [absentRows, List.replicate_succ, pushRows]
    simp only [List.length_singleton, if_true, hrow]
    rw [← hcells]
    exact ih (k + 1) (c.push none)

/-- The members of a result that names one column and lists rows in which it is absent. -/
def tallMembers (n : Nat) : Members :=
  [("result", .text "v"), ("version", .natural messageVersion), ("registry", .text "r"),
    ("results", .array [.text "a"]), ("resultvalues", .array (absentRows n))]

/-- What such a result says. -/
def tallSaid (n : Nat) : Statement :=
  { Statement.make "v" Capability.letters with
    columns := .ofList [("a", ⟨textElement "r" "a", Array.replicate n none⟩)] }

theorem ofJson_tallMembers (n : Nat) :
    ofJson lettered (.object (tallMembers n)) = .ok (.result ⟨tallSaid n⟩) := by
  have hhead : readStatement lettered (tallMembers n) .result addRequested = .ok (tallSaid 0) := rfl
  have hrows : readRows (tallSaid 0) (tallMembers n) = .ok (tallSaid n) := by
    have hpushed := pushRows_absentRows n 0 (.make (textElement "r" "a"))
    rw [Column.make, Array.empty_append] at hpushed
    exact map_eq_ok_iff.2 ⟨_, hpushed, rfl⟩
  have hkind : readKind lettered (tallMembers n) (.ok []) .result = .ok (.result ⟨tallSaid n⟩) := by
    rw [readKind]
    exact bind_eq_ok_iff.2 ⟨_, hhead, bind_eq_ok_iff.2 ⟨_, mapError_eq_ok_iff.2 hrows, rfl⟩⟩
  exact hkind

/-- A result can list more rows than a cell can be written in, and its column has them all. -/
theorem long_result_goes_beyond_limit :
    ∃ r, ofJson lettered (.object (tallMembers (Column.rowLimit + 1))) = .ok (.result r)
      ∧ Reachable Registry.IsLoaded (fun _ => True) r.statement
      ∧ ¬ ∀ c ∈ r.statement.columns.values, c.size ≤ Column.rowLimit := by
  have hread := ofJson_tallMembers (Column.rowLimit + 1)
  refine ⟨_, hread, .read hread (List.mem_singleton.2 rfl) Capability.isLoaded_letters, ?_⟩
  intro hall
  have hsize := hall _ (List.mem_singleton.2 rfl)
  rw [Column.size, Array.size_replicate] at hsize
  omega

end Statement

end Measurement
