/-
Statements as they come back from their written form.

A statement is written with its token, and its times are written down to the
microsecond. What comes back is the statement with the token made its own and
the times cut down (`Statement.settled`). It is written like the statement that
it came from, and it is that statement if there was nothing to cut down and the
token had been given.
-/
import Measurement.Message.Writing
import Measurement.Proofs.Constraint
import Measurement.Proofs.Scope.Text
import Measurement.Proofs.Table
import Mathlib.Data.List.ReduceOption

set_option autoImplicit false

namespace Measurement

/-! ## 1. Parts -/

/-- The values in a parameter: those of its constraint, and its own. -/
def Parameter.values (p : Parameter) : List Value := p.constraint.values ++ p.value.toList

/-- The values in a column. -/
def Column.values (c : Column) : List Value := c.cells.toList.reduceOption

/-- The parameter with its times cut down to microseconds. -/
def Parameter.toMicros (p : Parameter) : Parameter :=
  { p with constraint := p.constraint.toMicros, value := p.value.map Value.toMicros }

/-- The metavalue, cut down to microseconds if it is a time. -/
def Metavalue.toMicros (m : Metavalue) : Metavalue := { m with value := m.value.toMicros }

/-- The column with its times cut down to microseconds. -/
def Column.toMicros (c : Column) : Column :=
  { c with cells := c.cells.map fun v => v.map Value.toMicros }

/-- Whether values have no time with a part below a microsecond. -/
def AreWhole (vs : List Value) : Prop := ∀ v ∈ vs, ∀ t ∈ v.times, t.nano % 1000 = 0

theorem Value.map_toMicros_of_whole {o : Option Value} (h : AreWhole o.toList) :
    o.map Value.toMicros = o := by
  cases o with
  | none => rfl
  | some v => exact congrArg some (Value.toMicros_of_whole (h v (List.mem_singleton.2 rfl)))

theorem Parameter.toMicros_of_whole {p : Parameter} (h : AreWhole p.values) : p.toMicros = p := by
  have hconstraint : p.constraint.toMicros = p.constraint :=
    Constraint.toMicros_of_whole fun v hv => h v (List.mem_append_left _ hv)
  have hvalue : p.value.map Value.toMicros = p.value :=
    Value.map_toMicros_of_whole fun v hv => h v (List.mem_append_right _ hv)
  rw [toMicros, hconstraint, hvalue]

theorem Metavalue.toMicros_of_whole {m : Metavalue} (h : AreWhole [m.value]) : m.toMicros = m := by
  rw [toMicros, Value.toMicros_of_whole (h m.value (List.mem_singleton.2 rfl))]

theorem Column.toMicros_of_whole {c : Column} (h : AreWhole c.values) : c.toMicros = c := by
  have hcells : c.cells.map (fun v => v.map Value.toMicros) = c.cells := by
    refine (Array.map_congr_left fun v hv => ?_).trans (Array.map_id c.cells)
    refine Value.map_toMicros_of_whole fun w hw => h w ?_
    rw [Option.mem_toList] at hw
    rw [Option.mem_def.1 hw] at hv
    exact List.reduceOption_mem_iff.2 (Array.mem_def.1 hv)
  rw [toMicros, hcells]

theorem Value.textOrAbsent_toMicros (o : Option Value) :
    textOrAbsent (o.map toMicros) = textOrAbsent o := by
  cases o with
  | none => rfl
  | some v => exact v.text_toMicros

theorem Column.get?_toMicros (c : Column) (n : Nat) :
    c.toMicros.get? n = (c.get? n).map Value.toMicros := by
  rw [get?, get?, toMicros, Array.getElem?_map]
  cases c.cells[n]? <;> rfl

theorem Column.size_toMicros (c : Column) : c.toMicros.size = c.size := Array.size_map

/-! ## 2. Statements -/

namespace Statement

/-- The values in a statement. -/
def values (s : Statement) : List Value :=
  s.parameters.values.flatMap Parameter.values ++ s.metadata.values.map Metavalue.value
    ++ s.columns.values.flatMap Column.values

theorem mem_values_of_parameter {s : Statement} {p : Parameter} {v : Value}
    (hp : p ∈ s.parameters.values) (hv : v ∈ p.values) : v ∈ s.values :=
  List.mem_append_left _ (List.mem_append_left _ (List.mem_flatMap.2 ⟨p, hp, hv⟩))

theorem mem_values_of_metadata {s : Statement} {m : Metavalue} (hm : m ∈ s.metadata.values) :
    m.value ∈ s.values :=
  List.mem_append_left _ (List.mem_append_right _ (List.mem_map_of_mem hm))

theorem mem_values_of_column {s : Statement} {c : Column} {v : Value} (hc : c ∈ s.columns.values)
    (hv : some v ∈ c.cells) : v ∈ s.values :=
  List.mem_append_right _
    (List.mem_flatMap.2 ⟨c, hc, List.reduceOption_mem_iff.2 (Array.mem_def.1 hv)⟩)

/-- The times in a statement: those in its scope, and those among its values. -/
def times (s : Statement) : List Instant := s.scope.times ++ s.values.flatMap Value.times

/-- The statement as it comes back from its written form: with the token that it was written with,
and with its times cut down to microseconds. -/
def settled (s : Statement) : Statement :=
  { s with
    givenToken := some s.token
    scope := s.scope.toMicros
    parameters := s.parameters.map Parameter.toMicros
    metadata := s.metadata.map Metavalue.toMicros
    columns := s.columns.map Column.toMicros }

/-- A statement with a token of its own and with whole microseconds comes back as it is. -/
theorem settled_of_whole {s : Statement} (htoken : s.givenToken.isSome = true)
    (htimes : ∀ t ∈ s.times, t.nano % 1000 = 0) : s.settled = s := by
  rw [times, List.forall_mem_append] at htimes
  have hwhole : AreWhole s.values := fun v hv t ht =>
    htimes.2 t (List.mem_flatMap.2 ⟨v, hv, ht⟩)
  rw [AreWhole, values, List.forall_mem_append, List.forall_mem_append] at hwhole
  obtain ⟨⟨hparameters, hmetadata⟩, hcolumns⟩ := hwhole
  have htokens : some s.token = s.givenToken := by
    obtain ⟨given, hgiven⟩ := Option.isSome_iff_exists.1 htoken
    rw [token, hgiven]
    rfl
  have hps : s.parameters.map Parameter.toMicros = s.parameters :=
    Table.map_of_forall fun p hp => Parameter.toMicros_of_whole fun v hv =>
      hparameters v (List.mem_flatMap.2 ⟨p, hp, hv⟩)
  have hms : s.metadata.map Metavalue.toMicros = s.metadata :=
    Table.map_of_forall fun m hm => Metavalue.toMicros_of_whole fun v hv =>
      hmetadata v (List.mem_singleton.1 hv ▸ List.mem_map_of_mem hm)
  have hcs : s.columns.map Column.toMicros = s.columns :=
    Table.map_of_forall fun c hc => Column.toMicros_of_whole fun v hv =>
      hcolumns v (List.mem_flatMap.2 ⟨c, hc, hv⟩)
  rw [settled, htokens, Scope.toMicros_of_whole htimes.1, hps, hms, hcs]

/-- The token that was given to a statement is its token. Left to `rfl` this computes the digest of
the content, which is what the token would be otherwise. -/
theorem token_of_given {s : Statement} {token : String} (h : s.givenToken = some token) :
    s.token = token := by
  rw [Statement.token, h, Option.getD_some]

theorem token_settled (s : Statement) : s.settled.token = s.token := token_of_given rfl

theorem columnNames_settled (s : Statement) : s.settled.columns.names = s.columns.names :=
  Table.names_map _ _

theorem scopeText_settled (s : Statement) : s.settled.scope.text = s.scope.text :=
  Scope.text_toMicros _

theorem tableMembers_map {α : Type} {f : α → α} {text : α → String} (t : Table α)
    (h : ∀ a, text (f a) = text a) : tableMembers (t.map f) text = tableMembers t text := by
  rw [tableMembers, tableMembers, Table.map, List.map_map]
  refine List.map_congr_left fun e _ => ?_
  rw [Function.comp_apply, h]

/-- What comes back is written alike. -/
theorem members_settled (s : Statement) (kind : MessageKind) {parameter : Parameter → String}
    (h : ∀ p : Parameter, parameter p.toMicros = parameter p) :
    s.settled.members kind parameter = s.members kind parameter := by
  have hparameters : tableMembers s.settled.parameters parameter
      = tableMembers s.parameters parameter := tableMembers_map _ h
  have hmetadata : tableMembers s.settled.metadata (fun m => m.value.text)
      = tableMembers s.metadata fun m => m.value.text :=
    tableMembers_map _ fun m => m.value.text_toMicros
  rw [members, members, hparameters, hmetadata, columnNames_settled, scopeText_settled,
    token_settled]
  rfl

theorem offerMembers_settled (s : Statement) (kind : MessageKind) :
    s.settled.offerMembers kind = s.offerMembers kind :=
  s.members_settled kind fun p => p.constraint.text_toMicros

theorem requestMembers_settled (s : Statement) (kind : MessageKind) :
    s.settled.requestMembers kind = s.requestMembers kind :=
  s.members_settled kind fun p => Value.textOrAbsent_toMicros p.value

theorem writtenRows_settled (s : Statement) : s.settled.writtenRows = s.writtenRows := by
  have hcolumns : s.settled.columns.values = s.columns.values.map Column.toMicros :=
    Table.values_map _ _
  have hcount : s.settled.rowCount = s.rowCount := by
    rw [rowCount, hcolumns, List.foldl_map, rowCount]
    simp only [Column.size_toMicros]
  have hrow : ∀ n, (s.settled.row n).map (fun v => Json.text (Value.textOrAbsent v))
      = (s.row n).map fun v => .text (Value.textOrAbsent v) := by
    intro n
    rw [row, hcolumns, row, List.map_map, List.map_map, List.map_map]
    refine List.map_congr_left fun c _ => ?_
    simp only [Function.comp_apply, Column.get?_toMicros, Value.textOrAbsent_toMicros]
  rw [writtenRows, hcount, writtenRows]
  simp only [hrow]

end Statement

end Measurement
