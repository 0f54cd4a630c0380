/-
What is found in a written statement.

A written statement holds each of its parts under one name, and the name of its
kind is no other part's. So a reader finds every part, or finds none where there
was none to write, and from what it finds it builds the statement that was
written, with its token and down to the microsecond (`readStatement_of_shows`).
-/
import Measurement.Proofs.Message.Reading
import Measurement.Proofs.Statement.Settled

set_option autoImplicit false

namespace Measurement

open Measurement.Text

namespace Message

/-! ## 1. Members -/

/-- The names of the parts of a written message, but for the one of its kind. -/
def partNames : List String :=
  ["version", "registry", "label", "link", "export", "token", "when", "parameters", "metadata",
    "results", "resultvalues", "message", "contents"]

theorem name_not_mem_partNames (kind : MessageKind) : kind.name ∉ partNames := by
  cases kind <;> decide

theorem member?_cons (name other : String) (j : Json) (ms : Members) :
    Json.member? name ((other, j) :: ms) = if other = name then some j else Json.member? name ms :=
  rfl

theorem member?_append (name : String) (ms ns : Members) :
    Json.member? name (ms ++ ns) = (Json.member? name ms).or (Json.member? name ns) :=
  entryUnder?_append name ms ns

theorem member?_optionalMember (name other : String) (o : Option String) :
    Json.member? name (Statement.optionalMember other o)
      = if other = name then o.map .text else none := by
  cases o with
  | none =>
    split <;> rfl
  | some s => rfl

/-- What the members of a message show of a statement, under the names that a reader looks up. -/
structure Shows (ms : Members) (s : Statement) (kind : MessageKind)
    (parameter : Parameter → String) : Prop where
  verb : Json.member? kind.name ms = some (.text s.verb)
  registry : Json.member? "registry" ms = some (.text s.registry.uri)
  label : Json.member? "label" ms = s.label.map .text
  link : Json.member? "link" ms = s.link.map .text
  exportUri : Json.member? "export" ms = s.exportUri.map .text
  token : Json.member? "token" ms = some (.text s.token)
  scope : Json.member? "when" ms = some (.text s.scope.text)
  parameters : Json.member? "parameters" ms
    = some (.object (Statement.tableMembers s.parameters parameter))
  metadata : Json.member? "metadata" ms
    = some (.object (Statement.tableMembers s.metadata fun m => m.value.text))
  columns : Json.member? "results" ms = some (.array (s.columns.names.map .text))

section

variable {s : Statement} {kind : MessageKind} {parameter : Parameter → String}

/-- Behind the name of its kind a written statement has its parts. -/
theorem member?_members {rest : Members} {name : String} (h : name ∈ partNames) :
    Json.member? name (s.members kind parameter ++ rest) =
      Json.member? name ([("version", .natural messageVersion), ("registry", .text s.registry.uri)]
        ++ Statement.optionalMember "label" s.label
        ++ Statement.optionalMember "link" s.link
        ++ Statement.optionalMember "export" s.exportUri
        ++ [("token", .text s.token), ("when", .text s.scope.text),
          ("parameters", .object (Statement.tableMembers s.parameters parameter)),
          ("metadata", .object (Statement.tableMembers s.metadata fun m => m.value.text)),
          ("results", .array (s.columns.names.map .text))] ++ rest) := by
  have hne : kind.name ≠ name := fun he => name_not_mem_partNames kind (he ▸ h)
  simp only [Statement.members, List.cons_append, member?_cons, if_neg hne]

/-- A written statement shows what it was written for, whatever stands behind it under a name of
its own. -/
theorem shows_members (s : Statement) (kind : MessageKind) (parameter : Parameter → String)
    {rest : Members} (hlabel : Json.member? "label" rest = none)
    (hlink : Json.member? "link" rest = none) (hexport : Json.member? "export" rest = none) :
    Shows (s.members kind parameter ++ rest) s kind parameter where
  verb := if_pos rfl
  registry := by
    rw [member?_members (by decide)]
    rfl
  label := by
    rw [member?_members (by decide)]
    simp [member?_append, member?_cons, member?_optionalMember, hlabel]
  link := by
    rw [member?_members (by decide)]
    simp [member?_append, member?_cons, member?_optionalMember, hlink]
  exportUri := by
    rw [member?_members (by decide)]
    simp [member?_append, member?_cons, member?_optionalMember, hexport]
  token := by
    rw [member?_members (by decide)]
    simp [member?_append, member?_cons, member?_optionalMember]
  scope := by
    rw [member?_members (by decide)]
    simp [member?_append, member?_cons, member?_optionalMember]
  parameters := by
    rw [member?_members (by decide)]
    simp [member?_append, member?_cons, member?_optionalMember]
  metadata := by
    rw [member?_members (by decide)]
    simp [member?_append, member?_cons, member?_optionalMember]
  columns := by
    rw [member?_members (by decide)]
    simp [member?_append, member?_cons, member?_optionalMember]

end

theorem optionalText_eq {ms : Members} {name : String} {o : Option String}
    (h : Json.member? name ms = o.map .text) : optionalText ms name = .ok o := by
  rw [optionalText, h]
  cases o <;> rfl

theorem requiredText_eq {ms : Members} {name s : String}
    (h : Json.member? name ms = some (.text s)) : requiredText ms name = .ok s := by
  rw [requiredText, optionalText, h]
  rfl

/-- The texts in a written table are read as they are. -/
theorem textRows_tableMembers {α : Type} {ms : Members} {name : String} {t : Table α}
    {text : α → String}
    (h : Json.member? name ms = some (.object (Statement.tableMembers t text))) :
    textRows ms name = .ok (t.entries.map fun e => (e.1, text e.2)) := by
  rw [textRows, h]
  simp only [Statement.tableMembers, List.mapM_map]
  exact mapM_eq_ok fun e _ => rfl

/-! ## 2. Statements -/

section

variable {s : Statement} {kind : MessageKind} {parameter : Parameter → String}
  {ms : Members} {lookup : RegistryLookup}

/-- The statement with which reading begins: what is written before the parameters. -/
def writtenHead (s : Statement) : Statement :=
  { s.settled with parameters := .empty, metadata := .empty, columns := .empty }

theorem readHead_of_shows (h : Shows ms s kind parameter)
    (hlookup : lookup s.registry.uri = .ok s.registry) (hscope : s.scope.IsRead) :
    readHead lookup ms kind = .ok (writtenHead s) := by
  have hregistry : optionalText ms "registry" = .ok (some s.registry.uri) :=
    optionalText_eq h.registry
  have htoken : optionalText ms "token" = .ok (some s.token) := optionalText_eq h.token
  have hwhen : optionalText ms "when" = .ok (some s.scope.text) := optionalText_eq h.scope
  simp only [readHead, requiredText_eq h.verb, hregistry, optionalText_eq h.label,
    optionalText_eq h.link, optionalText_eq h.exportUri, htoken, hwhen, bind, Except.bind,
    Option.getD_some, hlookup, Scope.read_text hscope]
  rfl

/-- Adding the parameters that an offer shows gives its parameters. -/
theorem foldlM_addOffered {n : Nat} (hkind : kind.offers = true) (h : s.IsRead kind n)
    (hback : ∀ v ∈ s.values, v.ReadsBack)
    (honce : ∀ p ∈ s.parameters.values, p.primitive = .string → p.constraint.CutsOnce)
    {t : Statement} (ht : t.registry = s.registry) :
    (s.parameters.entries.map fun e => (e.1, e.2.constraint.text)).foldlM
      (fun t r => addOffered t r.1 r.2) { t with parameters := .empty }
        = .ok { t with parameters := s.parameters.map Parameter.toMicros } := by
  refine Table.foldlM_insert_map (fun t (r : String × String) => addOffered t r.1 r.2)
    (fun u => { t with parameters := u }) _ Parameter.toMicros fun u e he _ => ?_
  have hmem : e.2 ∈ s.parameters.values := List.mem_map_of_mem he
  obtain ⟨helement, hread⟩ := h.parameters e he
  rw [Statement.ParameterIsRead, if_pos hkind] at hread
  obtain ⟨hvalue, text, htext⟩ := hread
  have hconstraint : Constraint.read e.2.element.primitive e.2.constraint.text
      = .ok e.2.constraint.toMicros := by
    refine Constraint.read_text (Constraint.isRead_of_read htext) (fun v hv => hback v ?_)
      (honce e.2 hmem)
    exact Statement.mem_values_of_parameter hmem (List.mem_append_left _ hv)
  refine addOffered_eq_ok_iff.2 ⟨e.2.element, _, ?_, hconstraint, ?_⟩
  · rw [← helement, ← ht]
  · simp only [Parameter.toMicros, hvalue]
    rfl

/-- Adding the parameters that a request shows gives its parameters. -/
theorem foldlM_addRequested {n : Nat} (hkind : kind.offers = false) (h : s.IsRead kind n)
    (hback : ∀ v ∈ s.values, v.ReadsBack) {t : Statement} (ht : t.registry = s.registry) :
    (s.parameters.entries.map fun e => (e.1, Value.textOrAbsent e.2.value)).foldlM
      (fun t r => addRequested t r.1 r.2) { t with parameters := .empty }
        = .ok { t with parameters := s.parameters.map Parameter.toMicros } := by
  refine Table.foldlM_insert_map (fun t (r : String × String) => addRequested t r.1 r.2)
    (fun u => { t with parameters := u }) _ Parameter.toMicros fun u e he _ => ?_
  have hmem : e.2 ∈ s.parameters.values := List.mem_map_of_mem he
  obtain ⟨helement, hread⟩ := h.parameters e he
  rw [Statement.ParameterIsRead, if_neg (by rw [hkind]; decide)] at hread
  obtain ⟨hconstraint, text, htext⟩ := hread
  have hvalue : Value.readOptional e.2.element.primitive (Value.textOrAbsent e.2.value)
      = .ok (e.2.value.map Value.toMicros) := by
    refine Value.readOptional_textOrAbsent htext fun v hv => hback v ?_
    exact Statement.mem_values_of_parameter hmem (List.mem_append_right _ (Option.mem_toList.2 hv))
  refine addRequested_eq_ok_iff.2 ⟨e.2.element, _, ?_, hvalue, ?_⟩
  · rw [← helement, ← ht]
  · simp only [Parameter.toMicros, hconstraint]
    rfl

/-- Adding the metadata that a statement shows gives its metadata. -/
theorem foldlM_addMetadataText {n : Nat} (h : s.IsRead kind n) (hback : ∀ v ∈ s.values, v.ReadsBack)
    {t : Statement} (ht : t.registry = s.registry) :
    (s.metadata.entries.map fun e => (e.1, e.2.value.text)).foldlM
      (fun t r => t.addMetadataText r.1 r.2) { t with metadata := .empty }
        = .ok { t with metadata := s.metadata.map Metavalue.toMicros } := by
  refine Table.foldlM_insert_map (fun t (r : String × String) => t.addMetadataText r.1 r.2)
    (fun u => { t with metadata := u }) _ Metavalue.toMicros fun u e he _ => ?_
  have hmem : e.2 ∈ s.metadata.values := List.mem_map_of_mem he
  obtain ⟨helement, text, htext⟩ := h.metadata e he
  have hvalue : Value.read e.2.element.primitive e.2.value.text = .ok e.2.value.toMicros := by
    rw [← Value.primitive_of_read htext]
    exact Value.read_text (Value.isRead_of_read htext)
      (hback _ (Statement.mem_values_of_metadata hmem))
  refine addMetadataText_eq_ok_iff.2 ⟨e.2.element, _, ?_, hvalue, rfl⟩
  rw [← helement, ← ht]

/-- Adding the columns that a statement shows gives its columns without rows. -/
theorem foldlM_addColumn {n : Nat} (h : s.IsRead kind n) {t : Statement}
    (ht : t.registry = s.registry) :
    (s.columns.names.map Json.text).foldlM addColumn { t with columns := .empty }
      = .ok { t with columns := s.columns.map Column.cleared } := by
  rw [Table.names, List.map_map]
  refine Table.foldlM_insert_map addColumn (fun u => { t with columns := u }) _ Column.cleared
    fun u e he hnew => ?_
  refine addColumn_eq_ok_iff.2 ⟨e.1, e.2.element, rfl, ?_, ?_⟩
  · rw [← (h.columns e he).1, ← ht]
  · have hcontains : u.contains e.1 = false := (u.contains_eq_false_iff e.1).2 hnew
    simp only [hcontains]
    rfl

/-- A statement in a message has a scope as it can be read. -/
theorem isRead_scope {n : Nat} (h : s.IsRead kind n) : s.scope.IsRead := by
  obtain hs | ⟨text, htext⟩ := h.scope
  · rw [hs]
    exact Scope.isRead_nowToFuture
  · exact Scope.isRead_of_read htext

/-- A reader that adds the parameters as they are shown reads the statement without its rows. -/
theorem readStatement_of_shows {add : Statement → String → String → Except Fault Statement}
    {n : Nat} (hshows : Shows ms s kind parameter) (h : s.IsRead kind n)
    (hlookup : lookup s.registry.uri = .ok s.registry) (hback : ∀ v ∈ s.values, v.ReadsBack)
    (hadd : ∀ t : Statement, t.registry = s.registry →
      (s.parameters.entries.map fun e => (e.1, parameter e.2)).foldlM (fun t r => add t r.1 r.2)
        { t with parameters := .empty }
          = .ok { t with parameters := s.parameters.map Parameter.toMicros }) :
    readStatement lookup ms kind add
      = .ok { s.settled with columns := s.columns.map Column.cleared } := by
  have hhead := readHead_of_shows hshows hlookup (isRead_scope h)
  have hparameters := hadd (writtenHead s) rfl
  have hmetadata := foldlM_addMetadataText h hback
    (t := { writtenHead s with parameters := s.parameters.map Parameter.toMicros }) rfl
  have hcolumns := foldlM_addColumn h (t := { s.settled with columns := .empty }) rfl
  have hnames : columnNames ms = .ok (s.columns.names.map .text) := by
    rw [columnNames, hshows.columns]
  simp only [readStatement, bind_eq_ok_iff, mapError_eq_ok_iff]
  exact ⟨_, hhead, _, textRows_tableMembers hshows.parameters, _, hparameters, _,
    textRows_tableMembers hshows.metadata, _, hmetadata, _, hnames, hcolumns⟩

end

end Message

end Measurement
