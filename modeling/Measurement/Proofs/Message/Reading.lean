/-
What a message that was read says.

A message holds statements, its own or those of the messages in an envelope
(`Message.statements`). Every one of them was put together from texts: each
entry of its tables is of an element of the registry, what an offer admits and
what a request asks for was read from some text, and so were metadata, cells
and scope (`Statement.IsRead`). An offer has no values, and a request has no
constraints.

Each step that adds a part of a statement is told by one lemma that says when it
succeeds and what it gives. Reading a statement is a fold of such steps, so what
they preserve holds of what is read, and a message is read as its JSON value is
built.
-/
import Measurement.Message.Reading
import Measurement.Proofs.Readers
import Measurement.Proofs.Table
import Measurement.Proofs.Value
import Mathlib.Data.List.Forall2

set_option autoImplicit false

namespace Measurement

/-! ## 1. The statements of a message -/

/-- Whether statements in messages of a kind are offers, so that parameters tell what they admit. -/
def MessageKind.offers : MessageKind → Bool
  | .capability | .withdrawal => true
  | _ => false

namespace Message

mutual

/-- The statements in a message with the kinds of messages they stand in, through all envelopes. -/
def statements : Message → List (MessageKind × Statement)
  | capability c => [(.capability, c.statement)]
  | specification s => [(.specification, s.statement)]
  | result r => [(.result, r.statement)]
  | receipt r => [(.receipt, r.statement)]
  | withdrawal w => [(.withdrawal, w.statement)]
  | redemption _ | interrupt _ | exception _ => []
  | envelope _ contents => allStatements contents

/-- The statements in messages. -/
def allStatements : List Message → List (MessageKind × Statement)
  | [] => []
  | m :: ms => statements m ++ allStatements ms

end

end Message

/-! ## 2. Parts that were read -/

/-- A parameter as an offer has it: it admits what some text says, and has no value. -/
def Parameter.IsOffer (p : Parameter) : Prop :=
  p.value = none ∧ ∃ text, Constraint.read p.primitive text = .ok p.constraint

/-- A parameter as a request has it: it has the value that some text says, if any, and admits
anything. -/
def Parameter.IsRequest (p : Parameter) : Prop :=
  p.constraint = .unconstrained ∧ ∃ text, Value.readOptional p.primitive text = .ok p.value

/-- Metadata whose value some text says. -/
def Metavalue.IsRead (m : Metavalue) : Prop :=
  ∃ text, Value.read m.element.primitive text = .ok m.value

/-- A column whose cells some texts say. -/
def Column.IsRead (c : Column) : Prop :=
  ∀ v ∈ c.cells, ∃ text, Value.readOptional c.primitive text = .ok v

namespace Statement

/-- A parameter as statements in messages of a kind have it. -/
def ParameterIsRead (kind : MessageKind) (p : Parameter) : Prop :=
  if kind.offers = true then p.IsOffer else p.IsRequest

/-- A statement with `n` rows as it is read from a message of a kind. -/
structure IsRead (kind : MessageKind) (n : Nat) (s : Statement) : Prop where
  scope : s.scope = .nowToFuture ∨ ∃ text, Scope.read text = .ok s.scope
  parameters : ∀ e ∈ s.parameters.entries,
    s.registry.element e.1 = .ok e.2.element ∧ ParameterIsRead kind e.2
  metadata : ∀ e ∈ s.metadata.entries, s.registry.element e.1 = .ok e.2.element ∧ e.2.IsRead
  columns : ∀ e ∈ s.columns.entries, s.registry.element e.1 = .ok e.2.element ∧ e.2.IsRead
  sizes : ∀ e ∈ s.columns.entries, e.2.size = n

end Statement

/-! ## 3. Steps -/

namespace Message

theorem addOffered_eq_ok_iff {s t : Statement} {name text : String} :
    addOffered s name text = .ok t ↔ ∃ e c, s.registry.element name = .ok e
      ∧ Constraint.read e.primitive text = .ok c
      ∧ { s with parameters := s.parameters.insert name ⟨e, c, none⟩ } = t := by
  simp only [addOffered, Statement.addParameterText, Statement.addParameter, mapError_eq_ok_iff,
    bind_eq_ok_iff, map_eq_ok_iff]
  constructor
  · rintro ⟨e, he, c, hc, e', he', ht⟩
    rw [he] at he'
    cases he'
    exact ⟨e, c, he, hc, ht⟩
  · rintro ⟨e, c, he, hc, ht⟩
    exact ⟨e, he, c, hc, e, he, ht⟩

theorem read_absent (p : Primitive) : Constraint.read p absent = .ok .unconstrained := by
  rw [Constraint.read, if_pos (by decide)]

/-- A parameter without constraint takes whatever is read for it. -/
theorem assignText_eq_ok_iff {e : Element} {text : String} {p : Parameter} :
    (Parameter.make e .unconstrained).assignText text = .ok p
      ↔ ∃ v, Value.readOptional e.primitive text = .ok v ∧ ⟨e, .unconstrained, v⟩ = p := by
  rw [Parameter.assignText]
  split
  · rename_i fault hv
    rw [show Value.readOptional e.primitive text = .error fault from hv]
    exact ⟨fun h => (by cases h), fun ⟨v, h, _⟩ => (by cases h)⟩
  · rename_i hv
    rw [show Value.readOptional e.primitive text = .ok none from hv]
    refine ⟨fun h => ⟨none, rfl, Except.ok.inj h⟩, fun ⟨v, h, hp⟩ => ?_⟩
    cases h
    exact congrArg Except.ok hp
  · rename_i v hv
    have hprimitive : v.primitive = e.primitive := Value.primitive_of_readOptional hv
    have hassign : (Parameter.make e .unconstrained).assign v
        = .ok ⟨e, .unconstrained, some v⟩ := by
      rw [Parameter.assign, Element.check, Parameter.make, if_pos hprimitive]
      rfl
    rw [show Value.readOptional e.primitive text = .ok (some v) from hv, hassign]
    refine ⟨fun h => ⟨some v, rfl, Except.ok.inj h⟩, fun ⟨w, h, hp⟩ => ?_⟩
    cases h
    exact congrArg Except.ok hp

theorem addRequested_eq_ok_iff {s t : Statement} {name text : String} :
    addRequested s name text = .ok t ↔ ∃ e v, s.registry.element name = .ok e
      ∧ Value.readOptional e.primitive text = .ok v
      ∧ { s with parameters := s.parameters.insert name ⟨e, .unconstrained, v⟩ } = t := by
  have hset : ∀ e, Statement.setParameterText
      { s with parameters := s.parameters.insert name (Parameter.make e .unconstrained) } name text
        = ((Parameter.make e .unconstrained).assignText text).map fun p =>
          { s with parameters := s.parameters.insert name p } := by
    intro e
    rw [Statement.setParameterText, Table.get?_insert_self]
    simp only [Table.insert_insert]
  simp only [addRequested, Statement.addParameterText, Statement.addParameter, mapError_eq_ok_iff,
    bind_eq_ok_iff, map_eq_ok_iff]
  constructor
  · rintro ⟨u, ⟨e, he, c, hc, e', he', rfl⟩, h⟩
    rw [he] at he'
    cases he'
    rw [read_absent] at hc
    cases hc
    rw [hset, map_eq_ok_iff] at h
    obtain ⟨p, hp, ht⟩ := h
    obtain ⟨v, hv, rfl⟩ := assignText_eq_ok_iff.1 hp
    exact ⟨e, v, he, hv, ht⟩
  · rintro ⟨e, v, he, hv, ht⟩
    refine ⟨_, ⟨e, he, _, read_absent e.primitive, e, he, rfl⟩, ?_⟩
    rw [hset, map_eq_ok_iff]
    exact ⟨_, assignText_eq_ok_iff.2 ⟨v, hv, rfl⟩, ht⟩

theorem addMetadataText_eq_ok_iff {s t : Statement} {name text : String} :
    s.addMetadataText name text = .ok t ↔ ∃ e v, s.registry.element name = .ok e
      ∧ Value.read e.primitive text = .ok v
      ∧ { s with metadata := s.metadata.insert name ⟨e, v⟩ } = t := by
  simp only [Statement.addMetadataText, Statement.addMetadata, Metavalue.make, Element.check,
    mapError_eq_ok_iff, bind_eq_ok_iff, map_eq_ok_iff]
  constructor
  · rintro ⟨e, he, v, hv, e', he', m, ⟨u, -, rfl⟩, ht⟩
    rw [he] at he'
    cases he'
    exact ⟨e, v, he, hv, Except.ok.inj ht⟩
  · rintro ⟨e, v, he, hv, rfl⟩
    exact ⟨e, he, v, hv, e, he, ⟨e, v⟩, ⟨(), if_pos (Value.primitive_of_read hv), rfl⟩, rfl⟩

theorem addColumn_eq_ok_iff {s t : Statement} {j : Json} :
    addColumn s j = .ok t ↔ ∃ name e, j = .text name ∧ s.registry.element name = .ok e
      ∧ (if s.columns.contains name = true then s
        else { s with columns := s.columns.insert name (.make e) }) = t := by
  cases j with
  | text name =>
    rw [addColumn, Statement.addColumn, map_eq_ok_iff]
    exact ⟨fun ⟨e, he, ht⟩ => ⟨name, e, rfl, he, ht⟩,
      fun ⟨_, e, hj, he, ht⟩ => (by cases hj; exact ⟨e, he, ht⟩)⟩
  | null => exact ⟨fun h => (by cases h), fun ⟨_, _, hj, _⟩ => (by cases hj)⟩
  | bool b => exact ⟨fun h => (by cases h), fun ⟨_, _, hj, _⟩ => (by cases hj)⟩
  | number n => exact ⟨fun h => (by cases h), fun ⟨_, _, hj, _⟩ => (by cases hj)⟩
  | array items => exact ⟨fun h => (by cases h), fun ⟨_, _, hj, _⟩ => (by cases hj)⟩
  | object members => exact ⟨fun h => (by cases h), fun ⟨_, _, hj, _⟩ => (by cases hj)⟩

/-! ## 4. Statements -/

section

variable {kind : MessageKind} {n : Nat} {s t : Statement} {name text : String}

theorem isRead_insert_parameter {p : Parameter} (h : s.IsRead kind n)
    (he : s.registry.element name = .ok p.element) (hp : Statement.ParameterIsRead kind p) :
    { s with parameters := s.parameters.insert name p }.IsRead kind n := by
  refine { h with parameters := fun e hmem => ?_ }
  obtain rfl | hmem := Table.mem_insert hmem
  · exact ⟨he, hp⟩
  · exact h.parameters e hmem

theorem isRead_addOffered (hkind : kind.offers = true) (h : s.IsRead kind n)
    (hadd : addOffered s name text = .ok t) : t.IsRead kind n := by
  obtain ⟨e, c, he, hc, rfl⟩ := addOffered_eq_ok_iff.1 hadd
  refine isRead_insert_parameter h he ?_
  rw [Statement.ParameterIsRead, if_pos hkind]
  exact ⟨rfl, text, hc⟩

theorem isRead_addRequested (hkind : kind.offers = false) (h : s.IsRead kind n)
    (hadd : addRequested s name text = .ok t) : t.IsRead kind n := by
  obtain ⟨e, v, he, hv, rfl⟩ := addRequested_eq_ok_iff.1 hadd
  refine isRead_insert_parameter h he ?_
  rw [Statement.ParameterIsRead, if_neg (by rw [hkind]; decide)]
  exact ⟨rfl, text, hv⟩

theorem isRead_addMetadataText (h : s.IsRead kind n) (hadd : s.addMetadataText name text = .ok t) :
    t.IsRead kind n := by
  obtain ⟨e, v, he, hv, rfl⟩ := addMetadataText_eq_ok_iff.1 hadd
  refine { h with metadata := fun e hmem => ?_ }
  obtain rfl | hmem := Table.mem_insert hmem
  · exact ⟨he, text, hv⟩
  · exact h.metadata e hmem

theorem isRead_addColumn {j : Json} (h : s.IsRead kind 0) (hadd : addColumn s j = .ok t) :
    t.IsRead kind 0 := by
  obtain ⟨name, e, -, he, rfl⟩ := addColumn_eq_ok_iff.1 hadd
  split
  · exact h
  · refine { h with columns := fun c hmem => ?_, sizes := fun c hmem => ?_ }
    · obtain rfl | hmem := Table.mem_insert hmem
      · exact ⟨he, fun v hv => absurd hv (Array.not_mem_empty v)⟩
      · exact h.columns c hmem
    · obtain rfl | hmem := Table.mem_insert hmem
      · rfl
      · exact h.sizes c hmem

theorem isRead_readHead {lookup : RegistryLookup} {ms : Members}
    (h : readHead lookup ms kind = .ok s) : s.IsRead kind 0 := by
  simp only [readHead, bind_eq_ok_iff] at h
  obtain ⟨verb, -, uri, -, registry, -, label, -, link, -, exportUri, -, token, -, text, -, hs⟩ := h
  have hempty : ∀ {α : Type} {p : String × α → Prop}, ∀ e ∈ (Table.empty : Table α).entries, p e :=
    fun e he => absurd he List.not_mem_nil
  cases text with
  | none =>
    cases hs
    exact ⟨Or.inl rfl, hempty, hempty, hempty, hempty⟩
  | some text =>
    obtain ⟨scope, hscope, hs⟩ := bind_eq_ok_iff.1 hs
    cases hs
    exact ⟨Or.inr ⟨text, hscope⟩, hempty, hempty, hempty, hempty⟩

/-- What is read as a statement is put together from texts, if its parameters are. -/
theorem isRead_readStatement {lookup : RegistryLookup} {ms : Members}
    {add : Statement → String → String → Except Fault Statement}
    (hadd : ∀ s name text t, s.IsRead kind 0 → add s name text = .ok t → t.IsRead kind 0)
    (h : readStatement lookup ms kind add = .ok s) : s.IsRead kind 0 := by
  simp only [readStatement, bind_eq_ok_iff, mapError_eq_ok_iff] at h
  obtain ⟨head, hhead, parameters, -, s1, hparameters, metadata, -, s2, hmetadata, names, -,
    hcolumns⟩ := h
  have h1 : s1.IsRead kind 0 := foldlM_invariant (p := fun s => s.IsRead kind 0)
    (fun s r t hs ht => hadd s r.1 r.2 t hs ht) (isRead_readHead hhead) hparameters
  have h2 : s2.IsRead kind 0 := foldlM_invariant (p := fun s => s.IsRead kind 0)
    (fun s r t hs ht => isRead_addMetadataText hs ht) h1 hmetadata
  exact foldlM_invariant (p := fun s => s.IsRead kind 0)
    (fun s j t hs ht => isRead_addColumn hs ht) h2 hcolumns

end

/-! ## 5. Rows -/

/-- A column that has grown by some rows whose cells were read. -/
def Grown (rows : Nat) (c d : Column) : Prop :=
  d.element = c.element ∧ d.size = c.size + rows ∧ (c.IsRead → d.IsRead)

theorem pushCells_grown {cs ds : List Column} {cells : List Json}
    (hlength : cells.length = cs.length)
    (h : pushCells cs cells = .ok ds) : List.Forall₂ (Grown 1) cs ds := by
  induction cs generalizing cells ds with
  | nil =>
    cases h
    exact List.Forall₂.nil
  | cons c cs ih =>
    cases cells with
    | nil => cases hlength
    | cons cell cells =>
      rw [pushCells] at h
      simp only [bind_eq_ok_iff] at h
      obtain ⟨text, -, v, hv, rest, hrest, hds⟩ := h
      cases hds
      refine List.Forall₂.cons ⟨rfl, Array.size_push v, fun hc w hw => ?_⟩
        (ih (Nat.succ.inj hlength) hrest)
      obtain hw | rfl := Array.mem_push.1 hw
      · exact hc w hw
      · exact ⟨text, hv⟩

theorem grown_trans {m n : Nat} {bs cs ds : List Column} (h : List.Forall₂ (Grown m) bs cs)
    (k : List.Forall₂ (Grown n) cs ds) : List.Forall₂ (Grown (m + n)) bs ds := by
  induction h generalizing ds with
  | nil =>
    cases k
    exact List.Forall₂.nil
  | cons hbc hrest ih =>
    cases k with
    | cons hcd hmore =>
      refine List.Forall₂.cons ⟨hcd.1.trans hbc.1, ?_, fun hb => hcd.2.2 (hbc.2.2 hb)⟩ (ih hmore)
      rw [hcd.2.1, hbc.2.1, Nat.add_assoc]

theorem grown_refl (cs : List Column) : List.Forall₂ (Grown 0) cs cs :=
  List.forall₂_same.2 fun _ _ => ⟨rfl, rfl, id⟩

theorem pushRows_grown {n : Nat} {cs ds : List Column} {rows : List Json}
    (h : pushRows n cs rows = .ok ds) : List.Forall₂ (Grown rows.length) cs ds := by
  induction rows generalizing n cs with
  | nil =>
    cases h
    exact grown_refl _
  | cons row rows ih =>
    cases row with
    | array cells =>
      rw [pushRows] at h
      split at h
      · rename_i hlength
        obtain ⟨es, hes, h⟩ := bind_eq_ok_iff.1 h
        rw [List.length_cons, Nat.add_comm]
        exact grown_trans (pushCells_grown hlength hes) (ih h)
      · cases h
    | _ => cases h

/-- Columns that have grown stand under their old names. -/
theorem mem_withValues_grown {n : Nat} {t : Table Column} {ds : List Column}
    (h : List.Forall₂ (Grown n) t.values ds) {e : String × Column}
    (he : e ∈ (t.withValues ds).entries) : ∃ c, (e.1, c) ∈ t.entries ∧ Grown n c e.2 := by
  simp only [Table.withValues, Table.names] at he
  simp only [Table.values] at h
  generalize t.entries = es at he h
  induction es generalizing ds with
  | nil => exact absurd he (by simp)
  | cons e' es ih =>
    cases h with
    | cons hgrown hrest =>
      obtain rfl | he := List.mem_cons.1 he
      · exact ⟨e'.2, List.mem_cons_self, hgrown⟩
      · obtain ⟨c, hc, hgrown⟩ := ih he hrest
        exact ⟨c, List.mem_cons_of_mem e' hc, hgrown⟩

/-- The number of rows that a message lists. -/
def rowsListed (ms : Members) : Nat :=
  match Json.member? "resultvalues" ms with
  | some (.array rows) => rows.length
  | _ => 0

theorem isRead_readRows {kind : MessageKind} {s t : Statement} {ms : Members} (h : s.IsRead kind 0)
    (hrows : readRows s ms = .ok t) : t.IsRead kind (rowsListed ms) := by
  rw [readRows] at hrows
  split at hrows
  · rename_i hmember
    cases hrows
    rw [rowsListed, hmember]
    exact h
  · rename_i rows hmember
    obtain ⟨ds, hds, rfl⟩ := map_eq_ok_iff.1 hrows
    have hgrown := pushRows_grown hds
    rw [rowsListed, hmember]
    refine { h with columns := fun e he => ?_, sizes := fun e he => ?_ }
    · obtain ⟨c, hc, helement, -, hread⟩ := mem_withValues_grown hgrown he
      obtain ⟨hregistry, hcells⟩ := h.columns _ hc
      rw [helement]
      exact ⟨hregistry, hread hcells⟩
    · obtain ⟨c, hc, -, hsize, -⟩ := mem_withValues_grown hgrown he
      have hzero : c.size = 0 := h.sizes _ hc
      rw [hsize, hzero, Nat.zero_add]
  · cases hrows

/-! ## 6. Messages -/

section

variable {lookup : RegistryLookup} {ms : Members} {contents : Except Fault (List Message)}
  {kind : MessageKind} {m : Message}

/-- What an envelope holds is its contents. -/
theorem contents_of_readKind {k : EnvelopeKind} {cs : List Message}
    (h : readKind lookup ms contents kind = .ok (envelope k cs)) : contents = .ok cs := by
  cases kind with
  | envelope =>
    simp only [readKind, bind_eq_ok_iff, mapError_eq_ok_iff] at h
    obtain ⟨_, -, _, hcs, hm⟩ := h
    cases hm
    exact hcs
  | exception =>
    simp only [readKind, mapError_eq_ok_iff, map_eq_ok_iff] at h
    obtain ⟨_, -, hm⟩ := h
    cases hm
  | result =>
    simp only [readKind, bind_eq_ok_iff] at h
    obtain ⟨_, -, _, -, hm⟩ := h
    cases hm
  | redemption | interrupt =>
    simp only [readKind, bind_eq_ok_iff, mapError_eq_ok_iff] at h
    obtain ⟨_, -, _, -, hm⟩ := h
    cases hm
  | capability | withdrawal | specification | receipt =>
    obtain ⟨_, -, hm⟩ := map_eq_ok_iff.1 h
    cases hm

/-- The statement of a message that is no envelope was put together from texts, and only that of a
result has rows. -/
theorem isRead_readKind (h : readKind lookup ms contents kind = .ok m)
    (hkind : m.kind ≠ .envelope) :
    ∀ e ∈ m.statements, e.2.IsRead e.1 (if e.1 = .result then rowsListed ms else 0) := by
  have hoffer : ∀ {k s}, MessageKind.offers k = true →
      readStatement lookup ms k addOffered = .ok s → s.IsRead k 0 := by
    intro k s hk hs
    exact isRead_readStatement (fun s name text t hs ht => isRead_addOffered hk hs ht) hs
  have hrequest : ∀ {k s}, MessageKind.offers k = false →
      readStatement lookup ms k addRequested = .ok s → s.IsRead k 0 := by
    intro k s hk hs
    exact isRead_readStatement (fun s name text t hs ht => isRead_addRequested hk hs ht) hs
  cases kind with
  | capability =>
    obtain ⟨s, hs, rfl⟩ := map_eq_ok_iff.1 h
    exact List.forall_mem_singleton.2 (hoffer rfl hs)
  | withdrawal =>
    obtain ⟨s, hs, rfl⟩ := map_eq_ok_iff.1 h
    exact List.forall_mem_singleton.2 (hoffer rfl hs)
  | specification =>
    obtain ⟨s, hs, rfl⟩ := map_eq_ok_iff.1 h
    exact List.forall_mem_singleton.2 (hrequest rfl hs)
  | receipt =>
    obtain ⟨s, hs, rfl⟩ := map_eq_ok_iff.1 h
    exact List.forall_mem_singleton.2 (hrequest rfl hs)
  | result =>
    simp only [readKind, bind_eq_ok_iff, mapError_eq_ok_iff] at h
    obtain ⟨s, hs, t, ht, hm⟩ := h
    cases hm
    exact List.forall_mem_singleton.2 (isRead_readRows (hrequest rfl hs) ht)
  | redemption =>
    simp only [readKind, bind_eq_ok_iff, mapError_eq_ok_iff] at h
    obtain ⟨verb, -, token, -, hm⟩ := h
    cases hm
    exact List.forall_mem_nil _
  | interrupt =>
    simp only [readKind, bind_eq_ok_iff, mapError_eq_ok_iff] at h
    obtain ⟨verb, -, token, -, hm⟩ := h
    cases hm
    exact List.forall_mem_nil _
  | exception =>
    simp only [readKind, mapError_eq_ok_iff] at h
    obtain ⟨e, -, rfl⟩ := map_eq_ok_iff.1 h
    exact List.forall_mem_nil _
  | envelope =>
    simp only [readKind, bind_eq_ok_iff, mapError_eq_ok_iff] at h
    obtain ⟨k, -, cs, -, hm⟩ := h
    cases hm
    exact absurd rfl hkind

/-- The kind of a message comes first, then its version, then the rest. -/
theorem readKind_of_ofMembers (h : ofMembers lookup ms contents = .ok m) :
    ∃ kind, readKind lookup ms contents kind = .ok m := by
  rw [ofMembers] at h
  split at h
  · cases h
  · rename_i kind _
    obtain ⟨-, -, h⟩ := bind_eq_ok_iff.1 h
    exact ⟨kind, h⟩

/-- Whether a statement is said by a message that an object is read as and that is no envelope. -/
def ReadAlone (lookup : RegistryLookup) (ms : Members) (e : MessageKind × Statement) : Prop :=
  ∃ m, ofJson lookup (.object ms) = .ok m ∧ m.kind ≠ .envelope ∧ e ∈ m.statements

theorem isRead_of_readAlone {e : MessageKind × Statement} (h : ReadAlone lookup ms e) :
    e.2.IsRead e.1 (if e.1 = .result then rowsListed ms else 0) := by
  obtain ⟨m, hm, hkind, he⟩ := h
  rw [ofJson] at hm
  obtain ⟨kind, hread⟩ := readKind_of_ofMembers hm
  exact isRead_readKind hread hkind e he

end

mutual

/-- Every statement in a message that was read, however deep, stands in an object that is read as a
message of its own. -/
theorem readAlone_ofJson (lookup : RegistryLookup) :
    ∀ (j : Json) (m : Message), ofJson lookup j = .ok m →
      ∀ e ∈ m.statements, ∃ ms, ReadAlone lookup ms e
  | .object ms, m, h, e, he => by
    by_cases hkind : m.kind = .envelope
    · cases m with
      | envelope k cs =>
        rw [ofJson] at h
        obtain ⟨kind, hread⟩ := readKind_of_ofMembers h
        exact readAlone_contentsOf lookup ms cs (contents_of_readKind hread) e he
      | _ => cases hkind
    · exact ⟨ms, m, h, hkind, he⟩
  | .null, m, h, _, _ | .bool _, m, h, _, _ | .number _, m, h, _, _ | .text _, m, h, _, _
  | .array _, m, h, _, _ => by
    simp [ofJson] at h

theorem readAlone_contentsOf (lookup : RegistryLookup) :
    ∀ (ms : List (String × Json)) (cs : List Message), contentsOf lookup ms = .ok cs →
      ∀ e ∈ allStatements cs, ∃ ms, ReadAlone lookup ms e
  | [], cs, h => by
    cases h
    exact fun e he => absurd he List.not_mem_nil
  | (name, j) :: rest, cs, h => by
    rw [contentsOf] at h
    split at h
    · exact readAlone_listOf lookup j cs h
    · exact readAlone_contentsOf lookup rest cs h

theorem readAlone_listOf (lookup : RegistryLookup) :
    ∀ (j : Json) (cs : List Message), listOf lookup j = .ok cs →
      ∀ e ∈ allStatements cs, ∃ ms, ReadAlone lookup ms e
  | .array items, cs, h => readAlone_allOf lookup items cs (by rwa [listOf] at h)
  | .null, cs, h | .bool _, cs, h | .number _, cs, h | .text _, cs, h | .object _, cs, h => by
    simp [listOf] at h

theorem readAlone_allOf (lookup : RegistryLookup) :
    ∀ (items : List Json) (cs : List Message), allOf lookup items = .ok cs →
      ∀ e ∈ allStatements cs, ∃ ms, ReadAlone lookup ms e
  | [], cs, h => by
    cases h
    exact fun e he => absurd he List.not_mem_nil
  | j :: rest, cs, h => by
    simp only [allOf, bind_eq_ok_iff] at h
    obtain ⟨m, hm, ms, hms, hcs⟩ := h
    cases hcs
    intro e he
    rw [allStatements, List.mem_append] at he
    obtain he | he := he
    · exact readAlone_ofJson lookup j m hm e he
    · exact readAlone_allOf lookup rest ms hms e he

end

/-- Every statement in a message that was read was put together from texts, and only results have
rows. -/
theorem isRead_ofJson (lookup : RegistryLookup) (j : Json) (m : Message)
    (h : ofJson lookup j = .ok m) :
    ∀ e ∈ m.statements, ∃ n, e.2.IsRead e.1 n ∧ (e.1 ≠ .result → n = 0) := by
  intro e he
  obtain ⟨ms, halone⟩ := readAlone_ofJson lookup j m h e he
  exact ⟨_, isRead_of_readAlone halone, fun hne => if_neg hne⟩

end Message

end Measurement
