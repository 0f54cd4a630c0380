/-
The statements that can come about.

A statement begins empty or is read from a message, and then operations are
performed on it in any order, of which some fail and leave it as it is
(`Statement.Reachable`). One lemma for each operation says when it succeeds and
what it gives, and one step lemma what it preserves.

Two things hold of every statement that comes about. Its parts are elements of its
registry, under the names by which the registry has them (`placed_of_reachable`).
If it was built from texts alone, what its parameters admit and what they hold was
read from some text, and what they hold they admit (`fromTexts_of_reachable`).
-/
import Measurement.Proofs.Constraint
import Measurement.Proofs.Message.Reading
import Measurement.Proofs.Registry.Loading

set_option autoImplicit false

namespace Measurement

/-! ## 1. Parameters and columns that take a value -/

namespace Parameter

variable {p q : Parameter} {v : Value} {text : String}

theorem assign_eq_ok_iff :
    p.assign v = .ok q ↔ v.primitive = p.primitive ∧ p.constraint.metBy v = true
      ∧ { p with value := some v } = q := by
  rw [assign, Element.check, bind_eq_ok_iff]
  constructor
  · rintro ⟨u, hchecked, h⟩
    by_cases hprimitive : v.primitive = p.element.primitive
    · by_cases hmet : p.constraint.metBy v = true
      · rw [if_pos hmet] at h
        exact ⟨hprimitive, hmet, Except.ok.inj h⟩
      · rw [if_neg hmet] at h
        cases h
    · rw [if_neg hprimitive] at hchecked
      cases hchecked
  · rintro ⟨hprimitive, hmet, rfl⟩
    exact ⟨(), if_pos hprimitive, if_pos hmet⟩

/-- A text gives a parameter no value, or one that it was read as and that is admitted. -/
theorem assignText_eq_ok_iff :
    p.assignText text = .ok q ↔ ∃ o, Value.readOptional p.primitive text = .ok o
      ∧ (∀ v ∈ o, p.constraint.metBy v = true) ∧ { p with value := o } = q := by
  rw [assignText]
  split
  · rename_i hread
    rw [hread]
    constructor
    · intro h
      cases h
    · rintro ⟨o, ho, -⟩
      cases ho
  · rename_i hread
    rw [hread]
    constructor
    · intro h
      exact ⟨none, rfl, fun v hv => (by cases hv), Except.ok.inj h⟩
    · rintro ⟨o, ho, -, h⟩
      cases ho
      exact congrArg Except.ok h
  · rename_i v hread
    have hprimitive := Value.primitive_of_readOptional hread
    rw [hread, mapError_eq_ok_iff, assign_eq_ok_iff]
    constructor
    · rintro ⟨-, hmet, h⟩
      refine ⟨some v, rfl, fun w hw => ?_, h⟩
      cases hw
      exact hmet
    · rintro ⟨o, ho, hmet, h⟩
      cases ho
      exact ⟨hprimitive, hmet v rfl, h⟩

theorem element_filled (p : Parameter) : p.filled.element = p.element := by
  rw [filled]
  split <;> rfl

end Parameter

theorem Column.set_eq_ok_iff {c d : Column} {row : Nat} {v : Value} :
    c.set row v = .ok d ↔ v.primitive = c.primitive ∧ row < rowLimit
      ∧ { c with cells := writeCell c.cells row v } = d := by
  rw [set, Element.check, bind_eq_ok_iff, primitive]
  by_cases hprimitive : v.primitive = c.element.primitive
  · rw [if_pos hprimitive]
    by_cases hrow : row < rowLimit
    · rw [if_pos hrow]
      constructor
      · rintro ⟨_, _, h⟩
        exact ⟨hprimitive, hrow, Except.ok.inj h⟩
      · rintro ⟨-, -, h⟩
        exact ⟨(), rfl, congrArg Except.ok h⟩
    · rw [if_neg hrow]
      constructor
      · rintro ⟨_, _, h⟩
        cases h
      · rintro ⟨-, h, -⟩
        exact absurd h hrow
  · rw [if_neg hprimitive]
    constructor
    · rintro ⟨_, h, _⟩
      cases h
    · rintro ⟨h, -⟩
      exact absurd h hprimitive

theorem Column.element_of_set {c d : Column} {row : Nat} {v : Value} (h : c.set row v = .ok d) :
    d.element = c.element := by
  obtain ⟨-, -, rfl⟩ := set_eq_ok_iff.1 h
  rfl

namespace Statement

/-! ## 2. Operations that succeed -/

section

variable {s t : Statement} {name text : String} {v : Value} {c : Constraint} {row : Nat}

theorem addParameter_eq_ok_iff :
    s.addParameter name c = .ok t ↔ ∃ e, s.registry.element name = .ok e
      ∧ { s with parameters := s.parameters.insert name (.make e c) } = t := map_eq_ok_iff

theorem addParameterText_eq_ok_iff :
    s.addParameterText name text = .ok t ↔ ∃ e c, s.registry.element name = .ok e
      ∧ Constraint.read e.primitive text = .ok c
      ∧ { s with parameters := s.parameters.insert name (.make e c) } = t := by
  have h : s.addParameterText name text = .ok t ↔ Message.addOffered s name text = .ok t :=
    mapError_eq_ok_iff.symm
  rw [h, Message.addOffered_eq_ok_iff]
  exact Iff.rfl

theorem setParameter_eq_ok_iff :
    s.setParameter name v = .ok t ↔ ∃ p q, s.parameters.get? name = some p ∧ p.assign v = .ok q
      ∧ { s with parameters := s.parameters.insert name q } = t := by
  rw [setParameter]
  cases s.parameters.get? name with
  | none => simp
  | some p => simp [map_eq_ok_iff]

theorem setParameterText_eq_ok_iff :
    s.setParameterText name text = .ok t ↔ ∃ p q, s.parameters.get? name = some p
      ∧ p.assignText text = .ok q
      ∧ { s with parameters := s.parameters.insert name q } = t := by
  rw [setParameterText]
  cases s.parameters.get? name with
  | none => simp
  | some p => simp [map_eq_ok_iff]

theorem addMetadata_eq_ok_iff :
    s.addMetadata name v = .ok t ↔ ∃ e, s.registry.element name = .ok e
      ∧ v.primitive = e.primitive
      ∧ { s with metadata := s.metadata.insert name ⟨e, v⟩ } = t := by
  simp only [addMetadata, Metavalue.make, Element.check, mapError_eq_ok_iff, bind_eq_ok_iff,
    map_eq_ok_iff]
  constructor
  · rintro ⟨e, he, m, ⟨u, hu, rfl⟩, ht⟩
    refine ⟨e, he, ?_, Except.ok.inj ht⟩
    by_contra hne
    rw [if_neg hne] at hu
    cases hu
  · rintro ⟨e, he, hprimitive, rfl⟩
    exact ⟨e, he, ⟨e, v⟩, ⟨(), if_pos hprimitive, rfl⟩, rfl⟩

theorem addColumn_eq_ok_iff :
    s.addColumn name = .ok t ↔ ∃ e, s.registry.element name = .ok e
      ∧ (if s.columns.contains name = true then s
        else { s with columns := s.columns.insert name (.make e) }) = t := map_eq_ok_iff

theorem setCell_eq_ok_iff :
    s.setCell name row v = .ok t ↔ ∃ c d, s.columns.get? name = some c ∧ c.set row v = .ok d
      ∧ { s with columns := s.columns.insert name d } = t := by
  rw [setCell]
  cases s.columns.get? name with
  | none => simp
  | some c => simp [map_eq_ok_iff]

end

/-! ## 3. Statements that come about -/

/-- An operation on a statement, or its change into a statement of another kind. -/
inductive Operation where
  | setLabel (text : String)
  | setLink (text : String)
  | setExport (uri : String)
  | setToken (token : String)
  | setScope (scope : Scope)
  | addParameter (name : String) (c : Constraint)
  | addParameterText (name text : String)
  | setParameter (name : String) (v : Value)
  | setParameterText (name text : String)
  | fillParameters
  | addMetadata (name : String) (v : Value)
  | addMetadataText (name text : String)
  | addColumn (name : String)
  | setCell (name : String) (row : Nat) (v : Value)
  /-- From a capability to a specification of it. -/
  | specify
  /-- From a specification to the same with the token of its content at an instant. -/
  | retoken (t : Instant)
  /-- From a specification to a result of it. -/
  | report

/-- The statement that an operation gives, or the one at hand if the operation fails. -/
def orKeep {ε : Type} (s : Statement) (x : Except ε Statement) : Statement :=
  match x with
  | .ok t => t
  | .error _ => s

/-- The statement after an operation. -/
def Operation.apply (s : Statement) : Operation → Statement
  | setLabel text => { s with label := some text }
  | setLink text => { s with link := some text }
  | setExport uri => { s with exportUri := some uri }
  | setToken token => s.withToken token
  | setScope scope => { s with scope := scope }
  | addParameter name c => s.orKeep (s.addParameter name c)
  | addParameterText name text => s.orKeep (s.addParameterText name text)
  | setParameter name v => s.orKeep (s.setParameter name v)
  | setParameterText name text => s.orKeep (s.setParameterText name text)
  | fillParameters => s.fillParameters
  | addMetadata name v => s.orKeep (s.addMetadata name v)
  | addMetadataText name text => s.orKeep (s.addMetadataText name text)
  | addColumn name => s.orKeep (s.addColumn name)
  | setCell name row v => s.orKeep (s.setCell name row v)
  | specify => (Specification.ofCapability ⟨s⟩).statement
  | retoken t => (Specification.retoken ⟨s⟩ t).statement
  | report => (Result.ofSpecification ⟨s⟩).statement

/-- The statement after operations, one after the other. -/
def run (s : Statement) (os : List Operation) : Statement := os.foldl Operation.apply s

theorem run_append (s : Statement) (os ps : List Operation) :
    s.run (os ++ ps) = (s.run os).run ps := List.foldl_append

/-- The statements that come about through some operations, in any order and number: from empty
ones and from those in messages, with registries of some kind. -/
inductive Reachable (loaded : Registry → Prop) (allowed : Operation → Prop) : Statement → Prop where
  | make (verb : String) {r : Registry} : loaded r → Reachable loaded allowed (make verb r)
  | read {lookup : RegistryLookup} {j : Json} {m : Message} {kind : MessageKind} {s : Statement} :
    Message.ofJson lookup j = .ok m → (kind, s) ∈ m.statements → loaded s.registry →
      Reachable loaded allowed s
  | apply {s : Statement} (o : Operation) :
    allowed o → Reachable loaded allowed s → Reachable loaded allowed (o.apply s)

theorem reachable_run {loaded : Registry → Prop} {allowed : Operation → Prop} {s : Statement}
    (h : Reachable loaded allowed s) {os : List Operation} (hos : ∀ o ∈ os, allowed o) :
    Reachable loaded allowed (s.run os) := by
  induction os generalizing s with
  | nil => exact h
  | cons o os ih =>
    rw [List.forall_mem_cons] at hos
    exact ih (.apply o hos.1 h) hos.2

/-! ## 4. Properties of parts -/

/-- A property of the parts of a statement, each under its name and with the registry. -/
structure PartProperty where
  parameter : Registry → String → Parameter → Prop
  metadata : Registry → String → Metavalue → Prop
  column : Registry → String → Column → Prop

namespace PartProperty

/-- Whether all parts of a statement have a property. -/
structure Holds (I : PartProperty) (s : Statement) : Prop where
  parameters : ∀ e ∈ s.parameters.entries, I.parameter s.registry e.1 e.2
  metadata : ∀ e ∈ s.metadata.entries, I.metadata s.registry e.1 e.2
  columns : ∀ e ∈ s.columns.entries, I.column s.registry e.1 e.2

/-- Whether what some operations make of parts, or make anew, has a property. -/
structure Kept (I : PartProperty) (allowed : Operation → Prop) : Prop where
  addParameter : ∀ {r name e c}, allowed (.addParameter name c) → r.element name = .ok e →
    I.parameter r name (.make e c)
  addParameterText : ∀ {r name text e c}, allowed (.addParameterText name text) →
    r.element name = .ok e → Constraint.read e.primitive text = .ok c →
      I.parameter r name (.make e c)
  setParameter : ∀ {r name v p q}, allowed (.setParameter name v) → I.parameter r name p →
    p.assign v = .ok q → I.parameter r name q
  setParameterText : ∀ {r name text p q}, allowed (.setParameterText name text) →
    I.parameter r name p → p.assignText text = .ok q → I.parameter r name q
  filled : ∀ {r name p}, I.parameter r name p → I.parameter r name p.filled
  cleared : ∀ {r name p}, I.parameter r name p → I.parameter r name p.cleared
  freed : ∀ {r name p}, I.parameter r name p → I.parameter r name p.freed
  addMetadata : ∀ {r name v e}, allowed (.addMetadata name v) → r.element name = .ok e →
    v.primitive = e.primitive → I.metadata r name ⟨e, v⟩
  addMetadataText : ∀ {r name text v e}, allowed (.addMetadataText name text) →
    r.element name = .ok e → Value.read e.primitive text = .ok v → I.metadata r name ⟨e, v⟩
  addColumn : ∀ {r name e}, r.element name = .ok e → I.column r name (.make e)
  setCell : ∀ {r name row v c d}, allowed (.setCell name row v) → I.column r name c →
    c.set row v = .ok d → I.column r name d
  clearedRows : ∀ {r name c}, I.column r name c → I.column r name c.cleared

variable {I : PartProperty} {s : Statement} {name : String}

theorem holds_make (I : PartProperty) (verb : String) (r : Registry) : I.Holds (make verb r) :=
  ⟨fun _ he => absurd he List.not_mem_nil, fun _ he => absurd he List.not_mem_nil,
    fun _ he => absurd he List.not_mem_nil⟩

namespace Holds

theorem insertParameter (h : I.Holds s) {p : Parameter} (hp : I.parameter s.registry name p) :
    I.Holds { s with parameters := s.parameters.insert name p } := by
  refine { h with parameters := fun e he => ?_ }
  obtain rfl | he := Table.mem_insert he
  · exact hp
  · exact h.parameters e he

theorem insertMetadata (h : I.Holds s) {m : Metavalue} (hm : I.metadata s.registry name m) :
    I.Holds { s with metadata := s.metadata.insert name m } := by
  refine { h with metadata := fun e he => ?_ }
  obtain rfl | he := Table.mem_insert he
  · exact hm
  · exact h.metadata e he

theorem insertColumn (h : I.Holds s) {c : Column} (hc : I.column s.registry name c) :
    I.Holds { s with columns := s.columns.insert name c } := by
  refine { h with columns := fun e he => ?_ }
  obtain rfl | he := Table.mem_insert he
  · exact hc
  · exact h.columns e he

theorem mapParameters (h : I.Holds s) {f : Parameter → Parameter}
    (hf : ∀ {name p}, I.parameter s.registry name p → I.parameter s.registry name (f p)) :
    I.Holds { s with parameters := s.parameters.map f } := by
  refine { h with parameters := fun e he => ?_ }
  obtain ⟨a, ha, rfl⟩ := List.mem_map.1 he
  exact hf (h.parameters a ha)

theorem mapColumns (h : I.Holds s) {f : Column → Column}
    (hf : ∀ {name c}, I.column s.registry name c → I.column s.registry name (f c)) :
    I.Holds { s with columns := s.columns.map f } := by
  refine { h with columns := fun e he => ?_ }
  obtain ⟨a, ha, rfl⟩ := List.mem_map.1 he
  exact hf (h.columns a ha)

theorem parameter_of_get? (h : I.Holds s) {p : Parameter} (hp : s.parameters.get? name = some p) :
    I.parameter s.registry name p := h.parameters (name, p) (Table.mem_of_get? hp)

theorem column_of_get? (h : I.Holds s) {c : Column} (hc : s.columns.get? name = some c) :
    I.column s.registry name c := h.columns (name, c) (Table.mem_of_get? hc)

end Holds

end PartProperty

/-- What an operation that succeeds preserves is preserved whether it succeeds or not. -/
theorem orKeep_preserves {ε : Type} {p : Statement → Prop} {s : Statement} {x : Except ε Statement}
    (hs : p s) (h : ∀ t, x = .ok t → p t) : p (s.orKeep x) := by
  cases x with
  | ok t => exact h t rfl
  | error e => exact hs

/-- What an operation that succeeds leaves alone is left alone whether it succeeds or not. -/
theorem orKeep_same {ε γ : Type} (f : Statement → γ) {s : Statement} {x : Except ε Statement}
    (h : ∀ t, x = .ok t → f t = f s) : f (s.orKeep x) = f s :=
  orKeep_preserves (p := fun t => f t = f s) rfl h

/-- Every operation keeps the registry, and a property of parts that it keeps part by part. -/
theorem holds_apply {I : PartProperty} {allowed : Operation → Prop} (hI : I.Kept allowed)
    {s : Statement} (h : I.Holds s) {o : Operation} (ho : allowed o) :
    (o.apply s).registry = s.registry ∧ I.Holds (o.apply s) := by
  -- Operations that can fail keep the statement as it is then.
  have hs : s.registry = s.registry ∧ I.Holds s := ⟨rfl, h⟩
  cases o with
  | addParameter name c =>
    refine orKeep_preserves (p := fun t => t.registry = s.registry ∧ I.Holds t) hs fun t ht => ?_
    obtain ⟨e, he, rfl⟩ := addParameter_eq_ok_iff.1 ht
    exact ⟨rfl, h.insertParameter (hI.addParameter ho he)⟩
  | addParameterText name text =>
    refine orKeep_preserves (p := fun t => t.registry = s.registry ∧ I.Holds t) hs fun t ht => ?_
    obtain ⟨e, c, he, hc, rfl⟩ := addParameterText_eq_ok_iff.1 ht
    exact ⟨rfl, h.insertParameter (hI.addParameterText ho he hc)⟩
  | setParameter name v =>
    refine orKeep_preserves (p := fun t => t.registry = s.registry ∧ I.Holds t) hs fun t ht => ?_
    obtain ⟨p, q, hp, hq, rfl⟩ := setParameter_eq_ok_iff.1 ht
    exact ⟨rfl, h.insertParameter (hI.setParameter ho (h.parameter_of_get? hp) hq)⟩
  | setParameterText name text =>
    refine orKeep_preserves (p := fun t => t.registry = s.registry ∧ I.Holds t) hs fun t ht => ?_
    obtain ⟨p, q, hp, hq, rfl⟩ := setParameterText_eq_ok_iff.1 ht
    exact ⟨rfl, h.insertParameter (hI.setParameterText ho (h.parameter_of_get? hp) hq)⟩
  | fillParameters => exact ⟨rfl, h.mapParameters hI.filled⟩
  | addMetadata name v =>
    refine orKeep_preserves (p := fun t => t.registry = s.registry ∧ I.Holds t) hs fun t ht => ?_
    obtain ⟨e, he, hprimitive, rfl⟩ := addMetadata_eq_ok_iff.1 ht
    exact ⟨rfl, h.insertMetadata (hI.addMetadata ho he hprimitive)⟩
  | addMetadataText name text =>
    refine orKeep_preserves (p := fun t => t.registry = s.registry ∧ I.Holds t) hs fun t ht => ?_
    obtain ⟨e, v, he, hv, rfl⟩ := Message.addMetadataText_eq_ok_iff.1 ht
    exact ⟨rfl, h.insertMetadata (hI.addMetadataText ho he hv)⟩
  | addColumn name =>
    refine orKeep_preserves (p := fun t => t.registry = s.registry ∧ I.Holds t) hs fun t ht => ?_
    obtain ⟨e, he, rfl⟩ := addColumn_eq_ok_iff.1 ht
    split
    · exact hs
    · exact ⟨rfl, h.insertColumn (hI.addColumn he)⟩
  | setCell name row v =>
    refine orKeep_preserves (p := fun t => t.registry = s.registry ∧ I.Holds t) hs fun t ht => ?_
    obtain ⟨c, d, hc, hd, rfl⟩ := setCell_eq_ok_iff.1 ht
    exact ⟨rfl, h.insertColumn (hI.setCell ho (h.column_of_get? hc) hd)⟩
  | specify =>
    have hbare : I.Holds { s with givenToken := none } := ⟨h.parameters, h.metadata, h.columns⟩
    exact ⟨rfl,
      ((hbare.mapParameters hI.cleared).mapColumns hI.clearedRows).mapParameters hI.filled⟩
  | report =>
    have hpinned : I.Holds (s.withToken s.token) := ⟨h.parameters, h.metadata, h.columns⟩
    exact ⟨rfl, (hpinned.mapParameters hI.freed).mapColumns hI.clearedRows⟩
  | _ => exact ⟨rfl, h.parameters, h.metadata, h.columns⟩

/-- A property that operations keep, and that statements in messages have, holds of every statement
that comes about, and its registry is one of those that it can have. -/
theorem holds_of_reachable {I : PartProperty} {loaded : Registry → Prop}
    {allowed : Operation → Prop}
    (hI : I.Kept allowed)
    (hread : ∀ {lookup j m kind s}, Message.ofJson lookup j = .ok m → (kind, s) ∈ m.statements →
      I.Holds s)
    {s : Statement} (h : Reachable loaded allowed s) : loaded s.registry ∧ I.Holds s := by
  induction h with
  | make verb hr => exact ⟨hr, I.holds_make verb _⟩
  | read hm hs hr => exact ⟨hr, hread hm hs⟩
  | apply o ho _ ih =>
    obtain ⟨hr, hs⟩ := ih
    obtain ⟨hsame, hafter⟩ := holds_apply hI hs ho
    rw [hsame]
    exact ⟨hr, hafter⟩

/-! ## 5. Elements of the registry -/

/-- That a part is the element that the registry has under its name. -/
def placed : PartProperty where
  parameter r name p := r.element name = .ok p.element
  metadata r name m := r.element name = .ok m.element
  column r name c := r.element name = .ok c.element

theorem placed_kept (allowed : Operation → Prop) : placed.Kept allowed where
  addParameter _ he := he
  addParameterText _ he _ := he
  setParameter _ hp hq := by
    obtain ⟨-, -, rfl⟩ := Parameter.assign_eq_ok_iff.1 hq
    exact hp
  setParameterText _ hp hq := by
    obtain ⟨o, -, -, rfl⟩ := Parameter.assignText_eq_ok_iff.1 hq
    exact hp
  filled {r name p} hp := by
    change r.element name = .ok p.filled.element
    rw [p.element_filled]
    exact hp
  cleared hp := hp
  freed hp := hp
  addMetadata _ he _ := he
  addMetadataText _ he _ := he
  addColumn he := he
  setCell {r name row v c d} _ hc hd := by
    change r.element name = .ok d.element
    rw [Column.element_of_set hd]
    exact hc
  clearedRows hc := hc

theorem placed_of_isRead {kind : MessageKind} {n : Nat} {s : Statement} (h : s.IsRead kind n) :
    placed.Holds s :=
  ⟨fun e he => (h.parameters e he).1, fun e he => (h.metadata e he).1,
    fun e he => (h.columns e he).1⟩

/-- The parts of every statement that comes about are elements of its registry. -/
theorem placed_of_reachable {loaded : Registry → Prop} {allowed : Operation → Prop} {s : Statement}
    (h : Reachable loaded allowed s) : loaded s.registry ∧ placed.Holds s :=
  holds_of_reachable (placed_kept allowed) (fun {lookup j m kind s} hm hs => by
    obtain ⟨n, hread, -⟩ := Message.isRead_ofJson lookup j m hm (kind, s) hs
    exact placed_of_isRead hread) h

/-- Where a registry has its elements under their names, parts stand under their names, too. -/
theorem name_of_placed {s : Statement} (h : placed.Holds s)
    (hnamed : Registry.Named s.registry.elements) :
    ∀ e ∈ s.parameters.entries, e.2.name = e.1 :=
  fun e he => Registry.name_of_element hnamed (h.parameters e he)

/-! ## 6. Parts that texts say -/

/-- Whether an operation has what parameters admit, what they hold, and metadata from texts. -/
def Operation.IsText : Operation → Prop
  | addParameter _ _ | setParameter _ _ | addMetadata _ _ => False
  | _ => True

/-- That what a parameter admits and what it holds was read from some text, that it admits what it
holds, and that metadata was read from some text. -/
def fromTexts : PartProperty where
  parameter _ _ p := (∃ text, Constraint.read p.primitive text = .ok p.constraint)
    ∧ ∀ v ∈ p.value, (∃ text, Value.read p.primitive text = .ok v) ∧ p.constraint.metBy v = true
  metadata _ _ m := m.IsRead
  column _ _ _ := True

theorem fromTexts_kept : fromTexts.Kept Operation.IsText where
  addParameter ho := ho.elim
  addParameterText _ _ hc := ⟨⟨_, hc⟩, fun _ hv => (by cases hv)⟩
  setParameter ho := ho.elim
  setParameterText _ hp hq := by
    obtain ⟨o, ho, hmet, rfl⟩ := Parameter.assignText_eq_ok_iff.1 hq
    refine ⟨hp.1, fun v hv => ?_⟩
    cases hv
    exact ⟨⟨_, (Value.readOptional_eq_some_iff.1 ho).2⟩, hmet v rfl⟩
  filled {r name p} hp := by
    rw [Parameter.filled]
    split
    · exact hp
    · -- The only value that is admitted stands in the constraint, so it was read with it.
      refine ⟨hp.1, fun v hv => ?_⟩
      obtain ⟨text, htext⟩ := hp.1
      obtain ⟨hmem, hmet⟩ := Constraint.metBy_of_singleValue? htext hv
      exact ⟨Constraint.read_of_mem_values htext v hmem, hmet⟩
  cleared hp := ⟨hp.1, fun _ hv => (by cases hv)⟩
  freed {r name p} hp :=
    ⟨⟨absent, Message.read_absent p.primitive⟩, fun v hv => ⟨(hp.2 v hv).1, rfl⟩⟩
  addMetadata ho := ho.elim
  addMetadataText _ _ hv := ⟨_, hv⟩
  addColumn _ := trivial
  setCell _ _ _ := trivial
  clearedRows _ := trivial

theorem fromTexts_of_isRead {kind : MessageKind} {n : Nat} {s : Statement} (h : s.IsRead kind n) :
    fromTexts.Holds s := by
  refine ⟨fun e he => ?_, fun e he => (h.metadata e he).2, fun _ _ => trivial⟩
  have hread := (h.parameters e he).2
  rw [ParameterIsRead] at hread
  -- Parameters of offers have no values, those of requests no constraints.
  split at hread
  · refine ⟨hread.2, fun v hv => ?_⟩
    rw [hread.1] at hv
    cases hv
  · obtain ⟨hfree, text, htext⟩ := hread
    refine ⟨⟨absent, ?_⟩, fun v hv => ?_⟩
    · rw [hfree]
      exact Message.read_absent _
    · rw [hfree]
      rw [Option.mem_def.1 hv] at htext
      exact ⟨⟨text, (Value.readOptional_eq_some_iff.1 htext).2⟩, rfl⟩

/-- What the parameters of a statement that comes about from texts admit and hold was read, and they
admit what they hold. -/
theorem fromTexts_of_reachable {loaded : Registry → Prop} {s : Statement}
    (h : Reachable loaded Operation.IsText s) : fromTexts.Holds s :=
  (holds_of_reachable fromTexts_kept (fun {lookup j m kind s} hm hs => by
    obtain ⟨n, hread, -⟩ := Message.isRead_ofJson lookup j m hm (kind, s) hs
    exact fromTexts_of_isRead hread) h).2

end Statement

end Measurement
