/-
A request that is complete where it was made is accepted where it arrives.

A request is made of an offer that was read, and its parameters are given values
by their texts, of which some may be refused. Whatever is assigned, only values
change (`blank_assigned`), so the request keeps the schema and the constraints of
the offer, and the offer accepts it if it is complete (`accepts_of_blank`).

A capability does not look at what a request constrains itself to, so it accepts
what is told of a request like the request (`accepts_told_eq_ok_iff`). And what is
told is what comes back, if nothing in the request is lost in its text
(`settled_told`).
-/
import Measurement.Proofs.Message.Travel

set_option autoImplicit false

namespace Measurement

/-! ## 1. Requests that are made of an offer -/

namespace Statement

variable {s t : Statement} {name text : String}

/-- The statement after some assignments of texts to parameters, where those that fail leave it as
it is. -/
def assigned (s : Statement) (assignments : List (String × String)) : Statement :=
  assignments.foldl (fun s a => (Operation.setParameterText a.1 a.2).apply s) s

/-- What is left of a statement without its token, its values and its rows. -/
def blank (s : Statement) : Statement :=
  { s with
    givenToken := none
    parameters := s.parameters.map Parameter.cleared
    columns := s.columns.map Column.cleared }

/-- A value for a parameter changes nothing else. -/
theorem blank_setParameterText (h : s.setParameterText name text = .ok t) : t.blank = s.blank := by
  obtain ⟨p, q, hp, hq, rfl⟩ := setParameterText_eq_ok_iff.1 h
  obtain ⟨o, -, -, rfl⟩ := Parameter.assignText_eq_ok_iff.1 hq
  -- Without its value the parameter is the one that stood under the name before.
  have hfound : (s.parameters.map Parameter.cleared).get? name = some p.cleared := by
    rw [Table.get?_map, hp, Option.map_some]
  have hparameters : (s.parameters.insert name { p with value := o }).map Parameter.cleared
      = s.parameters.map Parameter.cleared := by
    rw [Table.map_insert]
    exact Table.insert_of_get? hfound
  rw [blank, blank]
  simp only [hparameters]

/-- However many values are given and refused, nothing else changes. -/
theorem blank_assigned (s : Statement) (assignments : List (String × String)) :
    (s.assigned assignments).blank = s.blank := by
  induction assignments generalizing s with
  | nil => rfl
  | cons a as ih =>
    have hstep : ((Operation.setParameterText a.1 a.2).apply s).blank = s.blank :=
      orKeep_preserves (p := fun t => t.blank = s.blank) rfl fun t ht => blank_setParameterText ht
    exact (ih _).trans hstep

/-- A request is the offer that it is made of, up to values, rows and the token. -/
theorem blank_ofCapability (c : Capability) :
    (Specification.ofCapability c).statement.blank = c.statement.blank := by
  -- What is filled in is a value, and that is taken away again.
  have hparameters : ((c.statement.parameters.map Parameter.cleared).map Parameter.filled).map
      Parameter.cleared = c.statement.parameters.map Parameter.cleared := by
    rw [Table.map_map, Table.map_map]
    rfl
  have hcolumns : (c.statement.columns.map Column.cleared).map Column.cleared
      = c.statement.columns.map Column.cleared := by
    rw [Table.map_map]
    rfl
  rw [Specification.ofCapability, clearRows, clearParameters, fillParameters, blank, blank]
  simp only [hparameters, hcolumns]

theorem reachable_assigned {loaded : Registry → Prop} (h : Reachable loaded Operation.IsText s)
    (assignments : List (String × String)) :
    Reachable loaded Operation.IsText (s.assigned assignments) := by
  induction assignments generalizing s with
  | nil => exact h
  | cons a as ih => exact ih (.apply (.setParameterText a.1 a.2) trivial h)

/-! ## 2. Complete requests -/

/-- What is left of two statements tells whether they have one schema. -/
theorem SameSchema.of_blank (h : s.blank = t.blank) : s.SameSchema t := by
  have hparameters : (s.parameters.map Parameter.cleared).names
      = (t.parameters.map Parameter.cleared).names := congrArg (fun u => u.parameters.names) h
  have hcolumns : (s.columns.map Column.cleared).names = (t.columns.map Column.cleared).names :=
    congrArg (fun u => u.columns.names) h
  rw [Table.names_map, Table.names_map] at hparameters hcolumns
  exact ⟨congrArg (fun u => u.registry.uri) h, .of_eq hparameters, .of_eq hcolumns⟩

/-- What is left of two statements tells the constraints of their parameters. -/
theorem constraint_of_blank (h : s.blank = t.blank) {p q : Parameter}
    (hp : s.parameters.get? name = some p) (hq : t.parameters.get? name = some q) :
    p.constraint = q.constraint := by
  have hget : (s.parameters.map Parameter.cleared).get? name
      = (t.parameters.map Parameter.cleared).get? name :=
    congrArg (fun u => u.parameters.get? name) h
  rw [Table.get?_map, Table.get?_map, hp, hq] at hget
  have hcleared : p.cleared.constraint = q.cleared.constraint :=
    congrArg Parameter.constraint (Option.some.inj hget)
  exact hcleared

end Statement

namespace Capability

open Statement

variable {c : Capability} {s : Statement}

/-- A capability accepts a complete request that differs from it in values, rows and the token
alone, if the parameters of the request admit what they hold. -/
theorem accepts_of_blank (hblank : s.blank = c.statement.blank) (hplaced : placed.Holds s)
    (hnamed : Registry.Named s.registry.elements) (htexts : fromTexts.Holds s)
    (hvalid : (Specification.mk s).validate = .ok ()) : c.accepts ⟨s⟩ = .ok () := by
  have hcalled := name_of_placed hplaced hnamed
  have hdigest : s.schemaDigest = c.statement.schemaDigest := by
    rw [schemaDigest, schemaDigest, (SameSchema.of_blank hblank).schemaLines_eq]
  refine accepts_eq_ok_iff.2 ⟨hdigest, hvalid, checkValues_eq_ok_iff.2 ?_⟩
  intro p hp v offered hv hoffered
  obtain ⟨e, he, rfl⟩ := List.mem_map.1 hp
  -- The offer is looked up under the name of the element, which is the name in the table.
  rw [hcalled e he] at hoffered
  rw [← constraint_of_blank hblank (Table.get?_of_mem he) hoffered]
  exact ((htexts.parameters e he).2 v hv).2

/-- The constraints of parameters are not looked at when their values are checked. -/
theorem checkValues_freed (c : Capability) (ps : List Parameter) :
    c.checkValues (ps.map Parameter.freed) = c.checkValues ps := by
  induction ps with
  | nil => rfl
  | cons p ps ih =>
    rw [List.map_cons, checkValues, checkValues, ih]
    rfl

/-- A capability accepts what is told of a request exactly if it accepts the request. -/
theorem accepts_told_eq_ok_iff :
    c.accepts ⟨s.told Parameter.freed⟩ = .ok () ↔ c.accepts ⟨s⟩ = .ok () := by
  have hnames : (s.told Parameter.freed).parameters.names = s.parameters.names :=
    Table.names_map _ _
  have hschema : (s.told Parameter.freed).schemaDigest = s.schemaDigest := by
    rw [schemaDigest, schemaDigest, schemaLines, schemaLines, hnames, columnNames_told]
    rfl
  rw [accepts_eq_ok_iff, accepts_eq_ok_iff, Specification.validate_eq_ok_iff,
    Specification.validate_eq_ok_iff, parameters_told, hschema, checkValues_freed,
    List.forall_mem_map]
  rfl

end Capability

/-! ## 3. What arrives -/

/-- What is told of a statement comes back as it is, if its scope was read and its times have no
part below a microsecond. -/
theorem Statement.settled_told {s : Statement} {f : Parameter → Parameter}
    (hf : ∀ p, ∀ v ∈ (f p).values, v ∈ p.values) (hscope : s.scope.IsRead)
    (htimes : ∀ t ∈ s.times, t.nano % 1000 = 0) : (s.told f).settled = s.told f := by
  refine settled_of_whole rfl fun t ht => htimes t ?_
  -- The scope is the same, and values are left out but none are added.
  have hsame : (s.told f).scope = s.scope := Scope.asWritten_of_isRead hscope
  rw [times, hsame, List.mem_append] at ht
  obtain ht | ht := ht
  · exact List.mem_append_left _ ht
  · obtain ⟨v, hv, hmem⟩ := List.mem_flatMap.1 ht
    exact List.mem_append_right _ (List.mem_flatMap.2 ⟨v, mem_values_of_told hf hv, hmem⟩)

/-- What is told of a request tells all values of its parameters. -/
theorem Statement.parameterValue?_told_freed (s : Statement) (name : String) :
    (s.told Parameter.freed).parameterValue? name = s.parameterValue? name := by
  have hget : (s.told Parameter.freed).parameters.get? name
      = (s.parameters.get? name).map Parameter.freed := Table.get?_map _ _ _
  rw [parameterValue?, parameterValue?, hget]
  cases s.parameters.get? name <;> rfl

namespace Message

open Statement

/-- A request of an offer, with values for some parameters by their texts. -/
def requestOf (c : Capability) (assignments : List (String × String)) : Specification :=
  ⟨(Specification.ofCapability c).statement.assigned assignments⟩

theorem blank_requestOf (c : Capability) (assignments : List (String × String)) :
    (requestOf c assignments).statement.blank = c.statement.blank :=
  (blank_assigned _ assignments).trans (blank_ofCapability c)

theorem registry_requestOf (c : Capability) (assignments : List (String × String)) :
    (requestOf c assignments).statement.registry = c.statement.registry :=
  (congrArg Statement.registry (blank_requestOf c assignments) :)

theorem scope_requestOf (c : Capability) (assignments : List (String × String)) :
    (requestOf c assignments).statement.scope = c.statement.scope :=
  (congrArg Statement.scope (blank_requestOf c assignments) :)

/-- Whoever has read an offer, made a request of it and given it values by their texts, of which
some may have been refused, has a request that arrives with its values and that the offer accepts
then, if the request is complete. None of its values may be the text for no value, for that is read
as no value. -/
theorem complete_request_is_accepted {lookup lookup' : RegistryLookup} {j : Json} {m : Message}
    {c : Capability} {assignments : List (String × String)} (hm : ofJson lookup j = .ok m)
    (hc : (.capability, c.statement) ∈ m.statements) (hloaded : c.statement.registry.IsLoaded)
    (hregistry : lookup' c.statement.registry.uri = .ok c.statement.registry)
    (hvalid : (requestOf c assignments).validate = .ok ())
    (hstar : ∀ p ∈ (requestOf c assignments).statement.parameters.values,
      p.value ≠ some (.string absent))
    (htimes : ∀ t ∈ (requestOf c assignments).statement.times, t.nano % 1000 = 0)
    (hback : ∀ v ∈ (requestOf c assignments).statement.values, v.ReadsBack) :
    ∃ r : Specification,
      ofJson lookup' (specification (requestOf c assignments)).toJson = .ok (specification r)
        ∧ (∀ name, r.statement.parameterValue? name
          = (requestOf c assignments).statement.parameterValue? name)
        ∧ c.accepts r = .ok () := by
  have hreachable : Reachable Registry.IsLoaded Operation.IsText
      (requestOf c assignments).statement :=
    reachable_assigned (.apply .specify trivial (.read hm hc hloaded)) assignments
  obtain ⟨hloaded', hplaced⟩ := placed_of_reachable hreachable
  have haccepted : c.accepts (requestOf c assignments) = .ok () :=
    Capability.accepts_of_blank (blank_requestOf c assignments) hplaced hloaded'.named
      (fromTexts_of_reachable hreachable) hvalid
  -- From here on it is about the way: the scope is that of the offer, and that was read.
  have hscope : (requestOf c assignments).statement.scope.IsRead := by
    obtain ⟨n, hread, -⟩ := isRead_ofJson lookup j m hm _ hc
    rw [scope_requestOf]
    exact isRead_scope hread
  have htravels : (requestOf c assignments).statement.Travels lookup' := by
    refine .of_isRead ?_ hscope (fun t ht => htimes t (List.mem_append_left _ ht)) hback
    rw [registry_requestOf]
    exact hregistry
  -- What comes back lacks the constraints, and the offer does not ask for them.
  have harrived := specification_comes_back hreachable htravels hstar
  rw [settled_told Parameter.mem_values_of_freed hscope htimes] at harrived
  exact ⟨_, harrived, parameterValue?_told_freed _,
    Capability.accepts_told_eq_ok_iff.2 haccepted⟩

/-- A request of an offer with a choice, where a value is refused before one of the choice is given,
and a value for a parameter that is not there is refused behind it. -/
theorem chosen_letters_are_accepted :
    let c := Capability.letterOffer ["b"]
    let j := sheet .capability "v" "r"
      [("parameters", .object [("a", .text "x,y"), ("b", .text "*")]),
        ("results", .array [.text "b"])]
    let assignments := [("a", "q"), ("a", "y"), ("c", "z"), ("b", "z")]
    (ofJson lettered j = .ok (.capability c)
        ∧ (.capability, c.statement) ∈ (Message.capability c).statements
        ∧ c.statement.registry.IsLoaded
        ∧ lettered c.statement.registry.uri = .ok c.statement.registry
        ∧ (requestOf c assignments).validate = .ok ()
        ∧ (∀ p ∈ (requestOf c assignments).statement.parameters.values,
          p.value ≠ some (.string absent))
        ∧ (∀ t ∈ (requestOf c assignments).statement.times, t.nano % 1000 = 0)
        ∧ ∀ v ∈ (requestOf c assignments).statement.values, v.ReadsBack)
      ∧ ∃ r : Specification,
        ofJson lettered (specification (requestOf c assignments)).toJson = .ok (specification r)
          ∧ (∀ name, r.statement.parameterValue? name
            = (requestOf c assignments).statement.parameterValue? name)
          ∧ c.accepts r = .ok () := by
  intro c j assignments
  have hm : ofJson lettered j = .ok (.capability c) := rfl
  have hc : (.capability, c.statement) ∈ (Message.capability c).statements :=
    List.mem_singleton.2 rfl
  have hloaded : c.statement.registry.IsLoaded := Capability.isLoaded_letters
  have hregistry : lettered c.statement.registry.uri = .ok c.statement.registry := rfl
  have hvalid : (requestOf c assignments).validate = .ok () := rfl
  have hstar : ∀ p ∈ (requestOf c assignments).statement.parameters.values,
      p.value ≠ some (.string absent) := by decide
  have htimes : ∀ t ∈ (requestOf c assignments).statement.times, t.nano % 1000 = 0 := by decide
  have hback : ∀ v ∈ (requestOf c assignments).statement.values, v.ReadsBack := by decide
  exact ⟨⟨hm, hc, hloaded, hregistry, hvalid, hstar, htimes, hback⟩,
    complete_request_is_accepted hm hc hloaded hregistry hvalid hstar htimes hback⟩

end Message

end Measurement
