/-
Statements with the same parts, in whatever order these were added.

What a statement is hashed as depends on its parts under their names alone, so
statements that are alike (`Alike`) have one schema, and one content if also
their scopes and exports agree. Every operation keeps statements alike
(`Alike.apply`): what it does depends on the registry and the parts.

An addition writes one part, which its registry and its own texts decide, or it
fails (`exists_put`). Parts under different names can be written in either order
(`alike_put_comm`), and so additions can be made in any order (`alike_run_perm`).
Labels, links, tokens, scopes and exports can be set anywhere in between
(`alike_run_additions`).
-/
import Measurement.Proofs.Statement.Acceptance
import Mathlib.Data.List.Nodup

set_option autoImplicit false

namespace Measurement

/-! ## 1. Tables with the same entries -/

namespace Table

variable {α β : Type} {t u : Table α}

/-- Tables with the same entries under their names have the same rows. -/
theorem perm_of_get? (h : ∀ name, t.get? name = u.get? name) : t.entries.Perm u.entries := by
  refine (List.perm_ext_iff_of_nodup (List.Nodup.of_map _ t.nodup) (List.Nodup.of_map _ u.nodup)).2
    fun e => ⟨fun he => ?_, fun he => ?_⟩
  · rw [← Prod.eta e]
    exact mem_of_get? (by rw [← h]; exact get?_of_mem he)
  · rw [← Prod.eta e]
    exact mem_of_get? (by rw [h]; exact get?_of_mem he)

theorem get?_insert_congr (h : ∀ name, t.get? name = u.get? name) (name : String) (a : α) :
    ∀ other, (t.insert name a).get? other = (u.insert name a).get? other := by
  intro other
  rw [get?_insert, get?_insert, h]

theorem get?_map_congr (h : ∀ name, t.get? name = u.get? name) (f : α → β) :
    ∀ other, (t.map f).get? other = (u.map f).get? other := by
  intro other
  rw [get?_map, get?_map, h]

theorem get?_insert_comm (t : Table α) {name other : String} (hne : name ≠ other) (a b : α) :
    ∀ third, ((t.insert name a).insert other b).get? third
      = ((t.insert other b).insert name a).get? third := by
  intro third
  simp only [get?_insert]
  by_cases hname : third = name
  · have hother : third ≠ other := hname ▸ hne
    rw [if_neg hother, if_pos hname, if_pos hname]
  · rw [if_neg hname, if_neg hname]

end Table

namespace Statement

/-! ## 2. Statements that are alike -/

/-- Whether two statements have one verb, one registry, and the same parts under the same names. -/
structure Alike (s t : Statement) : Prop where
  verb : s.verb = t.verb
  registry : s.registry = t.registry
  parameters : ∀ name, s.parameters.get? name = t.parameters.get? name
  metadata : ∀ name, s.metadata.get? name = t.metadata.get? name
  columns : ∀ name, s.columns.get? name = t.columns.get? name

namespace Alike

variable {s t u : Statement}

theorem refl (s : Statement) : s.Alike s := ⟨rfl, rfl, fun _ => rfl, fun _ => rfl, fun _ => rfl⟩

theorem symm (h : s.Alike t) : t.Alike s :=
  ⟨h.verb.symm, h.registry.symm, fun n => (h.parameters n).symm, fun n => (h.metadata n).symm,
    fun n => (h.columns n).symm⟩

theorem trans (h : s.Alike t) (k : t.Alike u) : s.Alike u :=
  ⟨h.verb.trans k.verb, h.registry.trans k.registry,
    fun n => (h.parameters n).trans (k.parameters n), fun n => (h.metadata n).trans (k.metadata n),
    fun n => (h.columns n).trans (k.columns n)⟩

theorem sameSchema (h : s.Alike t) : s.SameSchema t where
  registry := congrArg Registry.uri h.registry
  parameters := (Table.perm_of_get? h.parameters).map _
  columns := (Table.perm_of_get? h.columns).map _

theorem schemaDigest_eq (h : s.Alike t) : s.schemaDigest = t.schemaDigest := by
  rw [schemaDigest, schemaDigest, h.sameSchema.schemaLines_eq]

theorem contentDigest_eq (h : s.Alike t) (hscope : s.scope = t.scope)
    (hexport : s.exportUri = t.exportUri) : s.contentDigest = t.contentDigest := by
  have hsame : s.SameContent t :=
    { verb := h.verb
      scope := congrArg Scope.text hscope
      parameters := ((Table.perm_of_get? h.parameters).map _).map _
      metadata := ((Table.perm_of_get? h.metadata).map _).map _
      columns := (Table.perm_of_get? h.columns).map _
      exportUri := by rw [hexport] }
  rw [contentDigest, contentDigest, hsame.contentLines_eq]

end Alike

/-! ## 3. Parts that are written -/

/-- A part of a statement under its name. -/
inductive Part where
  | parameter (name : String) (p : Parameter)
  | metadata (name : String) (m : Metavalue)
  | column (name : String) (c : Column)

/-- What a part is: a parameter, metadata or a column. -/
inductive PartKind where
  | parameter
  | metadata
  | column
deriving DecidableEq

/-- What a part is, and its name. -/
def Part.key : Part → PartKind × String
  | parameter name _ => (.parameter, name)
  | metadata name _ => (.metadata, name)
  | column name _ => (.column, name)

/-- The statement with a part. A column that is there stays as it is. -/
def put (s : Statement) : Part → Statement
  | .parameter name p => { s with parameters := s.parameters.insert name p }
  | .metadata name m => { s with metadata := s.metadata.insert name m }
  | .column name c =>
    { s with
      columns := if s.columns.contains name = true then s.columns else s.columns.insert name c }

theorem registry_put (s : Statement) (a : Part) : (s.put a).registry = s.registry := by
  cases a <;> rfl

/-- A column that is written is found afterwards, unless there was one under its name before. -/
theorem get?_put_column (s : Statement) (name : String) (c : Column) (other : String) :
    (s.put (.column name c)).columns.get? other
      = if other = name then (s.columns.get? name).or (some c) else s.columns.get? other := by
  rw [put]
  cases hname : s.columns.get? name with
  | none =>
    simp only [if_neg (Bool.eq_false_iff.1 ((Table.contains_eq_false_iff _ _).2 hname))]
    exact Table.get?_insert _ _ _ _
  | some d =>
    simp only [Table.contains, hname, Option.isSome_some, if_true]
    split
    · rename_i hother
      rw [hother, hname]
      rfl
    · rfl

theorem Alike.put {s t : Statement} (h : s.Alike t) (a : Part) : (s.put a).Alike (t.put a) := by
  cases a with
  | parameter name p => exact { h with parameters := Table.get?_insert_congr h.parameters name p }
  | metadata name m => exact { h with metadata := Table.get?_insert_congr h.metadata name m }
  | column name c =>
    refine { h with columns := fun other => ?_ }
    rw [get?_put_column, get?_put_column, h.columns name, h.columns other]

/-- Parts under different names, or of different kinds, can be written in either order. -/
theorem alike_put_comm (s : Statement) {a b : Part} (hne : a.key ≠ b.key) :
    ((s.put a).put b).Alike ((s.put b).put a) := by
  have hsame := Alike.refl s
  cases a with
  | parameter name p =>
    cases b with
    | parameter other q =>
      have hname : name ≠ other := fun h => hne (by rw [Part.key, Part.key, h])
      exact { hsame with parameters := Table.get?_insert_comm s.parameters hname p q }
    | _ => exact Alike.refl _
  | metadata name m =>
    cases b with
    | metadata other n =>
      have hname : name ≠ other := fun h => hne (by rw [Part.key, Part.key, h])
      exact { hsame with metadata := Table.get?_insert_comm s.metadata hname m n }
    | _ => exact Alike.refl _
  | column name c =>
    cases b with
    | column other d =>
      have hname : name ≠ other := fun h => hne (by rw [Part.key, Part.key, h])
      refine { hsame with columns := fun third => ?_ }
      simp only [get?_put_column, if_neg hname, if_neg hname.symm]
      by_cases hthird : third = name
      · rw [if_pos hthird, if_neg (hthird ▸ hname), if_pos hthird]
      · rw [if_neg hthird, if_neg hthird]
    | _ => exact Alike.refl _

/-! ## 4. Additions -/

/-- What an operation adds to a statement, and under which name. -/
def Operation.adds : Operation → Option (PartKind × String)
  | addParameter name _ | addParameterText name _ => some (.parameter, name)
  | addMetadata name _ | addMetadataText name _ => some (.metadata, name)
  | addColumn name => some (.column, name)
  | _ => none

/-- Whether an operation adds a part, by its texts and a registry. -/
def Operation.Writes (r : Registry) (o : Operation) (a : Part) : Prop :=
  match o with
  | addParameter name c => ∃ e, r.element name = .ok e ∧ a = .parameter name (.make e c)
  | addParameterText name text => ∃ e c, r.element name = .ok e
      ∧ Constraint.read e.primitive text = .ok c ∧ a = .parameter name (.make e c)
  | addMetadata name v => ∃ e, r.element name = .ok e ∧ v.primitive = e.primitive
      ∧ a = .metadata name ⟨e, v⟩
  | addMetadataText name text => ∃ e v, r.element name = .ok e
      ∧ Value.read e.primitive text = .ok v ∧ a = .metadata name ⟨e, v⟩
  | addColumn name => ∃ e, r.element name = .ok e ∧ a = .column name (.make e)
  | _ => False

section

variable {s : Statement} {o : Operation} {a : Part}

theorem orKeep_of_forall_ne {ε : Type} {x : Except ε Statement} (h : ∀ t, x ≠ .ok t) :
    s.orKeep x = s := by
  cases x with
  | ok t => exact absurd rfl (h t)
  | error e => rfl

theorem key_of_writes {r : Registry} (h : o.Writes r a) : o.adds = some a.key := by
  cases o with
  | addParameter name c | addColumn name =>
    obtain ⟨e, -, rfl⟩ := h
    rfl
  | addMetadata name v =>
    obtain ⟨e, -, -, rfl⟩ := h
    rfl
  | addParameterText name text | addMetadataText name text =>
    obtain ⟨e, x, -, -, rfl⟩ := h
    rfl
  | _ => exact h.elim

/-- An addition writes the part that the registry and its texts decide. -/
theorem apply_of_writes (h : o.Writes s.registry a) : o.apply s = s.put a := by
  cases o with
  | addParameter name c =>
    obtain ⟨e, he, rfl⟩ := h
    rw [Operation.apply, addParameter_eq_ok_iff.2 ⟨e, he, rfl⟩]
    rfl
  | addParameterText name text =>
    obtain ⟨e, c, he, hc, rfl⟩ := h
    rw [Operation.apply, addParameterText_eq_ok_iff.2 ⟨e, c, he, hc, rfl⟩]
    rfl
  | addMetadata name v =>
    obtain ⟨e, he, hv, rfl⟩ := h
    rw [Operation.apply, addMetadata_eq_ok_iff.2 ⟨e, he, hv, rfl⟩]
    rfl
  | addMetadataText name text =>
    obtain ⟨e, v, he, hv, rfl⟩ := h
    rw [Operation.apply, Message.addMetadataText_eq_ok_iff.2 ⟨e, v, he, hv, rfl⟩]
    rfl
  | addColumn name =>
    obtain ⟨e, he, rfl⟩ := h
    rw [Operation.apply, addColumn_eq_ok_iff.2 ⟨e, he, rfl⟩, orKeep, put]
    split <;> rfl
  | _ => exact h.elim

/-- An addition that writes no part fails. -/
theorem apply_of_not_writes (ho : o.adds.isSome = true) (h : ∀ a, ¬ o.Writes s.registry a) :
    o.apply s = s := by
  cases o with
  | addParameter name c =>
    refine orKeep_of_forall_ne fun t ht => ?_
    obtain ⟨e, he, -⟩ := addParameter_eq_ok_iff.1 ht
    exact h _ ⟨e, he, rfl⟩
  | addParameterText name text =>
    refine orKeep_of_forall_ne fun t ht => ?_
    obtain ⟨e, c, he, hc, -⟩ := addParameterText_eq_ok_iff.1 ht
    exact h _ ⟨e, c, he, hc, rfl⟩
  | addMetadata name v =>
    refine orKeep_of_forall_ne fun t ht => ?_
    obtain ⟨e, he, hv, -⟩ := addMetadata_eq_ok_iff.1 ht
    exact h _ ⟨e, he, hv, rfl⟩
  | addMetadataText name text =>
    refine orKeep_of_forall_ne fun t ht => ?_
    obtain ⟨e, v, he, hv, -⟩ := Message.addMetadataText_eq_ok_iff.1 ht
    exact h _ ⟨e, v, he, hv, rfl⟩
  | addColumn name =>
    refine orKeep_of_forall_ne fun t ht => ?_
    obtain ⟨e, he, -⟩ := addColumn_eq_ok_iff.1 ht
    exact h _ ⟨e, he, rfl⟩
  | _ => cases ho

/-- An addition writes one part into every statement with a registry, or none. -/
theorem addition_cases (r : Registry) (ho : o.adds.isSome = true) :
    (∃ a, o.adds = some a.key ∧ ∀ s : Statement, s.registry = r → o.apply s = s.put a)
      ∨ ∀ s : Statement, s.registry = r → o.apply s = s := by
  by_cases hwrites : ∃ a, o.Writes r a
  · obtain ⟨a, ha⟩ := hwrites
    exact .inl ⟨a, key_of_writes ha, fun s hs => apply_of_writes (hs ▸ ha)⟩
  · rw [not_exists] at hwrites
    exact .inr fun s hs => apply_of_not_writes ho (hs ▸ hwrites)

end

/-! ## 5. Operations on statements that are alike -/

section

variable {s t : Statement}

theorem Alike.apply_addition (h : s.Alike t) {o : Operation} (ho : o.adds.isSome = true) :
    (o.apply s).Alike (o.apply t) := by
  obtain ⟨a, -, hput⟩ | hkeep := addition_cases t.registry ho
  · rw [hput s h.registry, hput t rfl]
    exact h.put a
  · rw [hkeep s h.registry, hkeep t rfl]
    exact h

/-- What an operation does depends on the registry and the parts, so it keeps statements alike. -/
theorem Alike.apply (h : s.Alike t) (o : Operation) : (o.apply s).Alike (o.apply t) := by
  cases o with
  | setLabel | setLink | setExport | setToken | setScope | retoken => exact { h with }
  | addParameter | addParameterText | addMetadata | addMetadataText | addColumn =>
    exact h.apply_addition rfl
  | setParameter name v =>
    rw [Operation.apply, Operation.apply, setParameter, setParameter, ← h.parameters name]
    cases s.parameters.get? name with
    | none => exact h
    | some p =>
      cases hassign : p.assign v with
      | error e =>
        simp only [hassign]
        exact h
      | ok q =>
        simp only [hassign]
        exact { h with parameters := Table.get?_insert_congr h.parameters name q }
  | setParameterText name text =>
    rw [Operation.apply, Operation.apply, setParameterText, setParameterText, ← h.parameters name]
    cases s.parameters.get? name with
    | none => exact h
    | some p =>
      cases hassign : p.assignText text with
      | error e =>
        simp only [hassign]
        exact h
      | ok q =>
        simp only [hassign]
        exact { h with parameters := Table.get?_insert_congr h.parameters name q }
  | setCell name row v =>
    rw [Operation.apply, Operation.apply, setCell, setCell, ← h.columns name]
    cases s.columns.get? name with
    | none => exact h
    | some c =>
      cases hset : c.set row v with
      | error e =>
        simp only [hset]
        exact h
      | ok d =>
        simp only [hset]
        exact { h with columns := Table.get?_insert_congr h.columns name d }
  | fillParameters =>
    exact { h with parameters := Table.get?_map_congr h.parameters _ }
  | specify =>
    exact { h with
      parameters := Table.get?_map_congr (Table.get?_map_congr h.parameters _) _
      columns := Table.get?_map_congr h.columns _ }
  | report =>
    exact { h with
      parameters := Table.get?_map_congr h.parameters _
      columns := Table.get?_map_congr h.columns _ }

theorem Alike.run (h : s.Alike t) (os : List Operation) : (s.run os).Alike (t.run os) := by
  induction os generalizing s t with
  | nil => exact h
  | cons o os ih => exact ih (h.apply o)

end

/-! ## 6. Additions in any order -/

/-- Additions under different names, or of different kinds, can be made in either order. -/
theorem alike_apply_comm (s : Statement) {o p : Operation} (ho : o.adds.isSome = true)
    (hp : p.adds.isSome = true) (hne : o.adds ≠ p.adds) :
    (p.apply (o.apply s)).Alike (o.apply (p.apply s)) := by
  obtain ⟨a, ha, hputs⟩ | hkeeps := addition_cases s.registry ho
  · obtain ⟨b, hb, hput⟩ | hkeep := addition_cases s.registry hp
    · have hkeys : a.key ≠ b.key := fun h => hne (by rw [ha, hb, h])
      rw [hputs s rfl, hput s rfl, hput _ (registry_put s a), hputs _ (registry_put s b)]
      exact alike_put_comm s hkeys
    · rw [hkeep s rfl, hputs s rfl, hkeep _ (registry_put s a)]
      exact Alike.refl _
  · obtain ⟨b, -, hput⟩ | hkeep := addition_cases s.registry hp
    · rw [hkeeps s rfl, hput s rfl, hkeeps _ (registry_put s b)]
      exact Alike.refl _
    · rw [hkeep s rfl, hkeeps s rfl, hkeep s rfl]
      exact Alike.refl _

/-- Additions under distinct names can be made in any order. -/
theorem alike_run_perm {os ps : List Operation} (hperm : os.Perm ps)
    (hadds : ∀ o ∈ os, o.adds.isSome = true) (hnames : (os.map Operation.adds).Nodup)
    {s t : Statement} (h : s.Alike t) : (s.run os).Alike (t.run ps) := by
  -- On the permutation. Both rows may start from statements that are merely alike, for a row in
  -- between starts from neither of the two.
  induction hperm generalizing s t with
  | nil => exact h
  | cons o _ ih =>
    rw [List.forall_mem_cons] at hadds
    exact ih hadds.2 (List.nodup_cons.1 hnames).2 (h.apply o)
  | swap o p rest =>
    simp only [List.forall_mem_cons] at hadds
    -- No name is added twice, so the two additions are of different parts.
    have hne : p.adds ≠ o.adds := by
      intro hsame
      rw [List.map_cons, List.map_cons, hsame, List.nodup_cons] at hnames
      exact hnames.1 List.mem_cons_self
    exact ((alike_apply_comm s hadds.1 hadds.2.1 hne).trans ((h.apply o).apply p)).run rest
  | @trans os ps qs hfirst _ ih ih' =>
    have hadds' : ∀ o ∈ ps, o.adds.isSome = true := fun o ho => hadds o (hfirst.mem_iff.2 ho)
    have hnames' : (ps.map Operation.adds).Nodup := (hfirst.map _).nodup_iff.1 hnames
    exact (ih hadds hnames h).trans (ih' hadds' hnames' (Alike.refl t))

/-- Whether an operation writes on the head of a statement, which tells nothing of its parts. -/
def Operation.isHead : Operation → Bool
  | setLabel _ | setLink _ | setExport _ | setToken _ | setScope _ | retoken _ => true
  | _ => false

/-- The head makes no difference to what is added. -/
theorem alike_run_filter (s : Statement) {os : List Operation}
    (h : ∀ o ∈ os, o.adds.isSome = true ∨ o.isHead = true) :
    (s.run os).Alike (s.run (os.filter fun o => o.adds.isSome)) := by
  induction os generalizing s with
  | nil => exact Alike.refl s
  | cons o os ih =>
    rw [List.forall_mem_cons] at h
    rw [List.filter_cons]
    split
    · exact ih _ h.2
    · rename_i hno
      -- What is not an addition leaves all parts as they are, so the rest of the row may as well
      -- start before it.
      have hhead : (o.apply s).Alike s := by
        cases o with
        | setLabel | setLink | setExport | setToken | setScope | retoken =>
          exact ⟨rfl, rfl, fun _ => rfl, fun _ => rfl, fun _ => rfl⟩
        | _ => cases h.1.resolve_left hno
      exact (hhead.run os).trans (ih s h.2)

/-- Statements to which the same parts are added, each under a name of its own, are alike, in
whatever order the parts are added and whatever is written on their heads in between. -/
theorem alike_run_additions (s : Statement) {os ps : List Operation}
    (hos : ∀ o ∈ os, o.adds.isSome = true ∨ o.isHead = true)
    (hps : ∀ o ∈ ps, o.adds.isSome = true ∨ o.isHead = true)
    (hperm : (os.filter fun o => o.adds.isSome).Perm (ps.filter fun o => o.adds.isSome))
    (hnames : (os.filterMap Operation.adds).Nodup) : (s.run os).Alike (s.run ps) := by
  -- The names that a row adds are those that its additions add.
  have hdistinct : ((os.filter fun o => o.adds.isSome).map Operation.adds).Nodup := by
    have hmap := List.filter_map (p := Option.isSome) (f := Operation.adds) (l := os)
    rw [← List.map_filterMap_some_eq_filter_map_isSome] at hmap
    exact hmap ▸ hnames.map fun _ _ => Option.some.inj
  have hadditions := alike_run_perm hperm (fun o ho => (List.mem_filter.1 ho).2) hdistinct
    (Alike.refl s)
  exact (alike_run_filter s hos).trans (hadditions.trans (alike_run_filter s hps).symm)

end Statement

end Measurement
