/-
How the registry of a document is put together.

Loading a document asks for its includes one after another, each from the store
that the one before has left (`Resolves`), and writes their elements into one
table, a later registry over an earlier one; over these it writes the elements
of the document itself. So a name stands for the last definition in the document
or else in the last include that has it, and names stand in the order in which
they first appear (`Merges`).

A look-up is followed through all this writing by `get?_insert`. Names are
followed by what they would be with more names behind them
(`eraseDups_names_insert`), since a table has each name once.
-/
import Measurement.Proofs.Readers
import Measurement.Proofs.Registry.Stability

set_option autoImplicit false

namespace Measurement

/-! ## 1. Rows written over a table -/

namespace Table

variable {α : Type}

theorem eraseDups_of_nodup {names : List String} (h : names.Nodup) : names.eraseDups = names := by
  induction names with
  | nil => rfl
  | cons name names ih =>
    rw [List.nodup_cons] at h
    have hkeep : names.filter (fun n => !n == name) = names := by
      refine List.filter_eq_self.2 fun n hn => ?_
      simpa using fun he : n = name => h.1 (he ▸ hn)
    rw [List.eraseDups_cons, hkeep, ih h.2]

/-- Writing under a name puts it behind the names that are there, unless it is one of them. -/
theorem eraseDups_names_insert (t : Table α) (name : String) (a : α) (more : List String) :
    ((t.insert name a).names ++ more).eraseDups = (t.names ++ name :: more).eraseDups := by
  rw [names_insert]
  split
  · rename_i hmem
    -- The name is there already, so it is among those that are left out behind it.
    rw [List.eraseDups_append, List.eraseDups_append, List.cons_removeAll]
    simp [hmem]
  · rw [List.append_assoc, List.singleton_append]

theorem eraseDups_names_foldl (rows : List (String × α)) (t : Table α) (more : List String) :
    ((rows.foldl (fun t e => t.insert e.1 e.2) t).names ++ more).eraseDups
      = (t.names ++ (rows.map (·.1) ++ more)).eraseDups := by
  induction rows generalizing t with
  | nil => rfl
  | cons e rows ih =>
    rw [List.foldl_cons, ih, eraseDups_names_insert]
    rfl

/-- Of rows that are written one after the other, the last one under a name is found. -/
theorem get?_foldl (rows : List (String × α)) (t : Table α) (name : String) :
    (rows.foldl (fun t e => t.insert e.1 e.2) t).get? name
      = (entryUnder? name rows.reverse).or (t.get? name) := by
  induction rows generalizing t with
  | nil => rfl
  | cons e rows ih =>
    rw [List.foldl_cons, ih, get?_insert, List.reverse_cons, entryUnder?_append, Option.or_assoc]
    by_cases he : e.1 = name
    · simp [entryUnder?, he]
    · have he' : ¬ name = e.1 := fun h => he h.symm
      simp [entryUnder?, he, he']

/-- A table has each name once, so it does not matter from which end it is looked through. -/
theorem entryUnder?_reverse (t : Table α) (name : String) :
    entryUnder? name t.entries.reverse = t.get? name := by
  have hnodup : (t.entries.reverse.map (·.1)).Nodup := by
    rw [List.map_reverse, (List.reverse_perm _).nodup_iff]
    exact t.nodup
  cases hget : t.get? name with
  | none =>
    rw [entryUnder?_eq_none_iff, List.map_reverse, List.mem_reverse, ← entryUnder?_eq_none_iff]
    exact hget
  | some a => exact entryUnder?_of_mem hnodup (List.mem_reverse.2 (mem_of_get? hget))

end Table

namespace Registries

@[simp] theorem get?_merged (t s : Table Element) (name : String) :
    (merged t s).get? name = (s.get? name).or (t.get? name) := by
  rw [merged, Table.get?_foldl, Table.entryUnder?_reverse]

theorem eraseDups_names_merged (t s : Table Element) (more : List String) :
    ((merged t s).names ++ more).eraseDups = (t.names ++ (s.names ++ more)).eraseDups :=
  Table.eraseDups_names_foldl s.entries t more

/-! ## 2. Includes, one after the other -/

/-- Whether URIs resolve one after the other to some registries, each from the store that the one
before it has left, while the documents with certain URIs are being loaded. -/
inductive Resolves (files : Files) (visiting : List String) :
    Registries → List String → List Registry → Registries → Prop where
  | nil (store : Registries) : Resolves files visiting store [] [] store
  | cons {store mid after : Registries} {uri : String} {l : Loaded} {uris : List String}
      {rs : List Registry} :
    fetch files visiting uri store = (.ok l, mid) → Resolves files visiting mid uris rs after →
      Resolves files visiting store (uri :: uris) (l.registry :: rs) after

/-- The elements of registries, written into one table in their order. -/
def mergedAll (t : Table Element) (rs : List Registry) : Table Element :=
  rs.foldl (fun t r => merged t r.elements) t

theorem fetchAll_eq_ok_iff {files : Files} {visiting uris : List String} {t u : Table Element}
    {store after : Registries} :
    fetchAll files visiting uris t store = (.ok u, after)
      ↔ ∃ rs, Resolves files visiting store uris rs after ∧ mergedAll t rs = u := by
  induction uris generalizing t store with
  | nil =>
    rw [fetchAll]
    constructor
    · intro h
      cases h
      exact ⟨[], .nil after, rfl⟩
    · rintro ⟨rs, hrs, rfl⟩
      cases hrs
      rfl
  | cons uri uris ih =>
    rw [fetchAll]
    constructor
    · intro h
      split at h
      · cases h
      · rename_i l mid hfetch
        obtain ⟨rs, hrs, hu⟩ := ih.1 h
        exact ⟨l.registry :: rs, .cons hfetch hrs, hu⟩
    · rintro ⟨rs, hrs, hu⟩
      cases hrs with
      | cons hfetch hrest =>
        rw [hfetch]
        exact ih.2 ⟨_, hrest, hu⟩

/-- The last registry that has a name wins. -/
theorem get?_mergedAll (t : Table Element) (rs : List Registry) (name : String) :
    (mergedAll t rs).get? name
      = (rs.reverse.findSome? fun r => r.elements.get? name).or (t.get? name) := by
  -- The first registry is written over the table, and the others are written over both.
  induction rs generalizing t with
  | nil => rfl
  | cons r rs ih =>
    have hrest := ih (merged t r.elements)
    rw [mergedAll] at hrest ⊢
    rw [List.foldl_cons, hrest, get?_merged, List.reverse_cons, List.findSome?_append,
      Option.or_assoc]
    simp

theorem eraseDups_names_mergedAll (t : Table Element) (rs : List Registry) (more : List String) :
    ((mergedAll t rs).names ++ more).eraseDups
      = (t.names ++ (rs.flatMap (·.elements.names) ++ more)).eraseDups := by
  induction rs generalizing t with
  | nil => rfl
  | cons r rs ih =>
    have hrest := ih (merged t r.elements)
    rw [mergedAll] at hrest ⊢
    rw [List.foldl_cons, hrest, eraseDups_names_merged, List.flatMap_cons, List.append_assoc]

end Registries

/-! ## 3. The elements of a document -/

namespace Registry

/-- The element that an entry of a document defines. -/
def Entry.element? (origin : String) (e : Entry) : Option Element :=
  (Primitive.ofName? e.primitive).map fun p => ⟨e.name, p, e.description, origin⟩

namespace Document

/-- The definition of a name in a document: the last one. -/
def definition? (d : Document) (name : String) : Option Element :=
  (d.entries.reverse.find? fun e => e.name == name).bind (Entry.element? d.uri)

theorem define_cons_eq_ok_iff {origin : String} {e : Entry} {entries : List Entry}
    {t u : Table Element} :
    define origin (e :: entries) t = .ok u
      ↔ ∃ a, e.element? origin = some a ∧ define origin entries (t.insert e.name a) = .ok u := by
  rw [define, Entry.element?]
  cases Primitive.ofName? e.primitive with
  | none =>
    constructor
    · intro h
      cases h
    · rintro ⟨a, ha, -⟩
      cases ha
  | some p =>
    constructor
    · intro h
      exact ⟨_, rfl, h⟩
    · rintro ⟨a, ha, h⟩
      cases ha
      exact h

theorem isSome_element?_of_define {origin : String} {entries : List Entry} {t u : Table Element}
    (h : define origin entries t = .ok u) : ∀ e ∈ entries, (e.element? origin).isSome = true := by
  induction entries generalizing t with
  | nil => exact fun e he => absurd he List.not_mem_nil
  | cons e entries ih =>
    obtain ⟨a, ha, h⟩ := define_cons_eq_ok_iff.1 h
    rw [List.forall_mem_cons, ha]
    exact ⟨rfl, ih h⟩

theorem get?_of_define {origin : String} {entries : List Entry} {t u : Table Element}
    (h : define origin entries t = .ok u) (name : String) :
    u.get? name = ((entries.reverse.find? fun e => e.name == name).bind
      (Entry.element? origin)).or (t.get? name) := by
  induction entries generalizing t with
  | nil =>
    cases h
    rfl
  | cons e entries ih =>
    obtain ⟨a, ha, h⟩ := define_cons_eq_ok_iff.1 h
    rw [ih h, Table.get?_insert, List.reverse_cons, List.find?_append]
    cases hlater : entries.reverse.find? fun e => e.name == name with
    | some e' =>
      -- A later entry defines the name, and every entry defines something.
      have hmem : e' ∈ entries := List.mem_reverse.1 (List.mem_of_find?_eq_some hlater)
      obtain ⟨a', ha'⟩ := Option.isSome_iff_exists.1 (isSome_element?_of_define h e' hmem)
      simp [ha']
    | none =>
      by_cases he : e.name = name
      · simp [he, ha]
      · have he' : ¬ name = e.name := fun h => he h.symm
        simp [he, he']

theorem eraseDups_names_define {origin : String} {entries : List Entry} {t u : Table Element}
    (h : define origin entries t = .ok u) :
    u.names.eraseDups = (t.names ++ entries.map (·.name)).eraseDups := by
  induction entries generalizing t with
  | nil =>
    cases h
    rw [List.map_nil, List.append_nil]
  | cons e entries ih =>
    obtain ⟨a, ha, h⟩ := define_cons_eq_ok_iff.1 h
    rw [ih h, Table.eraseDups_names_insert, List.map_cons]

end Document

/-! ## 4. The registry of a document -/

/-- Whether a registry is that of a document whose includes resolved to some registries. -/
structure Merges (d : Document) (included : List Registry) (r : Registry) : Prop where
  uri : r.uri = d.uri
  revision : r.revision = d.revision
  /-- A name stands for its last definition in the document, or else for what it stands for in the
  last include that has it, and an included element is the one that the include has. -/
  element : ∀ name, r.element name =
    match (d.definition? name).or (included.reverse.findSome? fun i => i.elements.get? name) with
    | some e => .ok e
    | none => .error (.unknownElement name d.uri)
  /-- Each name stands where it first appeared. -/
  names : r.elements.names
    = (included.flatMap (·.elements.names) ++ d.entries.map (·.name)).eraseDups

theorem merges_registry {d : Document} {included : List Registry} {r : Registry}
    (h : d.registry (Registries.mergedAll .empty included) = .ok r) : Merges d included r := by
  rw [Document.registry] at h
  obtain ⟨u, hu, rfl⟩ := map_eq_ok_iff.1 h
  refine ⟨rfl, rfl, fun name => ?_, ?_⟩
  · have hget := Document.get?_of_define hu name
    rw [Registries.get?_mergedAll, Table.get?_empty, Option.or_none] at hget
    rw [Document.definition?, ← hget]
    rfl
  · have hnames := Document.eraseDups_names_define hu
    rw [Table.eraseDups_of_nodup u.nodup_names] at hnames
    rw [hnames, Registries.eraseDups_names_mergedAll]
    rfl

end Registry

end Measurement
