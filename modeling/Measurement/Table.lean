/-
Tables: finite maps from names to entries that remember the order of insertion.

Parameters, metadata, result columns, the elements of a registry and the
catalog of a component are all tables. Writing under a name that is present
replaces the entry and keeps its place; a new name goes to the end. Order is
shown when a table is written, but it is not part of what the table says, so
two tables agree (`Table.agree`) when they hold agreeing entries under the same
names, in whatever order.

Names occur once. That is a field of the structure, so the lemmas about
look-ups below need no hypothesis on the table.
-/

set_option autoImplicit false

namespace Measurement

/-! ## 1. Rows under names -/

/-- Replaces the entry under a name, or adds it at the end. -/
def putEntry {α : Type} (name : String) (a : α) : List (String × α) → List (String × α)
  | [] => [(name, a)]
  | e :: r => if e.1 = name then (name, a) :: r else e :: putEntry name a r

/-- The entry under a name. -/
def entryUnder? {α : Type} (name : String) : List (String × α) → Option α
  | [] => none
  | e :: r => if e.1 = name then some e.2 else entryUnder? name r

theorem names_putEntry {α : Type} (name : String) (a : α) (es : List (String × α)) :
    (putEntry name a es).map (·.1) =
      if name ∈ es.map (·.1) then es.map (·.1) else es.map (·.1) ++ [name] := by
  induction es with
  | nil => simp [putEntry]
  | cons e r ih =>
    by_cases h : e.1 = name
    · simp [putEntry, h]
    · have h' : ¬ name = e.1 := fun he => h he.symm
      by_cases hm : name ∈ r.map (·.1)
      · simp only [putEntry, h, if_false, List.map_cons, List.mem_cons, h', false_or, hm,
          if_true] at ih ⊢
        rw [ih]
      · simp only [putEntry, h, if_false, List.map_cons, List.mem_cons, h', false_or, hm,
          List.cons_append] at ih ⊢
        rw [ih]

theorem nodup_putEntry {α : Type} (name : String) (a : α) {es : List (String × α)}
    (h : (es.map (·.1)).Nodup) : ((putEntry name a es).map (·.1)).Nodup := by
  rw [names_putEntry]
  split
  · exact h
  · rename_i hn
    rw [List.nodup_append]
    refine ⟨h, by simp, ?_⟩
    intro x hx y hy
    simp only [List.mem_singleton] at hy
    subst hy
    intro he
    subst he
    exact hn hx

theorem entryUnder?_putEntry {α : Type} (name other : String) (a : α)
    (es : List (String × α)) :
    entryUnder? other (putEntry name a es) =
      if other = name then some a else entryUnder? other es := by
  induction es with
  | nil =>
    by_cases h : other = name
    · simp [putEntry, entryUnder?, h]
    · have h' : ¬ name = other := fun he => h he.symm
      simp [putEntry, entryUnder?, h, h']
  | cons e r ih =>
    by_cases he : e.1 = name
    · by_cases h : other = name
      · simp [putEntry, entryUnder?, he, h]
      · have h' : ¬ name = other := fun hn => h hn.symm
        simp [putEntry, entryUnder?, he, h, h']
    · by_cases h : other = name
      · simp [putEntry, entryUnder?, he, h] at ih ⊢
        exact ih
      · simp only [putEntry, entryUnder?, he, h, if_false] at ih ⊢
        rw [ih]

theorem map_fst_zip_sublist {α : Type} (names : List String) (values : List α) :
    ((List.zip names values).map (·.1)).Sublist names := by
  induction names generalizing values with
  | nil => simp
  | cons name r ih =>
    cases values with
    | nil => simp
    | cons v vs => simpa using ih vs

/-! ## 2. Tables -/

/-- Entries under distinct names, in order of insertion. -/
structure Table (α : Type) where
  /-- The entries with their names. -/
  entries : List (String × α)
  /-- No name occurs twice. -/
  nodup : (entries.map (·.1)).Nodup
deriving DecidableEq

namespace Table

variable {α β : Type}

/-- The table without entries. -/
def empty : Table α := ⟨[], by simp⟩

instance : Inhabited (Table α) := ⟨empty⟩

/-- The names, in order of insertion. -/
def names (t : Table α) : List String := t.entries.map (·.1)

/-- The entries, in order of insertion. -/
def values (t : Table α) : List α := t.entries.map (·.2)

/-- The number of entries. -/
def size (t : Table α) : Nat := t.entries.length

/-- The entry under a name. -/
def get? (t : Table α) (name : String) : Option α := entryUnder? name t.entries

/-- Whether there is an entry under a name. -/
def contains (t : Table α) (name : String) : Bool := (t.get? name).isSome

/-- The table with an entry written under a name. -/
def insert (t : Table α) (name : String) (a : α) : Table α :=
  ⟨putEntry name a t.entries, nodup_putEntry name a t.nodup⟩

/-- The table without the entry under a name; the others keep their order. -/
def erase (t : Table α) (name : String) : Table α :=
  ⟨t.entries.filter (fun e => e.1 ≠ name), by
    have h : ((t.entries.filter (fun e => e.1 ≠ name)).map (·.1)).Sublist (t.entries.map (·.1)) :=
      List.filter_sublist.map _
    exact t.nodup.sublist h⟩

/-- The table with every entry changed by a function. -/
def map (f : α → β) (t : Table α) : Table β :=
  ⟨t.entries.map fun e => (e.1, f e.2), by
    have h : (t.entries.map fun e => (e.1, f e.2)).map (·.1) = t.entries.map (·.1) := by
      rw [List.map_map]; rfl
    rw [h]; exact t.nodup⟩

/-- The table with only the entries that a test admits. -/
def filter (p : α → Bool) (t : Table α) : Table α :=
  ⟨t.entries.filter (fun e => p e.2), by
    have h : ((t.entries.filter (fun e => p e.2)).map (·.1)).Sublist (t.entries.map (·.1)) :=
      List.filter_sublist.map _
    exact t.nodup.sublist h⟩

/-- The table with other entries under its names, in their order. Names without an entry are left
out. -/
def withValues (t : Table α) (values : List β) : Table β :=
  ⟨List.zip t.names values, t.nodup.sublist (map_fst_zip_sublist _ _)⟩

/-- The table that rows give when they are inserted one after the other. -/
def ofList (rows : List (String × α)) : Table α :=
  rows.foldl (fun t e => t.insert e.1 e.2) empty

/-- Two tables agree when they have as many entries and each entry of the first agrees with the
entry of the second under its name. -/
def agree (same : α → α → Bool) (s t : Table α) : Bool :=
  s.size == t.size && s.entries.all fun e =>
    match t.get? e.1 with
    | some a => same e.2 a
    | none => false

/-! ## 3. One lemma per operation -/

theorem names_insert (t : Table α) (name : String) (a : α) :
    (t.insert name a).names = if name ∈ t.names then t.names else t.names ++ [name] :=
  names_putEntry name a t.entries

@[simp] theorem names_map (f : α → β) (t : Table α) : (t.map f).names = t.names := by
  simp [names, map, Function.comp_def]

theorem nodup_names (t : Table α) : t.names.Nodup := t.nodup

theorem get?_insert (t : Table α) (name other : String) (a : α) :
    (t.insert name a).get? other = if other = name then some a else t.get? other :=
  entryUnder?_putEntry name other a t.entries

@[simp] theorem get?_map (f : α → β) (t : Table α) (name : String) :
    (t.map f).get? name = (t.get? name).map f := by
  have h : ∀ es : List (String × α),
      entryUnder? name (es.map fun e => (e.1, f e.2)) = (entryUnder? name es).map f := by
    intro es
    induction es with
    | nil => rfl
    | cons e r ih =>
      by_cases he : e.1 = name
      · simp [entryUnder?, he]
      · simp only [List.map_cons, entryUnder?, he, if_false]
        exact ih
  exact h t.entries

end Table

end Measurement
