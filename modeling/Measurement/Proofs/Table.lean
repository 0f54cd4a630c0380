/-
What is found in a table after it was changed.

`Measurement.Table` says what an insertion and a change of every entry do to a
look-up. Here are what a look-up says about names and entries, and what
becomes of entries that are left out or written again. The jobs of a scheduler
are such a table, and their fate is told by look-ups alone.
-/
import Measurement.Table

set_option autoImplicit false

namespace Measurement

/-! ## 1. Rows under names -/

theorem entryUnder?_eq_none_iff {α : Type} (name : String) (es : List (String × α)) :
    entryUnder? name es = none ↔ name ∉ es.map (·.1) := by
  induction es with
  | nil => simp [entryUnder?]
  | cons e r ih =>
    by_cases h : e.1 = name
    · simp [entryUnder?, h]
    · have h' : ¬ name = e.1 := fun he => h he.symm
      rw [entryUnder?, if_neg h, ih, List.map_cons, List.mem_cons]
      simp [h']

theorem mem_putEntry {α : Type} {name : String} {a : α} {es : List (String × α)} {e : String × α}
    (h : e ∈ putEntry name a es) : e = (name, a) ∨ e ∈ es := by
  induction es with
  | nil => exact Or.inl (List.mem_singleton.1 h)
  | cons e' r ih =>
    rw [putEntry] at h
    split at h
    · exact (List.mem_cons.1 h).imp_right (List.mem_cons_of_mem e')
    · obtain rfl | h := List.mem_cons.1 h
      · exact Or.inr List.mem_cons_self
      · exact (ih h).imp_right (List.mem_cons_of_mem e')

theorem putEntry_of_not_mem {α : Type} {name : String} (a : α) {es : List (String × α)}
    (h : name ∉ es.map (·.1)) : putEntry name a es = es ++ [(name, a)] := by
  induction es with
  | nil => rfl
  | cons e r ih =>
    rw [List.map_cons, List.mem_cons, not_or] at h
    rw [putEntry, if_neg (Ne.symm h.1), ih h.2]
    rfl

theorem putEntry_putEntry {α : Type} (name : String) (a b : α) (es : List (String × α)) :
    putEntry name b (putEntry name a es) = putEntry name b es := by
  induction es with
  | nil => simp [putEntry]
  | cons e r ih =>
    by_cases he : e.1 = name
    · rw [putEntry, if_pos he, putEntry, if_pos rfl, putEntry, if_pos he]
    · rw [putEntry, if_neg he, putEntry, if_neg he, putEntry, if_neg he, ih]

theorem putEntry_of_entryUnder? {α : Type} {name : String} {a : α} {es : List (String × α)}
    (h : entryUnder? name es = some a) : putEntry name a es = es := by
  induction es with
  | nil => cases h
  | cons e r ih =>
    by_cases he : e.1 = name
    · rw [entryUnder?, if_pos he] at h
      obtain rfl : e.2 = a := Option.some.inj h
      rw [putEntry, if_pos he, ← he]
    · rw [entryUnder?, if_neg he] at h
      rw [putEntry, if_neg he, ih h]

theorem map_putEntry {α β : Type} (f : α → β) (name : String) (a : α) (es : List (String × α)) :
    (putEntry name a es).map (fun e => (e.1, f e.2))
      = putEntry name (f a) (es.map fun e => (e.1, f e.2)) := by
  induction es with
  | nil => rfl
  | cons e r ih =>
    by_cases he : e.1 = name
    · rw [putEntry, if_pos he, List.map_cons, List.map_cons, putEntry, if_pos he]
    · rw [putEntry, if_neg he, List.map_cons, ih, List.map_cons, putEntry, if_neg he]

/-- Rows that are left out by their entry alone. Names occur once, so no row behind the one that is
left out can take its place. -/
theorem entryUnder?_filter {α : Type} (p : α → Bool) (name : String) {es : List (String × α)}
    (h : (es.map (·.1)).Nodup) :
    entryUnder? name (es.filter fun e => p e.2) = (entryUnder? name es).filter p := by
  induction es with
  | nil => rfl
  | cons e r ih =>
    rw [List.map_cons, List.nodup_cons] at h
    by_cases he : e.1 = name
    · have hr : entryUnder? name r = none := by
        rw [entryUnder?_eq_none_iff, ← he]
        exact h.1
      cases hp : p e.2
      · simp [entryUnder?, he, hp, ih h.2, hr, Option.filter]
      · simp [entryUnder?, he, hp, Option.filter]
    · cases hp : p e.2 <;> simp [entryUnder?, he, hp, ih h.2]

/-- Names occur once, so a row is found under its name. -/
theorem entryUnder?_of_mem {α : Type} {e : String × α} {es : List (String × α)}
    (h : (es.map (·.1)).Nodup) (he : e ∈ es) : entryUnder? e.1 es = some e.2 := by
  induction es with
  | nil => cases he
  | cons f r ih =>
    rw [List.map_cons, List.nodup_cons] at h
    rcases List.mem_cons.1 he with rfl | hr
    · rw [entryUnder?, if_pos rfl]
    · have hne : f.1 ≠ e.1 := fun hname => h.1 (hname ▸ List.mem_map_of_mem hr)
      rw [entryUnder?, if_neg hne, ih h.2 hr]

theorem mem_of_entryUnder? {α : Type} {name : String} {a : α} {es : List (String × α)}
    (h : entryUnder? name es = some a) : (name, a) ∈ es := by
  induction es with
  | nil => cases h
  | cons e r ih =>
    rw [entryUnder?] at h
    split at h
    · rename_i he
      obtain rfl : e.2 = a := Option.some.inj h
      rw [← he]
      exact List.mem_cons_self
    · exact List.mem_cons_of_mem e (ih h)

theorem entryUnder?_append {α : Type} (name : String) (es fs : List (String × α)) :
    entryUnder? name (es ++ fs) = (entryUnder? name es).or (entryUnder? name fs) := by
  induction es with
  | nil => rfl
  | cons e r ih =>
    rw [List.cons_append, entryUnder?, entryUnder?, ih]
    split <;> rfl

/-! ## 2. Tables -/

namespace Table

variable {α β : Type}

@[simp] theorem get?_empty (name : String) : (empty : Table α).get? name = none := rfl

theorem get?_insert_self (t : Table α) (name : String) (a : α) :
    (t.insert name a).get? name = some a := by
  rw [get?_insert, if_pos rfl]

@[simp] theorem get?_filter (p : α → Bool) (t : Table α) (name : String) :
    (t.filter p).get? name = (t.get? name).filter p :=
  entryUnder?_filter p name t.nodup

/-- A new name goes to the end of a table. -/
theorem entries_insert (t : Table α) {name : String} (a : α) (h : t.get? name = none) :
    (t.insert name a).entries = t.entries ++ [(name, a)] :=
  putEntry_of_not_mem a ((entryUnder?_eq_none_iff name t.entries).1 h)

theorem insert_insert (t : Table α) (name : String) (a b : α) :
    (t.insert name a).insert name b = t.insert name b :=
  mk.congr_simp _ _ (putEntry_putEntry name a b t.entries) _

theorem insert_of_get? {t : Table α} {name : String} {a : α} (h : t.get? name = some a) :
    t.insert name a = t :=
  mk.congr_simp _ _ (putEntry_of_entryUnder? h) _

theorem map_insert (f : α → β) (t : Table α) (name : String) (a : α) :
    (t.insert name a).map f = (t.map f).insert name (f a) :=
  mk.congr_simp _ _ (map_putEntry f name a t.entries) _

theorem contains_eq_false_iff (t : Table α) (name : String) :
    t.contains name = false ↔ t.get? name = none := by
  rw [contains, Option.isSome_eq_false_iff, Option.isNone_iff_eq_none]

theorem get?_of_mem {t : Table α} {e : String × α} (h : e ∈ t.entries) : t.get? e.1 = some e.2 :=
  entryUnder?_of_mem t.nodup h

theorem mem_of_get? {t : Table α} {name : String} {a : α} (h : t.get? name = some a) :
    (name, a) ∈ t.entries := mem_of_entryUnder? h

theorem mem_insert {t : Table α} {name : String} {a : α} {e : String × α}
    (h : e ∈ (t.insert name a).entries) : e = (name, a) ∨ e ∈ t.entries := mem_putEntry h

theorem mem_names_iff {t : Table α} {name : String} :
    name ∈ t.names ↔ ∃ a, t.get? name = some a := by
  constructor
  · intro h
    obtain ⟨e, he, rfl⟩ := List.mem_map.1 h
    exact ⟨e.2, get?_of_mem he⟩
  · rintro ⟨a, ha⟩
    exact List.mem_map.2 ⟨(name, a), mem_of_get? ha, rfl⟩

theorem contains_of_mem {t : Table α} {name : String} (h : name ∈ t.names) :
    t.contains name = true := by
  obtain ⟨a, ha⟩ := mem_names_iff.1 h
  rw [contains, ha]
  rfl

theorem ext_of_entries {s t : Table α} (h : s.entries = t.entries) : s = t := by
  cases s
  cases t
  simp only at h
  subst h
  rfl

theorem map_congr {f g : α → β} {t : Table α} (h : ∀ a ∈ t.values, f a = g a) :
    t.map f = t.map g := by
  refine ext_of_entries (List.map_congr_left fun e he => ?_)
  rw [h e.2 (List.mem_map_of_mem he)]

theorem map_of_forall {f : α → α} {t : Table α} (h : ∀ a ∈ t.values, f a = a) : t.map f = t := by
  rw [map_congr (g := id) h]
  exact ext_of_entries (List.map_id t.entries)

theorem map_map {γ : Type} (f : α → β) (g : β → γ) (t : Table α) :
    (t.map f).map g = t.map fun a => g (f a) :=
  ext_of_entries List.map_map

/-- Other entries under the names of a table, one for each of its own. -/
theorem withValues_map {γ : Type} (f : α → γ) (g : α → β) (t : Table α) :
    (t.map f).withValues (t.values.map g) = t.map g := by
  have hentries : List.zip (t.map f).names (t.values.map g) = (t.map g).entries := by
    rw [names_map, names, values, List.map_map]
    exact List.zip_map'
  exact ext_of_entries hentries

theorem values_map (f : α → β) (t : Table α) : (t.map f).values = t.values.map f := by
  rw [values, values, map, List.map_map, List.map_map]
  rfl

/-- What is built by inserting rows of distinct names one after the other has these rows at its
end. -/
theorem foldlM_insert {ε σ γ δ : Type} (step : σ → δ → Except ε σ) (state : Table β → σ)
    (row : String × γ → δ) (entry : γ → β) {es : List (String × γ)} (hnodup : (es.map (·.1)).Nodup)
    (hstep : ∀ t, ∀ e ∈ es, t.get? e.1 = none →
      step (state t) (row e) = .ok (state (t.insert e.1 (entry e.2))))
    {t : Table β} (hnew : ∀ e ∈ es, t.get? e.1 = none) :
    ∃ u, (es.map row).foldlM step (state t) = .ok (state u)
      ∧ u.entries = t.entries ++ es.map fun e => (e.1, entry e.2) := by
  induction es generalizing t with
  | nil => exact ⟨t, rfl, (List.append_nil _).symm⟩
  | cons e es ih =>
    rw [List.map_cons, List.nodup_cons] at hnodup
    rw [List.forall_mem_cons] at hnew
    have hrest : ∀ e' ∈ es, (t.insert e.1 (entry e.2)).get? e'.1 = none := by
      intro e' he'
      have hne : e'.1 ≠ e.1 := fun h => hnodup.1 (h ▸ List.mem_map_of_mem he')
      rw [get?_insert, if_neg hne]
      exact hnew.2 e' he'
    obtain ⟨u, hu, hentries⟩ :=
      ih hnodup.2 (fun u e' he' => hstep u e' (List.mem_cons_of_mem e he')) hrest
    refine ⟨u, ?_, ?_⟩
    · rw [List.map_cons, List.foldlM_cons, hstep t e List.mem_cons_self hnew.1]
      exact hu
    · rw [hentries, entries_insert t _ hnew.1, List.map_cons, List.append_assoc]
      rfl

/-- A table is built again from its entries, each changed by a function. -/
theorem foldlM_insert_map {ε σ δ : Type} (step : σ → δ → Except ε σ) (state : Table β → σ)
    (row : String × α → δ) (entry : α → β) {t : Table α}
    (hstep : ∀ u, ∀ e ∈ t.entries, u.get? e.1 = none →
      step (state u) (row e) = .ok (state (u.insert e.1 (entry e.2)))) :
    (t.entries.map row).foldlM step (state empty) = .ok (state (t.map entry)) := by
  obtain ⟨u, hu, hentries⟩ :=
    foldlM_insert step state row entry t.nodup hstep (t := empty) fun e _ => rfl
  rw [hu, ext_of_entries (show u.entries = (t.map entry).entries from hentries)]

end Table

end Measurement
