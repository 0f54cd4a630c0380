/-
What a registry is like that was loaded.

A document puts every element under its own name, and what it includes are
elements of other registries, which stand under their names already. So in every
registry that a store gives, the name of an element is the name under which it is
found (`named_of_answers`), whatever documents were loaded before and in whatever
order. The step is one load, with all the loads that it takes on the way down, and
the induction on these is that of `fetch` and `fetchAll`.
-/
import Measurement.Registry.Store
import Measurement.Proofs.Table

set_option autoImplicit false

namespace Measurement

/-! ## 1. Elements under their names -/

namespace Registry

/-- Whether the elements of a table stand under their names. -/
def Named (t : Table Element) : Prop := ∀ e ∈ t.entries, e.2.name = e.1

theorem named_empty : Named .empty := fun _ he => absurd he List.not_mem_nil

theorem Named.insert {t : Table Element} (h : Named t) {name : String} {a : Element}
    (ha : a.name = name) : Named (t.insert name a) := by
  intro e he
  obtain rfl | he := Table.mem_insert he
  · exact ha
  · exact h e he

/-- Elements that stand under their names can be written over others that do. -/
theorem Named.foldl_insert {rows : List (String × Element)} (hrows : ∀ e ∈ rows, e.2.name = e.1)
    {t : Table Element} (h : Named t) : Named (rows.foldl (fun t e => t.insert e.1 e.2) t) := by
  induction rows generalizing t with
  | nil => exact h
  | cons e rows ih =>
    rw [List.forall_mem_cons] at hrows
    exact ih hrows.2 (h.insert hrows.1)

theorem named_core : Named core.elements := by
  refine named_empty.foldl_insert fun e he => ?_
  obtain ⟨row, -, rfl⟩ := List.mem_map.1 he
  rfl

theorem Named.define {origin : String} {entries : List Entry} {t u : Table Element} (h : Named t)
    (hu : Document.define origin entries t = .ok u) : Named u := by
  induction entries generalizing t with
  | nil =>
    cases hu
    exact h
  | cons e entries ih =>
    rw [Document.define] at hu
    split at hu
    · cases hu
    · rename_i p hp
      exact ih (h.insert (a := ⟨e.name, p, e.description, origin⟩) rfl) hu

theorem named_registry {d : Document} {included : Table Element} {r : Registry}
    (h : Named included) (hr : d.registry included = .ok r) : Named r.elements := by
  rw [Document.registry] at hr
  cases hdefine : Document.define d.uri d.entries included with
  | error e =>
    rw [hdefine] at hr
    cases hr
  | ok elements =>
    rw [hdefine] at hr
    cases hr
    exact h.define hdefine

/-- An element that is looked up has the name that it is looked up by. -/
theorem name_of_element {r : Registry} (h : Named r.elements) {name : String} {e : Element}
    (he : r.element name = .ok e) : e.name = name := by
  rw [element] at he
  split at he
  · rename_i a ha
    cases he
    exact h (name, e) (Table.mem_of_get? ha)
  · cases he

end Registry

/-! ## 2. One load -/

namespace Registries

section

variable {files : Files} {visiting : List String} {uri text : String} {store : Registries}

theorem fetch_of_no_text (h : store.loaded.get? uri = none) (htext : textOf? files uri = none) :
    fetch files visiting uri store = (.error (.unknownRegistry uri), store) := by
  rw [fetch, h]
  simp only
  split
  · rfl
  · rename_i hsome
    rw [htext] at hsome
    cases hsome

/-- A URI that is not in the store and names a file stands for the document in the file. -/
theorem fetch_of_text (h : store.loaded.get? uri = none) (htext : textOf? files uri = some text) :
    fetch files visiting uri store =
      match Registry.Document.read text with
      | .error e => (.error e, store)
      | .ok d =>
        if d.uri ∈ visiting then (.error (.invalidRegistry (.includesItself d.uri)), store)
        else
          match fetchAll files (d.uri :: visiting) d.includes .empty store with
          | (.error e, after) => (.error e, after)
          | (.ok included, after) =>
            match d.registry included with
            | .error e => (.error e, after)
            | .ok r => (.ok (after.add r).1, (after.add r).2.keep uri (after.add r).1) := by
  rw [fetch, h]
  simp only
  split
  · rename_i hnone
    rw [htext] at hnone
    cases hnone
  · rename_i found hfound
    obtain rfl : text = found := by
      rw [htext] at hfound
      exact Option.some.inj hfound
    split
    · rename_i hread
      rw [hread]
    · rename_i hread
      rw [hread]
      exact dite_eq_ite

end

/-- Whether the elements of every registry in a store stand under their names. -/
def AllNamed (store : Registries) : Prop :=
  ∀ e ∈ store.loaded.entries, Registry.Named e.2.registry.elements

theorem allNamed_initial : initial.AllNamed := by
  intro e he
  obtain rfl | he := Table.mem_insert he
  · exact Registry.named_core
  · exact absurd he List.not_mem_nil

section

variable {store : Registries}

theorem AllNamed.keep (h : store.AllNamed) (uri : String) {l : Loaded}
    (hl : Registry.Named l.registry.elements) : (store.keep uri l).AllNamed := by
  intro e he
  obtain rfl | he := Table.mem_insert he
  · exact hl
  · exact h e he

theorem AllNamed.add (h : store.AllNamed) {r : Registry} (hr : Registry.Named r.elements) :
    (store.add r).2.AllNamed := by
  have hnumbered : { store with next := store.next + 1 }.AllNamed := h
  exact hnumbered.keep r.uri (l := ⟨r, store.next⟩) hr

/-- Whether a load keeps elements under their names: if those of the store are, then those of the
store after it, and what it gives has a property. -/
def KeepsNames {α : Type} (store : Registries) (after : Except ReadFault α × Registries)
    (p : α → Prop) : Prop :=
  store.AllNamed → after.2.AllNamed ∧ ∀ a, after.1 = .ok a → p a

theorem keepsNames_error {α : Type} (e : ReadFault) (p : α → Prop) :
    KeepsNames store (.error e, store) p :=
  fun h => ⟨h, fun a ha => (by cases ha)⟩

end

/-- What a document gives is named if what it includes is. -/
theorem KeepsNames.add {files : Files} {visiting : List String} {d : Registry.Document}
    {included : Table Element} {r : Registry} {store after : Registries}
    (hincluded : KeepsNames store (fetchAll files visiting d.includes .empty store) Registry.Named)
    (hall : fetchAll files visiting d.includes .empty store = (.ok included, after))
    (hr : d.registry included = .ok r) (h : store.AllNamed) :
    (after.add r).2.AllNamed ∧ Registry.Named r.elements := by
  obtain ⟨hafter, hnamed⟩ := hincluded h
  rw [hall] at hafter hnamed
  have hr := Registry.named_registry (hnamed included rfl) hr
  exact ⟨hafter.add hr, hr⟩

/-- Fetching a registry and merging the registries that a document includes keep elements under
their names. -/
theorem keepsNames_fetch (files : Files) :
    (∀ visiting uri store, KeepsNames store (fetch files visiting uri store)
      fun l => Registry.Named l.registry.elements)
    ∧ ∀ visiting uris t store, Registry.Named t →
      KeepsNames store (fetchAll files visiting uris t store) Registry.Named := by
  apply fetch.mutual_induct files
    (fun visiting uri store => KeepsNames store (fetch files visiting uri store)
      fun l => Registry.Named l.registry.elements)
    (fun visiting uris t store => Registry.Named t →
      KeepsNames store (fetchAll files visiting uris t store) Registry.Named)
  case case1 =>
    -- The registry is in the store.
    intro visiting uri store l hfound
    rw [fetch, hfound]
    intro h
    refine ⟨h, fun a ha => ?_⟩
    cases ha
    exact h (uri, l) (Table.mem_of_get? hfound)
  case case2 =>
    intro visiting uri store hnone hfile
    rw [fetch_of_no_text hnone hfile]
    exact keepsNames_error _ _
  case case3 =>
    intro visiting uri store hnone text htext e hread
    rw [fetch_of_text hnone htext, hread]
    exact keepsNames_error _ _
  case case4 =>
    intro visiting uri store hnone text htext d hread hvisiting
    rw [fetch_of_text hnone htext, hread]
    simp only [hvisiting, if_true]
    exact keepsNames_error _ _
  case case5 =>
    intro visiting uri store hnone text htext d hread hvisiting _ e after hall hincluded h
    rw [fetch_of_text hnone htext, hread]
    simp only [hvisiting, if_false, hall]
    have hafter := (hincluded Registry.named_empty h).1
    rw [hall] at hafter
    exact ⟨hafter, fun a ha => (by cases ha)⟩
  case case6 =>
    intro visiting uri store hnone text htext d hread hvisiting _ included after hall e hr
      hincluded h
    rw [fetch_of_text hnone htext, hread]
    simp only [hvisiting, if_false, hall, hr]
    have hafter := (hincluded Registry.named_empty h).1
    rw [hall] at hafter
    exact ⟨hafter, fun a ha => (by cases ha)⟩
  case case7 =>
    -- A document was read, and the registry that it gives is kept under two URIs.
    intro visiting uri store hnone text htext d hread hvisiting _ included after hall r hr l last
      hadd hincluded h
    rw [fetch_of_text hnone htext, hread]
    simp only [hvisiting, if_false, hall, hr]
    obtain ⟨hadded, hnamed⟩ := (hincluded Registry.named_empty).add hall hr h
    refine ⟨hadded.keep uri hnamed, fun a ha => ?_⟩
    cases ha
    exact hnamed
  case case8 =>
    intro visiting t store ht h
    rw [fetchAll]
    refine ⟨h, fun a ha => ?_⟩
    cases ha
    exact ht
  case case9 =>
    intro visiting t store uri rest e after hfetch hfirst ht h
    rw [fetchAll, hfetch]
    have hafter := (hfirst h).1
    rw [hfetch] at hafter
    exact ⟨hafter, fun a ha => (by cases ha)⟩
  case case10 =>
    intro visiting t store uri rest l after hfetch hfirst hrest ht h
    rw [fetchAll, hfetch]
    obtain ⟨hafter, hnamed⟩ := hfirst h
    rw [hfetch] at hafter hnamed
    exact hrest (ht.foldl_insert (hnamed l rfl)) hafter

/-! ## 3. Every store -/

/-- The stores that come of loading documents, whatever files there are at the time. -/
inductive Reachable : Registries → Prop where
  | initial : Reachable initial
  | get {store : Registries} (files : Files) (uri : String) :
    Reachable store → Reachable (store.get files uri).2
  | load {store : Registries} (files : Files) (text : String) :
    Reachable store → Reachable (store.load files text).2
  | loadFile {store : Registries} (files : Files) (path : String) :
    Reachable store → Reachable (store.loadFile files path).2

/-- Whether a store gives a registry when it is asked for a URI, or loads a document. -/
def Answers (store : Registries) (r : Registry) : Prop :=
  ∃ (files : Files) (l : Loaded), l.registry = r
    ∧ ((∃ uri, (store.get files uri).1 = .ok l) ∨ (∃ text, (store.load files text).1 = .ok l)
      ∨ ∃ path, (store.loadFile files path).1 = .ok l)

section

variable {store : Registries}

theorem keepsNames_get (files : Files) (uri : String) :
    KeepsNames store (store.get files uri) fun l => Registry.Named l.registry.elements :=
  (keepsNames_fetch files).1 [] uri store

theorem keepsNames_load (files : Files) (text : String) :
    KeepsNames store (store.load files text) fun l => Registry.Named l.registry.elements := by
  rw [load]
  cases hread : Registry.Document.read text with
  | error e => exact keepsNames_error _ _
  | ok d =>
    have hincluded := (keepsNames_fetch files).2 [d.uri] d.includes .empty store
      Registry.named_empty
    intro h
    have hkept := (hincluded h).1
    rcases hall : fetchAll files [d.uri] d.includes .empty store with ⟨e | included, after⟩
    · rw [hall] at hkept
      simp only [hall]
      exact ⟨hkept, fun a ha => (by cases ha)⟩
    · rw [hall] at hkept
      cases hr : d.registry included with
      | error e =>
        simp only [hall, hr]
        exact ⟨hkept, fun a ha => (by cases ha)⟩
      | ok r =>
        simp only [hall, hr]
        obtain ⟨hadded, hnamed⟩ := hincluded.add hall hr h
        refine ⟨hadded, fun a ha => ?_⟩
        cases ha
        exact hnamed

theorem keepsNames_loadFile (files : Files) (path : String) :
    KeepsNames store (store.loadFile files path) fun l => Registry.Named l.registry.elements := by
  rw [loadFile]
  cases files.read path with
  | error e => exact keepsNames_error _ _
  | ok text => exact keepsNames_load files text

theorem allNamed_of_reachable (h : Reachable store) : store.AllNamed := by
  induction h with
  | initial => exact allNamed_initial
  | get files uri _ ih => exact (keepsNames_get files uri ih).1
  | load files text _ ih => exact (keepsNames_load files text ih).1
  | loadFile files path _ ih => exact (keepsNames_loadFile files path ih).1

/-- Every registry that a store gives has its elements under their names. -/
theorem named_of_answers {r : Registry} (h : Reachable store) (hr : store.Answers r) :
    Registry.Named r.elements := by
  have hnamed := allNamed_of_reachable h
  obtain ⟨files, l, rfl, ⟨uri, hl⟩ | ⟨text, hl⟩ | ⟨path, hl⟩⟩ := hr
  · exact (keepsNames_get files uri hnamed).2 l hl
  · exact (keepsNames_load files text hnamed).2 l hl
  · exact (keepsNames_loadFile files path hnamed).2 l hl

end

end Registries

/-- Whether a registry is loaded from documents: some store gives it. -/
def Registry.IsLoaded (r : Registry) : Prop :=
  ∃ store : Registries, store.Reachable ∧ store.Answers r

theorem Registry.IsLoaded.named {r : Registry} (h : r.IsLoaded) : Registry.Named r.elements := by
  obtain ⟨store, hstore, hr⟩ := h
  exact Registries.named_of_answers hstore hr

end Measurement
