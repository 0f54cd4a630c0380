/-
The store of registries: each URI is loaded once.

A registry is asked for by URI. The first request reads the file that the URI
names (`get_inner`) and loads the document in it (`load_json_inner`); from then
on the store answers. Loading a document loads the registries it includes before
it, which may be files again, so a document that is included while it is being
loaded is an error. The load ends because every document on the way down has a
URI that was not on the way before, and there are only so many files
(`unvisited`).

A load that fails keeps what it has loaded on the way. Every load makes a new
object, whose serial number tells it from the others.
-/
import Measurement.Registry.Document
import Measurement.Registry.Core
import Measurement.Registry.Files
import Measurement.Text.Split

set_option autoImplicit false

namespace Measurement

open Measurement.Text

/-! ## 1. The store -/

/-- A registry in the store. -/
structure Loaded where
  registry : Registry
  /-- Tells this object from any other that was loaded. -/
  serial : Nat
deriving DecidableEq

instance : Inhabited Loaded := ⟨default, 0⟩

/-- The registries that have been loaded, under the URIs by which they can be had. -/
structure Registries where
  loaded : Table Loaded
  /-- The serial number of the next object. -/
  next : Nat
deriving DecidableEq

namespace Registries

/-- The store with the built-in core registry (`Registries::new`). -/
def initial : Registries := ⟨Table.empty.insert Registry.coreUri ⟨.core, 0⟩, 1⟩

/-- Puts an object under one more URI. -/
def keep (store : Registries) (uri : String) (l : Loaded) : Registries :=
  { store with loaded := store.loaded.insert uri l }

/-- Makes a registry an object of the store, under its own URI. -/
def add (store : Registries) (r : Registry) : Loaded × Registries :=
  (⟨r, store.next⟩, ⟨store.loaded.insert r.uri ⟨r, store.next⟩, store.next + 1⟩)

/-- The path that a URI names, if it names one. -/
def pathOf? (uri : String) : Option String :=
  match dropLead? "file://".toList uri.toList with
  | some path => some (String.ofList path)
  | none => if (cut? "://".toList uri.toList).isSome then none else some uri

/-- The text of the file that a URI names. -/
def textOf? (files : Files) (uri : String) : Option String :=
  (pathOf? uri).bind fun path => (files.read path).toOption

/-! ## 2. How many documents are left -/

/-- Whether a text is a document whose URI is not on the way. -/
def isUnvisited (visiting : List String) (text : String) : Bool :=
  match Registry.Document.read text with
  | .ok d => !visiting.contains d.uri
  | .error _ => false

/-- The number of files whose documents are not on the way. -/
def unvisited (files : Files) (visiting : List String) : Nat :=
  files.texts.values.countP (isUnvisited visiting)

theorem isUnvisited_of_cons {u text : String} {visiting : List String}
    (h : isUnvisited (u :: visiting) text = true) : isUnvisited visiting text = true := by
  unfold isUnvisited at h ⊢
  split
  · rename_i d hd
    simp only [hd, List.contains_cons, Bool.not_or, Bool.and_eq_true] at h
    exact h.2
  · rename_i hd
    simp [hd] at h

theorem countP_lt_of_mem {α : Type} {p q : α → Bool} {a : α} {l : List α} (h : a ∈ l)
    (hp : p a = false) (hq : q a = true) (hpq : ∀ x, p x = true → q x = true) :
    l.countP p < l.countP q := by
  induction l with
  | nil => exact absurd h (by simp)
  | cons b r ih =>
    have hle : r.countP p ≤ r.countP q := List.countP_mono_left fun x _ => hpq x
    rcases List.mem_cons.1 h with rfl | hr
    · simp only [List.countP_cons, hp, hq, if_true]
      simpa using Nat.lt_succ_of_le hle
    · have := ih hr
      have hb : (if p b = true then 1 else 0) ≤ (if q b = true then 1 else 0) := by
        by_cases hpb : p b = true
        · simp [hpb, hpq b hpb]
        · simp [hpb]
      simp only [List.countP_cons]
      omega

theorem mem_values_of_entryUnder? {α : Type} {name : String} {a : α} {es : List (String × α)}
    (h : entryUnder? name es = some a) : a ∈ es.map (·.2) := by
  induction es with
  | nil => simp [entryUnder?] at h
  | cons e r ih =>
    by_cases he : e.1 = name
    · simp only [entryUnder?, he, if_true, Option.some.injEq] at h
      simp [h]
    · simp only [entryUnder?, he, if_false] at h
      simp [ih h]

theorem mem_texts_of_read {files : Files} {path text : String} (h : files.read path = .ok text) :
    text ∈ files.texts.values := by
  unfold Files.read at h
  split at h
  · exact absurd h (by simp)
  · rename_i p _
    cases ht : files.texts.get? p with
    | none => simp [ht] at h
    | some t =>
      simp only [ht, Option.elim_some, Except.ok.injEq] at h
      exact h ▸ mem_values_of_entryUnder? ht
  · exact absurd h (by simp)

theorem mem_texts_of_textOf? {files : Files} {uri text : String}
    (h : textOf? files uri = some text) : text ∈ files.texts.values := by
  obtain ⟨path, _, hp⟩ := Option.bind_eq_some_iff.1 h
  cases hr : files.read path with
  | error e => simp [hr, Except.toOption] at hp
  | ok t =>
    simp only [hr, Except.toOption, Option.some.injEq] at hp
    exact hp ▸ mem_texts_of_read hr

/-- A document on the way is one less to visit. -/
theorem unvisited_lt {files : Files} {visiting : List String} {uri text : String}
    {d : Registry.Document} (ht : textOf? files uri = some text)
    (hd : Registry.Document.read text = .ok d) (hv : d.uri ∉ visiting) :
    unvisited files (d.uri :: visiting) < unvisited files visiting := by
  refine countP_lt_of_mem (mem_texts_of_textOf? ht) ?_ ?_ fun _ => isUnvisited_of_cons
  · simp [isUnvisited, hd]
  · simp [isUnvisited, hd, hv]

/-! ## 3. Loading -/

/-- The table with the elements of another one written over it. -/
def merged (t s : Table Element) : Table Element :=
  s.entries.foldl (fun t e => t.insert e.1 e.2) t

mutual

/-- The registry under a URI, with the URIs of the documents that are being loaded (`get_inner`). -/
def fetch (files : Files) (visiting : List String) (uri : String) (store : Registries) :
    Except ReadFault Loaded × Registries :=
  match store.loaded.get? uri with
  | some l => (.ok l, store)
  | none =>
    match ht : textOf? files uri with
    | none => (.error (.unknownRegistry uri), store)
    | some text =>
      match hd : Registry.Document.read text with
      | .error e => (.error e, store)
      | .ok d =>
        if hv : d.uri ∈ visiting then
          (.error (.invalidRegistry (.includesItself d.uri)), store)
        else
          have _fewer : Prod.Lex Nat.lt Nat.lt
              (unvisited files (d.uri :: visiting), d.includes.length + 1)
              (unvisited files visiting, 0) :=
            Prod.Lex.left _ _ (unvisited_lt ht hd hv)
          match fetchAll files (d.uri :: visiting) d.includes .empty store with
          | (.error e, store) => (.error e, store)
          | (.ok included, store) =>
            match d.registry included with
            | .error e => (.error e, store)
            | .ok r =>
              let (l, store) := store.add r
              -- The object answers to its own URI and to the one that it was asked for by.
              (.ok l, store.keep uri l)
termination_by (unvisited files visiting, 0)
decreasing_by assumption

/-- The elements of the registries under some URIs, merged in their order. -/
def fetchAll (files : Files) (visiting : List String) (uris : List String) (t : Table Element)
    (store : Registries) : Except ReadFault (Table Element) × Registries :=
  match uris with
  | [] => (.ok t, store)
  | uri :: rest =>
    match fetch files visiting uri store with
    | (.error e, store) => (.error e, store)
    -- A later registry wins over an earlier one where they share a name.
    | (.ok l, store) => fetchAll files visiting rest (merged t l.registry.elements) store
termination_by (unvisited files visiting, uris.length + 1)
decreasing_by
  · exact Prod.Lex.right _ (by simp)
  · exact Prod.Lex.right _ (by simp)

end

/-- The registry under a URI, loaded from the file that the URI names if it is not in the store
(`Registries::get`). -/
def get (store : Registries) (files : Files) (uri : String) :
    Except ReadFault Loaded × Registries :=
  fetch files [] uri store

/-- Loads a document from its text (`load_json`). -/
def load (store : Registries) (files : Files) (text : String) :
    Except ReadFault Loaded × Registries :=
  match Registry.Document.read text with
  | .error e => (.error e, store)
  | .ok d =>
    match fetchAll files [d.uri] d.includes .empty store with
    | (.error e, store) => (.error e, store)
    | (.ok included, store) =>
      match d.registry included with
      | .error e => (.error e, store)
      | .ok r =>
        let (l, store) := store.add r
        (.ok l, store)

/-- Loads a document from a file (`load_file`). -/
def loadFile (store : Registries) (files : Files) (path : String) :
    Except ReadFault Loaded × Registries :=
  match files.read path with
  | .error e => (.error (.invalidRegistry (.noFile path e)), store)
  | .ok text => store.load files text

/-- The registry under the URI of the core registry (`Registries::core`). -/
def core (store : Registries) (files : Files) : Except ReadFault Loaded × Registries :=
  store.get files Registry.coreUri

end Registries

end Measurement
