/-
How deep loads are nested, and how they come back to a document.

A document asks for its includes while it is being loaded, and what they name
may be documents that do so again. Two things are said here about this way down.
It is never longer than there are files: the plain recursion, which knows of no
measure and gives up at some depth, gives what `load` and `get` give as soon as
the depth is greater than the number of files (`loadWithin_eq`). And it fails for
coming back to a document exactly if one of the requests on the way (`Leads`) is
for a URI that is not in the store and names a file with a document that is
still being loaded (`includesItself_iff`).

Both rest on the same fact: a document on the way down has a URI that was not on
the way before, and so there is one document less to visit. The paths under
which a file can be named play no part.
-/
import Measurement.Proofs.Registry.Merging

set_option autoImplicit false

namespace Measurement.Registries

variable {files : Files} {visiting : List String} {uri text w : String} {store : Registries}

/-! ## 1. Texts -/

/-- What comes of asking for something, and the store after it. -/
abbrev Outcome (α : Type) := Except ReadFault α × Registries

/-- What loading a document comes to, told what its includes came to. -/
def ofIncludes (d : Registry.Document) : Outcome (Table Element) → Outcome Loaded
  | (.error e, after) => (.error e, after)
  | (.ok included, after) =>
    match d.registry included with
    | .error e => (.error e, after)
    | .ok r => (.ok (after.add r).1, (after.add r).2)

@[simp] theorem ofIncludes_error (d : Registry.Document) (e : ReadFault) (after : Registries) :
    ofIncludes d (.error e, after) = (.error e, after) := rfl

theorem ofIncludes_ok {d : Registry.Document} {included : Table Element} {r : Registry}
    (h : d.registry included = .ok r) (after : Registries) :
    ofIncludes d (.ok included, after) = (.ok (after.add r).1, (after.add r).2) := by
  rw [ofIncludes, h]

theorem exists_registry_of_ofIncludes {d : Registry.Document} {x : Outcome (Table Element)}
    {l : Loaded} (h : (ofIncludes d x).1 = .ok l) :
    ∃ included mid, x = (.ok included, mid) ∧ d.registry included = .ok l.registry := by
  obtain ⟨e | included, mid⟩ := x
  · cases h
  · rw [ofIncludes] at h
    split at h
    · cases h
    · rename_i r hregistry
      cases h
      exact ⟨included, mid, rfl, hregistry⟩

/-- Loads a document from its text, while the documents with certain URIs are being loaded. -/
def loadText (files : Files) (visiting : List String) (text : String) (store : Registries) :
    Outcome Loaded :=
  match Registry.Document.read text with
  | .error e => (.error e, store)
  | .ok d =>
    if d.uri ∈ visiting then (.error (.invalidRegistry (.includesItself d.uri)), store)
    else ofIncludes d (fetchAll files (d.uri :: visiting) d.includes .empty store)

/-- Makes an object that was loaded answer to the URI that it was asked for by. -/
def keptUnder (uri : String) : Outcome Loaded → Outcome Loaded
  | (.error e, after) => (.error e, after)
  | (.ok l, after) => (.ok l, after.keep uri l)

@[simp] theorem keptUnder_fst (uri : String) (x : Outcome Loaded) : (keptUnder uri x).1 = x.1 := by
  obtain ⟨e | l, after⟩ := x
  · rfl
  · rfl

theorem load_eq_loadText (store : Registries) (files : Files) (text : String) :
    store.load files text = loadText files [] text store := by
  rw [load, loadText]
  cases Registry.Document.read text with
  | error e => rfl
  | ok d => exact (if_neg List.not_mem_nil).symm

theorem fetch_eq_keptUnder (h : store.loaded.get? uri = none)
    (htext : textOf? files uri = some text) :
    fetch files visiting uri store = keptUnder uri (loadText files visiting text store) := by
  rw [fetch_of_text h htext, loadText]
  cases Registry.Document.read text with
  | error e => rfl
  | ok d =>
    dsimp only
    split
    · rfl
    · rcases fetchAll files (d.uri :: visiting) d.includes .empty store with ⟨e | included, after⟩
      · rfl
      · dsimp only [ofIncludes]
        cases d.registry included with
        | error e => rfl
        | ok r => rfl

/-! ## 2. The way down -/

/-- The answer for a URI, told how a text is loaded. -/
def askBy (files : Files) (load : String → Registries → Option (Outcome Loaded)) (uri : String)
    (store : Registries) : Option (Outcome Loaded) :=
  match store.loaded.get? uri with
  | some l => some (.ok l, store)
  | none =>
    match textOf? files uri with
    | none => some (.error (.unknownRegistry uri), store)
    | some text => (load text store).map (keptUnder uri)

/-- The elements of the registries under some URIs, told how a URI is answered. -/
def askAllBy (ask : String → Registries → Option (Outcome Loaded)) :
    List String → Table Element → Registries → Option (Outcome (Table Element))
  | [], t, store => some (.ok t, store)
  | uri :: rest, t, store =>
    match ask uri store with
    | none => none
    | some (.error e, after) => some (.error e, after)
    | some (.ok l, after) => askAllBy ask rest (merged t l.registry.elements) after

/-- Loads a document from its text by plain recursion, which gives up where documents are nested
deeper than a bound. -/
def loadWithin (files : Files) :
    Nat → List String → String → Registries → Option (Outcome Loaded)
  | 0, _, _, _ => none
  | depth + 1, visiting, text, store =>
    match Registry.Document.read text with
    | .error e => some (.error e, store)
    | .ok d =>
      if d.uri ∈ visiting then some (.error (.invalidRegistry (.includesItself d.uri)), store)
      else
        let ask := askBy files (loadWithin files depth (d.uri :: visiting))
        (askAllBy ask d.includes .empty store).map (ofIncludes d)

/-- The answer for a URI within a bound. -/
def getWithin (files : Files) (depth : Nat) (uri : String) (store : Registries) :
    Option (Outcome Loaded) :=
  askBy files (loadWithin files depth []) uri store

theorem askBy_eq {load : String → Registries → Option (Outcome Loaded)}
    (h : ∀ text ∈ files.texts.values, ∀ store,
      load text store = some (loadText files visiting text store))
    (uri : String) (store : Registries) :
    askBy files load uri store = some (fetch files visiting uri store) := by
  rw [askBy]
  cases hget : store.loaded.get? uri with
  | some l => rw [fetch, hget]
  | none =>
    cases htext : textOf? files uri with
    | none => rw [fetch_of_no_text hget htext]
    | some text =>
      dsimp only
      rw [h text (mem_texts_of_textOf? htext), fetch_eq_keptUnder hget htext, Option.map_some]

theorem askAllBy_eq {ask : String → Registries → Option (Outcome Loaded)}
    (h : ∀ uri store, ask uri store = some (fetch files visiting uri store))
    (uris : List String) (t : Table Element) (store : Registries) :
    askAllBy ask uris t store = some (fetchAll files visiting uris t store) := by
  induction uris generalizing t store with
  | nil => rw [askAllBy, fetchAll]
  | cons uri uris ih =>
    rw [askAllBy, h, fetchAll]
    rcases fetch files visiting uri store with ⟨e | l, after⟩
    · rfl
    · exact ih _ _

/-- One document on the way down: if what is below it is within the bound, so is it. -/
theorem loadWithin_succ {depth : Nat}
    (h : ∀ d, Registry.Document.read text = .ok d → d.uri ∉ visiting →
      ∀ t ∈ files.texts.values, ∀ store,
        loadWithin files depth (d.uri :: visiting) t store
          = some (loadText files (d.uri :: visiting) t store)) (store : Registries) :
    loadWithin files (depth + 1) visiting text store
      = some (loadText files visiting text store) := by
  rw [loadWithin, loadText]
  cases hread : Registry.Document.read text with
  | error e => rfl
  | ok d =>
    dsimp only
    split
    · rfl
    · rename_i hvisiting
      rw [askAllBy_eq (askBy_eq (h d hread hvisiting)), Option.map_some]

/-- There are at most as many documents to visit as there are files, and fewer below a document
that is in one of them. -/
theorem unvisited_le_size (files : Files) (visiting : List String) :
    unvisited files visiting ≤ files.texts.size := by
  have hle := List.countP_le_length (p := isUnvisited visiting) (l := files.texts.values)
  rwa [Table.values, List.length_map] at hle

/-- The text of a file is loaded within every bound above the number of documents to visit. -/
theorem loadWithin_eq {depth : Nat} (hdepth : unvisited files visiting < depth)
    (htext : text ∈ files.texts.values) (store : Registries) :
    loadWithin files depth visiting text store = some (loadText files visiting text store) := by
  -- The bound and the number of documents to visit go down together.
  induction depth generalizing visiting text store with
  | zero => omega
  | succ depth ih =>
    refine loadWithin_succ (fun d hread hvisiting t ht store => ih ?_ ht store) store
    have hfewer : unvisited files (d.uri :: visiting) < unvisited files visiting := by
      apply countP_lt_of_mem htext
      · simp [isUnvisited, hread]
      · simp [isUnvisited, hread, hvisiting]
      · exact fun _ => isUnvisited_of_cons
    omega

/-! ## 3. Requests on the way -/

/-- A request for a URI in the course of a load. -/
structure Request where
  /-- The URIs of the documents that are being loaded, the innermost first. -/
  visiting : List String
  uri : String
  /-- The store at the time of the request. -/
  store : Registries

namespace Request

/-- What is given for the URI. -/
def answer (files : Files) (r : Request) : Outcome Loaded :=
  fetch files r.visiting r.uri r.store

/-- Whether the URI is not in the store and names a file with a document that is being loaded. -/
def ComesBackTo (files : Files) (r : Request) (w : String) : Prop :=
  r.store.loaded.get? r.uri = none ∧ w ∈ r.visiting
    ∧ ∃ text d, textOf? files r.uri = some text ∧ Registry.Document.read text = .ok d ∧ d.uri = w

end Request

/-- Whether loading a text comes to a request for one of the includes of its document, all includes
before that one having resolved. -/
def Opens (files : Files) (visiting : List String) (text : String) (store : Registries)
    (r : Request) : Prop :=
  ∃ d before rest included, Registry.Document.read text = .ok d ∧ d.uri ∉ visiting
    ∧ d.includes = before ++ r.uri :: rest ∧ r.visiting = d.uri :: visiting
    ∧ Resolves files r.visiting store before included r.store

/-- Whether a request leads to another one, down through the documents that are loaded for it. -/
inductive Leads (files : Files) : Request → Request → Prop where
  | refl (r : Request) : Leads files r r
  | down {r s t : Request} {text : String} : r.store.loaded.get? r.uri = none →
    textOf? files r.uri = some text → Opens files r.visiting text r.store s → Leads files s t →
      Leads files r t

variable {r s : Request} {e : ReadFault} {after : Registries}

theorem Request.ComesBackTo.answer (h : r.ComesBackTo files w) :
    r.answer files = (.error (.invalidRegistry (.includesItself w)), r.store) := by
  obtain ⟨hget, hvisiting, text, d, htext, hread, rfl⟩ := h
  rw [Request.answer, fetch_of_text hget htext, hread]
  simp only [hvisiting, if_true]

/-- Where an include fails, nothing behind it is looked at. -/
theorem fetchAll_of_resolves {before rest : List String} {included : List Registry}
    {t : Table Element} {mid : Registries}
    (hbefore : Resolves files visiting store before included mid)
    (h : fetch files visiting uri mid = (.error e, after)) :
    fetchAll files visiting (before ++ uri :: rest) t store = (.error e, after) := by
  induction hbefore generalizing t with
  | nil store => rw [List.nil_append, fetchAll, h]
  | cons hfetch _ ih =>
    rw [List.cons_append, fetchAll, hfetch]
    exact ih h

theorem Opens.loadText (h : Opens files visiting text store r)
    (hfail : r.answer files = (.error e, after)) :
    loadText files visiting text store = (.error e, after) := by
  obtain ⟨d, before, rest, included, hread, hvisiting, hincludes, hr, hbefore⟩ := h
  rw [Request.answer, hr] at hfail
  rw [hr] at hbefore
  rw [Registries.loadText, hread]
  simp only [hvisiting, if_false, hincludes, fetchAll_of_resolves hbefore hfail, ofIncludes_error]

/-- A request that fails makes the one fail that led to it, and for the same reason. -/
theorem Leads.answer (h : Leads files r s) (hfail : s.answer files = (.error e, after)) :
    r.answer files = (.error e, after) := by
  induction h with
  | refl r => exact hfail
  | down hget htext hopens _ ih =>
    rw [Request.answer, fetch_eq_keptUnder hget htext, hopens.loadText (ih hfail)]
    rfl

/-! ## 4. Coming back to a document -/

theorem read_ne_includesItself (text w : String) :
    Registry.Document.read text ≠ .error (.invalidRegistry (.includesItself w)) := by
  intro h
  rw [Registry.Document.read] at h
  split at h
  · cases h
  · split at h <;> cases h

theorem define_ne_includesItself {origin : String} {entries : List Registry.Entry}
    {t : Table Element} :
    Registry.Document.define origin entries t ≠ .error (.invalidRegistry (.includesItself w)) := by
  induction entries generalizing t with
  | nil => exact fun h => (by cases h)
  | cons e entries ih =>
    rw [Registry.Document.define]
    split
    · exact fun h => (by cases h)
    · exact ih

theorem registry_ne_includesItself (d : Registry.Document) (t : Table Element) (w : String) :
    d.registry t ≠ .error (.invalidRegistry (.includesItself w)) := by
  intro h
  rw [Registry.Document.registry] at h
  cases hdefine : Registry.Document.define d.uri d.entries t with
  | error e =>
    rw [hdefine] at h
    cases h
    exact define_ne_includesItself hdefine
  | ok u =>
    rw [hdefine] at h
    cases h

/-- A document itself is never the reason for that. -/
theorem includesItself_of_ofIncludes {d : Registry.Document} {x : Outcome (Table Element)}
    (h : (ofIncludes d x).1 = .error (.invalidRegistry (.includesItself w))) :
    x.1 = .error (.invalidRegistry (.includesItself w)) := by
  obtain ⟨e | included, mid⟩ := x
  · cases h
    rfl
  · rw [ofIncludes] at h
    split at h
    · rename_i e hregistry
      cases h
      exact absurd hregistry (registry_ne_includesItself d included w)
    · cases h

/-- A row of includes fails as one of them does, all before that one having resolved. -/
theorem exists_fetch_of_fetchAll {uris : List String} {t : Table Element}
    (h : (fetchAll files visiting uris t store).1 = .error e) :
    ∃ before uri rest included mid, uris = before ++ uri :: rest
      ∧ Resolves files visiting store before included mid
      ∧ (fetch files visiting uri mid).1 = .error e := by
  induction uris generalizing t store with
  | nil =>
    rw [fetchAll] at h
    cases h
  | cons uri uris ih =>
    rw [fetchAll] at h
    split at h
    · rename_i e' mid hfetch
      cases h
      exact ⟨[], uri, uris, [], store, rfl, .nil store, congrArg Prod.fst hfetch⟩
    · rename_i l mid hfetch
      obtain ⟨before, u, rest, included, last, rfl, hbefore, hfail⟩ := ih h
      exact ⟨uri :: before, u, rest, l.registry :: included, last, rfl, .cons hfetch hbefore, hfail⟩

/-- A load comes back to a document with the text itself, or with one of the includes. -/
theorem exists_opens_of_loadText
    (h : (loadText files visiting text store).1 = .error (.invalidRegistry (.includesItself w))) :
    (∃ d, Registry.Document.read text = .ok d ∧ d.uri = w ∧ w ∈ visiting)
      ∨ ∃ r, Opens files visiting text store r
        ∧ (r.answer files).1 = .error (.invalidRegistry (.includesItself w)) := by
  rw [loadText] at h
  split at h
  · rename_i e' hread
    cases h
    exact absurd hread (read_ne_includesItself text w)
  · rename_i d hread
    split at h
    · rename_i hvisiting
      cases h
      exact .inl ⟨d, hread, rfl, hvisiting⟩
    · rename_i hvisiting
      obtain ⟨before, uri, rest, included, mid, hincludes, hbefore, hfail⟩ :=
        exists_fetch_of_fetchAll (includesItself_of_ofIncludes h)
      exact .inr ⟨⟨d.uri :: visiting, uri, mid⟩,
        ⟨d, before, rest, included, hread, hvisiting, hincludes, rfl, hbefore⟩, hfail⟩

/-- Whether a request comes back to a document, itself or by what it leads to. -/
def Request.Returns (files : Files) (r : Request) (w : String) : Prop :=
  ∃ s, Leads files r s ∧ s.ComesBackTo files w

/-- A request fails for coming back to a document exactly if it does come back to it. -/
theorem includesItself_iff :
    (r.answer files).1 = .error (.invalidRegistry (.includesItself w)) ↔ r.Returns files w := by
  constructor
  · intro h
    -- Every document on the way down leaves one less to visit.
    induction hn : unvisited files r.visiting using Nat.strongRecOn generalizing r with
    | ind n ih =>
      subst hn
      cases hget : r.store.loaded.get? r.uri with
      | some l =>
        rw [Request.answer, fetch, hget] at h
        cases h
      | none =>
        cases htext : textOf? files r.uri with
        | none =>
          rw [Request.answer, fetch_of_no_text hget htext] at h
          cases h
        | some text =>
          rw [Request.answer, fetch_eq_keptUnder hget htext, keptUnder_fst] at h
          obtain ⟨d, hread, rfl, hvisiting⟩ | ⟨s, hopens, hfail⟩ := exists_opens_of_loadText h
          · exact ⟨r, .refl r, hget, hvisiting, text, d, htext, hread, rfl⟩
          · obtain ⟨d, -, -, -, hread, hvisiting, -, hs, -⟩ := id hopens
            have hfewer := unvisited_lt htext hread hvisiting
            rw [← hs] at hfewer
            obtain ⟨t, hleads, hback⟩ := ih _ hfewer hfail rfl
            exact ⟨t, .down hget htext hopens hleads, hback⟩
  · rintro ⟨s, hleads, hback⟩
    rw [hleads.answer hback.answer]

/-- A load fails for coming back to a document exactly if one of the requests for its includes comes
back to it. -/
theorem load_includesItself_iff :
    (store.load files text).1 = .error (.invalidRegistry (.includesItself w))
      ↔ ∃ r, Opens files [] text store r ∧ r.Returns files w := by
  rw [load_eq_loadText]
  constructor
  · intro h
    obtain ⟨d, -, -, hvisiting⟩ | ⟨r, hopens, hfail⟩ := exists_opens_of_loadText h
    · exact absurd hvisiting List.not_mem_nil
    · exact ⟨r, hopens, includesItself_iff.1 hfail⟩
  · rintro ⟨r, hopens, s, hleads, hback⟩
    rw [hopens.loadText (hleads.answer hback.answer)]

/-! ## 5. What is loaded -/

/-- A text that is loaded gives what its document merges to. -/
theorem merges_of_loadText {l : Loaded} (h : (loadText files visiting text store).1 = .ok l) :
    ∃ d included mid, Registry.Document.read text = .ok d ∧ d.uri ∉ visiting
      ∧ Resolves files (d.uri :: visiting) store d.includes included mid
      ∧ Registry.Merges d included l.registry := by
  rw [loadText] at h
  split at h
  · cases h
  · rename_i d hread
    split at h
    · cases h
    · rename_i hvisiting
      obtain ⟨t, mid, hall, hregistry⟩ := exists_registry_of_ofIncludes h
      obtain ⟨included, hresolves, rfl⟩ := fetchAll_eq_ok_iff.1 hall
      exact ⟨d, included, mid, hread, hvisiting, hresolves, Registry.merges_registry hregistry⟩

/-- A request is answered from the store or with what a document merges to. -/
theorem merges_of_fetch {l : Loaded} (h : (fetch files visiting uri store).1 = .ok l) :
    store.loaded.get? uri = some l
      ∨ ∃ text d included mid, store.loaded.get? uri = none ∧ textOf? files uri = some text
        ∧ Registry.Document.read text = .ok d ∧ d.uri ∉ visiting
        ∧ Resolves files (d.uri :: visiting) store d.includes included mid
        ∧ Registry.Merges d included l.registry := by
  cases hget : store.loaded.get? uri with
  | some l' =>
    rw [fetch, hget] at h
    cases h
    exact .inl rfl
  | none =>
    cases htext : textOf? files uri with
    | none =>
      rw [fetch_of_no_text hget htext] at h
      cases h
    | some text =>
      rw [fetch_eq_keptUnder hget htext, keptUnder_fst] at h
      obtain ⟨d, included, mid, hread, hvisiting, hresolves, hmerges⟩ := merges_of_loadText h
      exact .inr ⟨text, d, included, mid, rfl, rfl, hread, hvisiting, hresolves, hmerges⟩

theorem map_name_values {t : Table Element} (h : Registry.Named t) :
    t.values.map (·.name) = t.names := by
  rw [Table.values, Table.names, List.map_map]
  exact List.map_congr_left h

/-- Loads end, and merge what is included.

They end for all files and all stores: the plain recursion gives what `load` and `get` give as soon
as it may go deeper than there are files. They fail for coming back to a document exactly if a
request on the way is for a URI that is not in the store and names a file with a document that is
still being loaded. A text that is loaded gives what its document and its includes merge to, as
these resolved one after the other; and so does, whatever documents are being loaded, a URI that is
asked for and is not in the store. The names of the elements are those that they are found by. -/
theorem loads_end_and_merge_includes (files : Files) (store : Registries) :
    (∀ depth, files.texts.size + 1 < depth →
      (∀ text, loadWithin files depth [] text store = some (store.load files text))
        ∧ ∀ uri, getWithin files depth uri store = some (store.get files uri))
    ∧ (∀ w,
      (∀ text, (store.load files text).1 = .error (.invalidRegistry (.includesItself w))
          ↔ ∃ r, Opens files [] text store r ∧ r.Returns files w)
        ∧ ∀ uri, (store.get files uri).1 = .error (.invalidRegistry (.includesItself w))
          ↔ Request.Returns files ⟨[], uri, store⟩ w)
    ∧ (∀ text l, (store.load files text).1 = .ok l →
      ∃ d included mid, Registry.Document.read text = .ok d
        ∧ Resolves files [d.uri] store d.includes included mid
        ∧ Registry.Merges d included l.registry)
    ∧ (∀ uri, store.get files uri = fetch files [] uri store)
    ∧ (∀ visiting uri l, (fetch files visiting uri store).1 = .ok l →
      store.loaded.get? uri = some l
        ∨ ∃ text d included mid, store.loaded.get? uri = none ∧ textOf? files uri = some text
          ∧ Registry.Document.read text = .ok d ∧ d.uri ∉ visiting
          ∧ Resolves files (d.uri :: visiting) store d.includes included mid
          ∧ Registry.Merges d included l.registry)
    ∧ (store.AllNamed → ∀ l,
      ((∃ text, (store.load files text).1 = .ok l) ∨ ∃ uri, (store.get files uri).1 = .ok l) →
      l.registry.elements.values.map (·.name) = l.registry.elements.names) := by
  refine ⟨fun depth hdepth => ⟨fun text => ?_, fun uri => ?_⟩,
    fun w => ⟨fun text => ?_, fun uri => ?_⟩, ?_, fun uri => rfl, ?_, ?_⟩
  · obtain ⟨depth, rfl⟩ : ∃ k, depth = k + 1 := ⟨depth - 1, by omega⟩
    rw [load_eq_loadText]
    refine loadWithin_succ (fun d _ _ t ht store => loadWithin_eq ?_ ht store) store
    have hle := unvisited_le_size files [d.uri]
    omega
  · refine askBy_eq (fun t ht store => loadWithin_eq ?_ ht store) uri store
    have hle := unvisited_le_size files []
    omega
  · exact load_includesItself_iff
  · exact includesItself_iff (r := ⟨[], uri, store⟩)
  · intro text l h
    rw [load_eq_loadText] at h
    obtain ⟨d, included, mid, hread, -, hresolves, hmerges⟩ := merges_of_loadText h
    exact ⟨d, included, mid, hread, hresolves, hmerges⟩
  · exact fun visiting uri l h => merges_of_fetch h
  · rintro hnamed l (⟨text, h⟩ | ⟨uri, h⟩)
    · exact map_name_values ((keepsNames_load files text hnamed).2 l h)
    · exact map_name_values ((keepsNames_get files uri hnamed).2 l h)

/-! ## 6. A sample -/

/-- A document without includes gives its own elements. -/
theorem loadText_of_no_includes {d : Registry.Document} {r : Registry}
    (hread : Registry.Document.read text = .ok d) (hvisiting : d.uri ∉ visiting)
    (hincludes : d.includes = []) (hregistry : d.registry .empty = .ok r) :
    loadText files visiting text store = (.ok (store.add r).1, (store.add r).2) := by
  rw [loadText, hread]
  simp only [hvisiting, if_false, hincludes, fetchAll, ofIncludes_ok hregistry]

theorem read_of_ofJson? {d : Registry.Document}
    (h : (Json.Document.read? text).bind Registry.Document.ofJson? = some d)
    (hformat : d.format = Registry.Document.expectedFormat) :
    Registry.Document.read text = .ok d := by
  rw [Registry.Document.read, h]
  exact if_pos hformat

/-- A document of two elements. -/
def sharedText : String := "[\"mplane\",\"a\",0,[],[[\"x\",\"natural\"],[\"y\",\"string\"]]]"

def sharedRegistry : Registry :=
  ⟨"a", 0, .ofList [("x", ⟨"x", .natural, none, "a"⟩), ("y", ⟨"y", .string, none, "a"⟩)]⟩

/-- The files with this document, and a document that includes it by two names of its file. The
second name is an absolute one, which leaves the working folder and comes back to it. -/
def sharedFiles : Files := Files.none.write "a.json" sharedText

def twiceText : String := "[\"mplane\",\"r\",0,[\"a.json\",\"file:///home/../home/a.json\"]," ++
  "[[\"z\",\"real\"],[\"y\",\"real\"]]]"

def twiceRegistry : Registry :=
  ⟨"r", 0, .ofList [("x", ⟨"x", .natural, none, "a"⟩), ("y", ⟨"y", .real, none, "r"⟩),
    ("z", ⟨"z", .real, none, "r"⟩)]⟩

theorem textOf?_sharedFiles : textOf? sharedFiles "a.json" = some sharedText
    ∧ textOf? sharedFiles "file:///home/../home/a.json" = some sharedText := by
  have hplain : pathOf? "a.json" = some "a.json" := by decide +kernel
  have hscheme : pathOf? "file:///home/../home/a.json"
      = some "/home/../home/a.json" := by decide +kernel
  constructor
  · rw [textOf?, hplain, Option.bind_some, Files.read, Files.follow, String.contains_char_eq]
    decide +kernel
  · rw [textOf?, hscheme, Option.bind_some, Files.read, Files.follow, String.contains_char_eq]
    decide +kernel

theorem fetch_shared (hget : store.loaded.get? uri = none)
    (htext : textOf? sharedFiles uri = some sharedText) (hvisiting : "a" ∉ visiting) :
    fetch sharedFiles visiting uri store
      = (.ok ⟨sharedRegistry, store.next⟩,
        (store.add sharedRegistry).2.keep uri ⟨sharedRegistry, store.next⟩) := by
  have hread : Registry.Document.read sharedText = .ok ⟨Registry.Document.expectedFormat, "a", 0,
      [], [⟨"x", "natural", none⟩, ⟨"y", "string", none⟩]⟩ :=
    read_of_ofJson? (by decide +kernel) rfl
  rw [fetch_eq_keptUnder hget htext,
    loadText_of_no_includes hread hvisiting rfl (r := sharedRegistry) (by rfl)]
  rfl

theorem load_twiceText : (initial.load sharedFiles twiceText).1 = .ok ⟨twiceRegistry, 3⟩ := by
  let once := (initial.add sharedRegistry).2.keep "a.json" ⟨sharedRegistry, 1⟩
  let twice := (once.add sharedRegistry).2.keep "file:///home/../home/a.json" ⟨sharedRegistry, 2⟩
  let shared := mergedAll .empty [sharedRegistry, sharedRegistry]
  have hall : fetchAll sharedFiles ["r"] ["a.json", "file:///home/../home/a.json"] .empty initial
      = (.ok shared, twice) := by
    -- The first name of the file is in the store by then, and the second one is not.
    have honce : fetch sharedFiles ["r"] "a.json" initial = (.ok ⟨sharedRegistry, 1⟩, once) :=
      fetch_shared (by decide +kernel) textOf?_sharedFiles.1 (by decide)
    have htwice : fetch sharedFiles ["r"] "file:///home/../home/a.json" once
        = (.ok ⟨sharedRegistry, 2⟩, twice) :=
      fetch_shared (by decide +kernel) textOf?_sharedFiles.2 (by decide)
    exact fetchAll_eq_ok_iff.2 ⟨_, .cons honce (.cons htwice (.nil twice)), rfl⟩
  let d : Registry.Document := ⟨Registry.Document.expectedFormat, "r", 0,
    ["a.json", "file:///home/../home/a.json"], [⟨"z", "real", none⟩, ⟨"y", "real", none⟩]⟩
  have hread : Registry.Document.read twiceText = .ok d := read_of_ofJson? (by decide +kernel) rfl
  have hregistry : d.registry shared = .ok twiceRegistry := by rfl
  rw [load_eq_loadText, loadText, hread]
  simp only [d, List.not_mem_nil, if_false, hall, ofIncludes_ok hregistry]
  rfl

/-- A document that is included by two names of its file is loaded twice. Its elements stand where
they first appeared, and the one that is defined anew has the new definition there. -/
theorem shared_document_is_merged :
    sharedFiles.texts.size + 1 < 3
      ∧ (∃ after, loadWithin sharedFiles 3 [] twiceText initial
        = some (.ok ⟨twiceRegistry, 3⟩, after))
      ∧ twiceRegistry.elements.values.map (·.name) = ["x", "y", "z"]
      ∧ (∃ d included mid, Registry.Document.read twiceText = .ok d
        ∧ Resolves sharedFiles [d.uri] initial d.includes included mid
        ∧ Registry.Merges d included twiceRegistry)
      ∧ (initial.get sharedFiles "a.json").1 = .ok ⟨sharedRegistry, 1⟩
      ∧ ∃ text d included mid, textOf? sharedFiles "a.json" = some text
        ∧ Registry.Document.read text = .ok d
        ∧ Resolves sharedFiles [d.uri] initial d.includes included mid
        ∧ Registry.Merges d included sharedRegistry := by
  obtain ⟨hdepth, -, hmerges, hget, hfetched, hnamed⟩ :=
    loads_end_and_merge_includes sharedFiles initial
  have hfew : sharedFiles.texts.size + 1 < 3 := by decide +kernel
  have hnew : initial.loaded.get? "a.json" = none := by decide +kernel
  have hasked : (fetch sharedFiles [] "a.json" initial).1 = .ok ⟨sharedRegistry, 1⟩ := by
    rw [fetch_shared hnew textOf?_sharedFiles.1 List.not_mem_nil]
    rfl
  refine ⟨hfew, ⟨(initial.load sharedFiles twiceText).2, ?_⟩, ?_,
    hmerges twiceText _ load_twiceText, ?_, ?_⟩
  · rw [(hdepth 3 hfew).1, ← load_twiceText]
  · rw [hnamed allNamed_initial _ (.inl ⟨twiceText, load_twiceText⟩)]
    decide +kernel
  · rw [hget]
    exact hasked
  · obtain hold | ⟨text, d, included, mid, -, htext, hread, -, hresolves, hmerged⟩ :=
      hfetched [] "a.json" _ hasked
    · rw [hnew] at hold
      cases hold
    · exact ⟨text, d, included, mid, htext, hread, hresolves, hmerged⟩

end Measurement.Registries
