/-
How long a store of registries gives the same answer.

A URI that is in the store is answered from the store, without a look at any
file. So what a call gives for a URI is what every later request for the URI
gives, until the entry is replaced. What can replace it is one thing only: a
document that is loaded later and has the URI for its own
(`registries_change_only_by_later_documents`). A load does not look whether its
URI is taken, and so it also takes the place of the core registry
(`second_document_replaces_first`).

Objects are told apart by their serial numbers, and those that a call makes have
the numbers from that of the next object before it to that after it. The step is
one document (`Records`), the induction on the way down is that of `fetch` and
`fetchAll` (`step_fetch`), and what holds from one store to the next holds over
a row of calls because it is transitive (`Grows.trans`).
-/
import Measurement.Proofs.Registry.Loading

set_option autoImplicit false

namespace Measurement.Registries

variable {files : Files} {store mid after : Registries} {uri u : String} {l : Loaded}

/-! ## 1. Stores in order -/

/-- Whether a later store has an object under every URI of an earlier one: the one that was there,
or a newer one of a document with this URI. -/
structure Grows (store after : Registries) : Prop where
  next_le : store.next ≤ after.next
  kept : ∀ u l, store.loaded.get? u = some l → ∃ l', after.loaded.get? u = some l'
    ∧ (l' = l ∨ (l'.registry.uri = u ∧ store.next ≤ l'.serial ∧ l'.serial < after.next))

theorem Grows.refl (store : Registries) : Grows store store :=
  ⟨Nat.le_refl _, fun _ l hl => ⟨l, hl, .inl rfl⟩⟩

theorem Grows.trans (h : Grows store mid) (k : Grows mid after) : Grows store after := by
  refine ⟨Nat.le_trans h.next_le k.next_le, ?_⟩
  intro u l hl
  have hnext := h.next_le
  obtain ⟨l', hl', hfirst⟩ := h.kept u l hl
  obtain ⟨l'', hl'', hsecond⟩ := k.kept u l' hl'
  refine ⟨l'', hl'', ?_⟩
  rcases hsecond with rfl | ⟨huri, hle, hlt⟩
  · rcases hfirst with rfl | ⟨huri, hle, hlt⟩
    · exact .inl rfl
    · have hnext' := k.next_le
      exact .inr ⟨huri, hle, by omega⟩
  · exact .inr ⟨huri, by omega, hlt⟩

/-- Whether the objects of a store have numbers that were given out, and none is newer than the one
under its own URI. -/
def Sound (store : Registries) : Prop :=
  ∀ u l, store.loaded.get? u = some l → l.serial < store.next
    ∧ ∃ m, store.loaded.get? l.registry.uri = some m ∧ (m = l ∨ l.serial < m.serial)

theorem sound_initial : initial.Sound := by
  intro u l hl
  rw [initial, Table.get?_insert] at hl
  by_cases hu : u = Registry.coreUri
  · rw [if_pos hu] at hl
    cases hl
    exact ⟨Nat.zero_lt_one, _, rfl, .inl rfl⟩
  · rw [if_neg hu] at hl
    cases hl

/-- What a call may do to a store. -/
structure Step (store after : Registries) : Prop where
  grows : Grows store after
  sound : store.Sound → after.Sound

theorem Step.refl (store : Registries) : Step store store := ⟨.refl store, id⟩

theorem Step.trans (h : Step store mid) (k : Step mid after) : Step store after :=
  ⟨h.grows.trans k.grows, k.sound ∘ h.sound⟩

/-! ## 2. One document -/

/-- Whether a store comes of another one by a new object, which is put under its own URI and under
the one that was asked for. -/
structure Records (store : Registries) (uri : String) (l : Loaded) (after : Registries) : Prop where
  serial : l.serial = store.next
  next : after.next = store.next + 1
  own : after.loaded.get? l.registry.uri = some l
  asked : after.loaded.get? uri = some l
  others : ∀ u, u ≠ l.registry.uri → u ≠ uri → after.loaded.get? u = store.loaded.get? u

theorem records_add (store : Registries) (r : Registry) :
    Records store r.uri (store.add r).1 (store.add r).2 := by
  have hown : (store.add r).2.loaded.get? r.uri = some (store.add r).1 :=
    (Table.get?_insert _ _ _ _).trans (if_pos rfl)
  refine ⟨rfl, rfl, hown, hown, ?_⟩
  intro u hu _
  exact (Table.get?_insert _ _ _ _).trans (if_neg hu)

theorem records_keep (store : Registries) (r : Registry) (uri : String) :
    Records store uri (store.add r).1 ((store.add r).2.keep uri (store.add r).1) := by
  have hadd := store.records_add r
  have hkeep : ∀ u, ((store.add r).2.keep uri (store.add r).1).loaded.get? u
      = if u = uri then some (store.add r).1 else (store.add r).2.loaded.get? u := fun u =>
    Table.get?_insert _ _ _ _
  refine ⟨rfl, rfl, ?_, ?_, ?_⟩
  · rw [hkeep, hadd.own, ite_self]
  · rw [hkeep, if_pos rfl]
  · intro u hown hasked
    rw [hkeep, if_neg hasked]
    exact hadd.others u hown hown

/-- A new object replaces nothing but what stood under its own URI. What it was asked for by was
not in the store when it was asked for, whatever was loaded since. -/
theorem Grows.record (h : Grows store mid) (k : Records mid uri l after)
    (habsent : uri = l.registry.uri ∨ store.loaded.get? uri = none) : Grows store after := by
  have hle := h.next_le
  have hserial := k.serial
  have hnext := k.next
  refine ⟨by omega, ?_⟩
  intro u a ha
  by_cases hown : u = l.registry.uri
  · subst hown
    exact ⟨l, k.own, .inr ⟨rfl, by omega, by omega⟩⟩
  · have hasked : u ≠ uri := by
      rintro rfl
      rcases habsent with heq | hnone
      · exact hown heq
      · rw [hnone] at ha
        cases ha
    obtain ⟨b, hb, hkept⟩ := h.kept u a ha
    refine ⟨b, (k.others u hown hasked).trans hb, ?_⟩
    rcases hkept with rfl | ⟨huri, hfrom, hto⟩
    · exact .inl rfl
    · exact .inr ⟨huri, hfrom, by omega⟩

/-- A new object is newer than what was loaded before. -/
theorem Sound.record (h : mid.Sound) (k : Records mid uri l after) : after.Sound := by
  have hserial := k.serial
  have hnext := k.next
  intro u a ha
  -- An entry holds the new object or is one of the store before.
  have hentry : a = l ∨ mid.loaded.get? u = some a := by
    by_cases hown : u = l.registry.uri
    · subst hown
      exact .inl (Option.some.inj (ha.symm.trans k.own))
    · by_cases hasked : u = uri
      · subst hasked
        exact .inl (Option.some.inj (ha.symm.trans k.asked))
      · exact .inr ((k.others u hown hasked).symm.trans ha)
  rcases hentry with rfl | hold
  · exact ⟨by omega, a, k.own, .inl rfl⟩
  · obtain ⟨hlt, m, hm, hnewer⟩ := h u a hold
    refine ⟨by omega, ?_⟩
    by_cases hown : a.registry.uri = l.registry.uri
    · rw [hown]
      exact ⟨l, k.own, .inr (by omega)⟩
    · by_cases hasked : a.registry.uri = uri
      · rw [hasked]
        exact ⟨l, k.asked, .inr (by omega)⟩
      · exact ⟨m, (k.others _ hown hasked).trans hm, hnewer⟩

theorem Step.record (h : Step store mid) (k : Records mid uri l after)
    (habsent : uri = l.registry.uri ∨ store.loaded.get? uri = none) : Step store after :=
  ⟨h.grows.record k habsent, fun hsound => (h.sound hsound).record k⟩

/-! ## 3. One call -/

/-- Fetching a registry is a step, and so is fetching those that a document includes. -/
theorem step_fetch (files : Files) :
    (∀ visiting uri store, Step store (fetch files visiting uri store).2)
    ∧ ∀ visiting uris t store, Step store (fetchAll files visiting uris t store).2 := by
  apply fetch.mutual_induct files
    (fun visiting uri store => Step store (fetch files visiting uri store).2)
    (fun visiting uris t store => Step store (fetchAll files visiting uris t store).2)
  case case1 =>
    intro visiting uri store l hfound
    rw [fetch, hfound]
    exact .refl store
  case case2 =>
    intro visiting uri store hnone hfile
    rw [fetch_of_no_text hnone hfile]
    exact .refl store
  case case3 =>
    intro visiting uri store hnone text htext e hread
    rw [fetch_of_text hnone htext, hread]
    exact .refl store
  case case4 =>
    intro visiting uri store hnone text htext d hread hvisiting
    rw [fetch_of_text hnone htext, hread]
    simp only [hvisiting, if_true]
    exact .refl store
  case case5 =>
    intro visiting uri store hnone text htext d hread hvisiting _ e after hall hincluded
    rw [fetch_of_text hnone htext, hread]
    rw [hall] at hincluded
    simp only [hvisiting, if_false, hall]
    exact hincluded
  case case6 =>
    intro visiting uri store hnone text htext d hread hvisiting _ included after hall e hr hincluded
    rw [fetch_of_text hnone htext, hread]
    rw [hall] at hincluded
    simp only [hvisiting, if_false, hall, hr]
    exact hincluded
  case case7 =>
    -- The new object is recorded in the store that the included registries leave.
    intro visiting uri store hnone text htext d hread hvisiting _ included after hall r hr l last
      hadd hincluded
    rw [fetch_of_text hnone htext, hread]
    rw [hall] at hincluded
    simp only [hvisiting, if_false, hall, hr]
    exact hincluded.record (after.records_keep r uri) (.inr hnone)
  case case8 =>
    intro visiting t store
    rw [fetchAll]
    exact .refl store
  case case9 =>
    intro visiting t store uri rest e after hfetch hfirst
    rw [fetchAll, hfetch]
    rw [hfetch] at hfirst
    exact hfirst
  case case10 =>
    intro visiting t store uri rest l after hfetch hfirst hrest
    rw [fetchAll, hfetch]
    rw [hfetch] at hfirst
    exact hfirst.trans hrest

/-- Whether an answer of a store is a step that gives an object from the store, under the URI that
was asked for, or one that is made of a document. A document that is loaded without a URI to ask for
goes by its own. -/
structure Gives (store : Registries) (asked? : Option String)
    (answer : Except ReadFault Loaded × Registries) : Prop where
  step : Step store answer.2
  source : ∀ l, answer.1 = .ok l →
    (∃ uri, asked? = some uri ∧ store.loaded.get? uri = some l ∧ answer.2 = store)
      ∨ ∃ mid, Step store mid ∧ Records mid (asked?.getD l.registry.uri) l answer.2

theorem Gives.error (e : ReadFault) {asked? : Option String} (h : Step store after) :
    Gives store asked? (.error e, after) :=
  ⟨h, fun l hl => (by cases hl)⟩

/-- A registry that was fetched was there, or the document of the URI was loaded: first those that
it includes, which leave the store `mid`, and then itself. -/
theorem fetch_eq_ok {visiting : List String}
    (h : fetch files visiting uri store = (.ok l, after)) :
    (store.loaded.get? uri = some l ∧ after = store)
      ∨ ∃ (d : Registry.Document) (included : Table Element) (mid : Registries) (r : Registry),
        fetchAll files (d.uri :: visiting) d.includes .empty store = (.ok included, mid)
        ∧ l = (mid.add r).1 ∧ after = (mid.add r).2.keep uri (mid.add r).1 := by
  cases hfound : store.loaded.get? uri with
  | some a =>
    rw [fetch, hfound] at h
    cases h
    exact .inl ⟨rfl, rfl⟩
  | none =>
    refine .inr ?_
    cases htext : textOf? files uri with
    | none =>
      rw [fetch_of_no_text hfound htext] at h
      cases h
    | some text =>
      rw [fetch_of_text hfound htext] at h
      -- Of the branches of a load, only that of a complete document gives a registry.
      split at h
      · cases h
      · rename_i d hread
        split at h
        · cases h
        · split at h
          · cases h
          · rename_i included mid hall
            split at h
            · cases h
            · rename_i r hr
              cases h
              exact ⟨d, included, mid, r, hall, rfl, rfl⟩

theorem gives_get (store : Registries) (files : Files) (uri : String) :
    Gives store (some uri) (store.get files uri) := by
  refine ⟨(step_fetch files).1 [] uri store, ?_⟩
  intro l h
  have hget : store.get files uri = (.ok l, (store.get files uri).2) := Prod.ext h rfl
  rcases fetch_eq_ok hget with ⟨hfound, hsame⟩ | ⟨d, included, mid, r, hall, rfl, hafter⟩
  · exact .inl ⟨uri, rfl, hfound, hsame⟩
  · have hstep := (step_fetch files).2 [d.uri] d.includes .empty store
    rw [hall] at hstep
    refine .inr ⟨mid, hstep, ?_⟩
    rw [hafter]
    exact mid.records_keep r uri

theorem gives_load (store : Registries) (files : Files) (text : String) :
    Gives store none (store.load files text) := by
  rw [load]
  cases hread : Registry.Document.read text with
  | error e => exact .error e (.refl store)
  | ok d =>
    have hstep := (step_fetch files).2 [d.uri] d.includes .empty store
    rcases hall : fetchAll files [d.uri] d.includes .empty store with ⟨e | included, mid⟩
    · rw [hall] at hstep
      simp only [hall]
      exact .error e hstep
    · rw [hall] at hstep
      cases hr : d.registry included with
      | error e =>
        simp only [hall, hr]
        exact .error e hstep
      | ok r =>
        simp only [hall, hr]
        have hadd := mid.records_add r
        refine ⟨hstep.record hadd (.inl rfl), ?_⟩
        intro l hl
        cases hl
        exact .inr ⟨mid, hstep, hadd⟩

theorem gives_loadFile (store : Registries) (files : Files) (path : String) :
    Gives store none (store.loadFile files path) := by
  rw [loadFile]
  cases files.read path with
  | error e => exact .error _ (.refl store)
  | ok text => exact gives_load store files text

/-- What is in a store is given without a look at any file, and nothing changes. -/
theorem get_of_get? (files : Files) (h : store.loaded.get? u = some l) :
    store.get files u = (.ok l, store) := by
  rw [get, fetch, h]

/-! ## 4. Rows of calls -/

/-- What a store is asked to do. -/
inductive Call where
  /-- To load a document from its text. -/
  | load (text : String)
  /-- To load a document from a file. -/
  | loadFile (path : String)
  /-- To give the registry under a URI. -/
  | get (uri : String)
  /-- To give the core registry. -/
  | core

namespace Call

/-- The answer to a call, with the files that there are at the time, and the store after it. -/
def answer (store : Registries) (files : Files) : Call → Except ReadFault Loaded × Registries
  | load text => store.load files text
  | loadFile path => store.loadFile files path
  | get uri => store.get files uri
  | core => store.core files

/-- The URI that a call asks for. -/
def asked? : Call → Option String
  | load _ => none
  | loadFile _ => none
  | get uri => some uri
  | core => some Registry.coreUri

/-- Whether an object that a call gives is one for a URI: the URI was asked for, or it is that of
the document of which the call made the object. -/
def IsFor (c : Call) (store : Registries) (l : Loaded) (u : String) : Prop :=
  c.asked? = some u ∨ (l.registry.uri = u ∧ (c.asked? = none ∨ store.next ≤ l.serial))

theorem gives (c : Call) (store : Registries) (files : Files) :
    Gives store c.asked? (c.answer store files) := by
  cases c with
  | load text => exact gives_load store files text
  | loadFile path => exact gives_loadFile store files path
  | get uri => exact gives_get store files uri
  | core => exact gives_get store files Registry.coreUri

end Call

/-- The store after a row of calls, each with the files that there are at the time. -/
def run (store : Registries) (calls : List (Files × Call)) : Registries :=
  calls.foldl (fun x c => (c.2.answer x c.1).2) store

theorem step_run (store : Registries) (calls : List (Files × Call)) :
    Step store (store.run calls) := by
  induction calls generalizing store with
  | nil => exact .refl store
  | cons c calls ih =>
    have hfirst := (c.2.gives store c.1).step
    exact hfirst.trans (ih _)

/-- The entry of an object that a call gave for a URI is the object itself. -/
theorem get?_of_isFor {c : Call} (hsound : store.Sound) (h : (c.answer store files).1 = .ok l)
    (hu : c.IsFor store l u) : (c.answer store files).2.loaded.get? u = some l := by
  rcases (c.gives store files).source l h with ⟨uri, hasked, hfound, hsame⟩ | ⟨mid, hmid, hrecords⟩
  · have hold := (hsound uri l hfound).1
    rcases hu with hu | ⟨-, hnone | hnew⟩
    · rw [hsame, ← Option.some.inj (hasked.symm.trans hu)]
      exact hfound
    · rw [hasked] at hnone
      cases hnone
    · omega
  · rcases hu with hu | ⟨rfl, -⟩
    · rw [hu] at hrecords
      exact hrecords.asked
    · exact hrecords.own

/-- An object that a call gave is in the store afterwards, so that there is one under its own URI
which is not older. -/
theorem exists_get?_own {c : Call} (hsound : store.Sound) (h : (c.answer store files).1 = .ok l) :
    ∃ m, (c.answer store files).2.loaded.get? l.registry.uri = some m
      ∧ (m = l ∨ l.serial < m.serial) := by
  rcases (c.gives store files).source l h with ⟨uri, -, hfound, hsame⟩ | ⟨mid, hmid, hrecords⟩
  · rw [hsame]
    exact (hsound uri l hfound).2
  · exact ⟨l, hrecords.own, .inl rfl⟩

/-- Once a call gave an object for a URI, every later request for the URI is answered from the
store. It is answered with this object, or with a newer one: an object that a later call made of a
document whose own URI it is. The same holds of the own URI of any object that a call gave, except
that the newer object may then have been there already; and of the built-in core registry. -/
theorem registries_change_only_by_later_documents (before later : List (Files × Call))
    (files : Files) (c : Call) :
    let store := initial.run before
    let after := (c.answer store files).2
    let last := after.run later
    (∀ l, (c.answer store files).1 = .ok l →
      (∀ u, c.IsFor store l u → ∃ l', (∀ files', last.get files' u = (.ok l', last))
        ∧ (l' = l
          ∨ (l'.registry.uri = u ∧ after.next ≤ l'.serial ∧ l'.serial < last.next)))
      ∧ ∃ l', (∀ files', last.get files' l.registry.uri = (.ok l', last))
        ∧ (l' = l ∨ l.serial < l'.serial))
      ∧ ∃ l', (∀ files', last.core files' = (.ok l', last))
        ∧ (l' = ⟨.core, 0⟩
          ∨ (l'.registry.uri = Registry.coreUri ∧ 0 < l'.serial ∧ l'.serial < last.next)) := by
  intro store after last
  have hstore := step_run initial before
  have hsound := hstore.sound sound_initial
  have hcall := (c.gives store files).step
  have hlater := step_run after later
  refine ⟨?_, ?_⟩
  · intro l hl
    constructor
    · intro u hu
      have hentry := get?_of_isFor hsound hl hu
      obtain ⟨l', hl', hkept⟩ := hlater.grows.kept u l hentry
      exact ⟨l', fun files' => get_of_get? files' hl', hkept⟩
    · -- A newer object was there when the call was made, or comes of a later call.
      obtain ⟨m, hm, hnewer⟩ := exists_get?_own hsound hl
      obtain ⟨l', hl', hkept⟩ := hlater.grows.kept _ m hm
      refine ⟨l', fun files' => get_of_get? files' hl', ?_⟩
      rcases hkept with rfl | ⟨-, hfrom, -⟩
      · exact hnewer
      · refine .inr ?_
        have hmade : m.serial < after.next := (hcall.sound hsound _ m hm).1
        rcases hnewer with rfl | hlt <;> omega
  · have hcore : initial.loaded.get? Registry.coreUri = some ⟨.core, 0⟩ :=
      (Table.get?_insert _ _ _ _).trans (if_pos rfl)
    have hall := (hstore.trans hcall).trans hlater
    obtain ⟨l', hl', hkept⟩ := hall.grows.kept _ _ hcore
    exact ⟨l', fun files' => get_of_get? files' hl', hkept⟩

/-! ## 5. Samples -/

/-- The registry with a URI and a revision, and without elements. -/
def bare (uri : String) (revision : Nat) : Registry := ⟨uri, revision, .empty⟩

/-- Whether a text is a document of such a registry. -/
def IsBare (text uri : String) (revision : Nat) : Prop :=
  Registry.Document.read text = .ok ⟨Registry.Document.expectedFormat, uri, revision, [], []⟩

theorem isBare_of_ofJson? {text : String} {revision : Nat}
    (h : (Json.Document.read? text).bind Registry.Document.ofJson?
      = some ⟨Registry.Document.expectedFormat, uri, revision, [], []⟩) :
    IsBare text uri revision := by
  rw [IsBare, Registry.Document.read, h]
  exact if_pos rfl

/-- Whatever is in a store, such a document gives a new object, and so does its URI from then on. -/
theorem load_of_isBare {text : String} {revision : Nat} (h : IsBare text uri revision)
    (store : Registries) (files : Files) :
    (store.load files text).1 = .ok ⟨bare uri revision, store.next⟩
      ∧ (store.load files text).2.next = store.next + 1
      ∧ ∀ files', (store.load files text).2.get files' uri
        = (.ok ⟨bare uri revision, store.next⟩, (store.load files text).2) := by
  have hload : store.load files text
      = (.ok (store.add (bare uri revision)).1, (store.add (bare uri revision)).2) := by
    rw [load, h]
    simp only [fetchAll]
    rfl
  rw [hload]
  refine ⟨rfl, rfl, fun files' => get_of_get? files' ?_⟩
  exact (store.records_add (bare uri revision)).own

/-- Two documents with one URI. -/
def firstText : String := "[\"mplane\",\"r\",1]"

def secondText : String := "[\"mplane\",\"r\",2]"

/-- A document with the URI of the core registry. -/
def coreText : String := "[\"mplane\",\"http://ict-mplane.eu/registry/core\",3]"

theorem isBare_firstText : IsBare firstText "r" 1 := isBare_of_ofJson? (by decide +kernel)

theorem isBare_secondText : IsBare secondText "r" 2 := isBare_of_ofJson? (by decide +kernel)

theorem isBare_coreText : IsBare coreText Registry.coreUri 3 :=
  isBare_of_ofJson? (by decide +kernel)

/-- A registry that was loaded is given when it is asked for. -/
theorem first_document_is_given :
    (initial.load .none firstText).1 = .ok ⟨bare "r" 1, 1⟩
      ∧ ((initial.load .none firstText).2.get .none "r").1 = .ok ⟨bare "r" 1, 1⟩ := by
  have hgiven : (initial.load .none firstText).1 = .ok ⟨bare "r" 1, 1⟩ :=
    (load_of_isBare isBare_firstText initial .none).1
  refine ⟨hgiven, ?_⟩
  obtain ⟨l', hl', hkept⟩ := ((registries_change_only_by_later_documents [] [] .none
    (.load firstText)).1 _ hgiven).1 "r" (.inr ⟨rfl, .inl rfl⟩)
  have hsame : l' = ⟨bare "r" 1, 1⟩ := by
    refine hkept.resolve_right ?_
    rintro ⟨-, hle, hlt⟩
    exact absurd hlt (Nat.not_lt.2 hle)
  rw [← hsame]
  exact congrArg Prod.fst (hl' .none)

/-- The second of two documents with one URI takes the place of the first, and a document with the
URI of the core registry that of the core registry. -/
theorem second_document_replaces_first :
    let once := (initial.load .none firstText).2
    let twice := (once.load .none secondText).2
    let changed := (initial.load .none coreText).2
    (initial.load .none firstText).1 = .ok ⟨bare "r" 1, 1⟩
      ∧ (once.get .none "r").1 = .ok ⟨bare "r" 1, 1⟩
      ∧ (twice.get .none "r").1 = .ok ⟨bare "r" 2, 2⟩
      ∧ (changed.core .none).1 = .ok ⟨bare Registry.coreUri 3, 1⟩
      ∧ bare Registry.coreUri 3 ≠ Registry.core := by
  intro once twice changed
  obtain ⟨hfirst, hnext, honce⟩ := load_of_isBare isBare_firstText initial .none
  obtain ⟨-, -, htwice⟩ := load_of_isBare isBare_secondText once .none
  obtain ⟨-, -, hchanged⟩ := load_of_isBare isBare_coreText initial .none
  have hserial : once.next = 2 := hnext
  rw [hserial] at htwice
  refine ⟨hfirst, congrArg Prod.fst (honce .none), congrArg Prod.fst (htwice .none),
    congrArg Prod.fst (hchanged .none), ?_⟩
  intro h
  have hrevision : 3 = Registry.core.revision := congrArg Registry.revision h
  revert hrevision
  decide

end Measurement.Registries
