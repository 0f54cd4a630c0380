/-
Which requests a capability accepts.

A capability accepts a request that has its schema and a value for every parameter,
if the values of those parameters that it offers are admitted by its constraints
(`accepts_eq_ok_iff`). What the schema says of a registry and of the names of
parameters and columns can be read off its lines if the registry is a line and no
name holds a mark that stands between names (`sameSchema_of_linesText`). Then a
request is accepted exactly if it fits: it names the registry, the parameters and
the columns of the capability, and has an admitted value for each of the parameters
(`accepts_exactly_what_fits`).

Names are joined as they are, so a name with a comma can stand for two names. A
request that names other parameters is accepted then, and none of its values is
checked (`joined_names_are_accepted`).
-/
import Measurement.Service.Basic
import Measurement.Proofs.Message.Identity
import Measurement.Proofs.Statement.Operations

set_option autoImplicit false

namespace Measurement

/-! ## 1. Schemas -/

namespace Statement

open Measurement.Text Measurement.Digest

variable {s t : Statement}

/-- Whether the schema of a statement has only one reading. -/
structure LegibleSchema (s : Statement) : Prop where
  registry : '\n' ∉ s.registry.uri.toList
  parameters : ∀ name ∈ s.parameters.names, ',' ∉ name.toList ∧ '\n' ∉ name.toList
  columns : ∀ name ∈ s.columns.names, ',' ∉ name.toList
  /-- The empty name alone reads as no names. -/
  named : s.parameters.names ≠ [""] ∧ s.columns.names ≠ [""]

instance (s : Statement) : Decidable s.LegibleSchema :=
  decidable_of_iff ('\n' ∉ s.registry.uri.toList
      ∧ (∀ name ∈ s.parameters.names, ',' ∉ name.toList ∧ '\n' ∉ name.toList)
      ∧ (∀ name ∈ s.columns.names, ',' ∉ name.toList)
      ∧ s.parameters.names ≠ [""] ∧ s.columns.names ≠ [""])
    ⟨fun h => ⟨h.1, h.2.1, h.2.2.1, h.2.2.2⟩, fun h => ⟨h.1, h.2, h.3, h.4⟩⟩

/-- Whether two statements have one schema: they name one registry, and the same parameters and
columns. -/
structure SameSchema (s t : Statement) : Prop where
  registry : s.registry.uri = t.registry.uri
  parameters : s.parameters.names.Perm t.parameters.names
  columns : s.columns.names.Perm t.columns.names

theorem SameSchema.schemaLines_eq (h : s.SameSchema t) : s.schemaLines = t.schemaLines := by
  rw [schemaLines, schemaLines, h.registry, inOrder_of_perm h.parameters, inOrder_of_perm h.columns]

/-- The line of a schema that names its registry can be read off. -/
theorem uri_of_linesText (hs : '\n' ∉ s.registry.uri.toList) (ht : '\n' ∉ t.registry.uri.toList)
    (h : linesText s.schemaLines = linesText t.schemaLines) :
    s.registry.uri = t.registry.uri := by
  obtain ⟨hregistry, -⟩ := linesText_cons_inj (lineBreak_not_mem_labelled (by decide) hs)
    (lineBreak_not_mem_labelled (by decide) ht) h
  exact (String.append_right_inj _).1 hregistry

/-- Legible schemas that give the same text are the same. -/
theorem sameSchema_of_linesText (hs : s.LegibleSchema) (ht : t.LegibleSchema)
    (h : linesText s.schemaLines = linesText t.schemaLines) : s.SameSchema t := by
  have huri := uri_of_linesText hs.registry ht.registry h
  have hline : ∀ {u : Statement}, u.LegibleSchema →
      '\n' ∉ ("p:" ++ inOrder u.parameters.names).toList := fun hu =>
    lineBreak_not_mem_labelled (by decide)
      (lineBreak_not_mem_inOrder fun name hname => (hu.parameters name hname).2)
  obtain ⟨-, hrest⟩ := linesText_cons_inj
    (lineBreak_not_mem_labelled (by decide) hs.registry)
    (lineBreak_not_mem_labelled (by decide) ht.registry) h
  obtain ⟨hparameters, hcolumns⟩ := linesText_cons_inj (hline hs) (hline ht) hrest
  -- Columns stand on the last line, so a line break in their names does no harm.
  refine ⟨huri, ?_, ?_⟩
  · exact perm_names (fun name hname => (hs.parameters name hname).1)
      (fun name hname => (ht.parameters name hname).1) hs.named.1 ht.named.1
      ((String.append_right_inj _).1 hparameters)
  · exact perm_names hs.columns ht.columns hs.named.2 ht.named.2
      ((String.append_right_inj _).1 (linesText_singleton_inj hcolumns))

end Statement

/-! ## 2. What is checked -/

theorem Specification.validate_eq_ok_iff {s : Specification} :
    s.validate = .ok () ↔ ∀ p ∈ s.statement.parameters.values, p.hasValue = true := by
  rw [validate]
  cases hfind : s.statement.parameters.values.find? fun p => !p.hasValue with
  | none =>
    rw [List.find?_eq_none] at hfind
    exact ⟨fun _ p hp => by simpa using hfind p hp, fun _ => rfl⟩
  | some q =>
    constructor
    · intro h
      cases h
    · intro h
      have hq := List.find?_some hfind
      rw [h q (List.mem_of_find?_eq_some hfind)] at hq
      cases hq

namespace Capability

variable {c : Capability} {s : Specification}

theorem checkValues_eq_ok_iff {ps : List Parameter} :
    c.checkValues ps = .ok () ↔ ∀ p ∈ ps, ∀ v offered, p.value = some v →
      c.statement.parameters.get? p.name = some offered → offered.constraint.metBy v = true := by
  induction ps with
  | nil => exact ⟨fun _ p hp => absurd hp List.not_mem_nil, fun _ => rfl⟩
  | cons p ps ih =>
    rw [List.forall_mem_cons, ← ih, checkValues]
    split
    · rename_i v offered hv hoffered
      by_cases hmet : offered.constraint.metBy v = true
      · rw [if_pos hmet]
        refine ⟨fun h => ⟨?_, h⟩, fun h => h.2⟩
        intro w other hw hother
        cases hv.symm.trans hw
        cases hoffered.symm.trans hother
        exact hmet
      · rw [if_neg hmet]
        exact ⟨fun h => (by cases h), fun h => absurd (h.1 v offered hv hoffered) hmet⟩
    · rename_i hnone
      refine ⟨fun h => ⟨?_, h⟩, fun h => h.2⟩
      intro v offered hv hoffered
      exact absurd hoffered (hnone v offered hv)

/-- A capability accepts the requests with the digest of its schema and with a value for every
parameter, where its constraints admit the values of the parameters that it offers. -/
theorem accepts_eq_ok_iff :
    c.accepts s = .ok () ↔ s.statement.schemaDigest = c.statement.schemaDigest
      ∧ s.validate = .ok () ∧ c.checkValues s.statement.parameters.values = .ok () := by
  rw [accepts]
  by_cases hschema : s.statement.schemaDigest = c.statement.schemaDigest
  · rw [if_pos hschema, bind_eq_ok_iff]
    constructor
    · rintro ⟨u, hvalid, hvalues⟩
      exact ⟨hschema, mapError_eq_ok_iff.1 hvalid, hvalues⟩
    · rintro ⟨-, hvalid, hvalues⟩
      exact ⟨(), mapError_eq_ok_iff.2 hvalid, hvalues⟩
  · rw [if_neg hschema]
    exact ⟨fun h => (by cases h), fun h => absurd h.1 hschema⟩

/-! ## 3. What fits -/

/-- Whether a request has a value that the capability admits for each parameter that it offers. -/
def AdmitsValues (c : Capability) (s : Specification) : Prop :=
  ∀ e ∈ c.statement.parameters.entries, ∃ v ∈ s.statement.parameterValue? e.1,
    e.2.constraint.metBy v = true

instance (c : Capability) (s : Specification) : Decidable (c.AdmitsValues s) :=
  inferInstanceAs (Decidable (∀ e ∈ c.statement.parameters.entries, ∃ v ∈ _, _))

/-- Where both name the same parameters, and those of the request are called as they are named, a
value is checked for each parameter that the capability offers. -/
theorem admitsValues_iff (hs : ∀ e ∈ s.statement.parameters.entries, e.2.name = e.1)
    (hsame : s.statement.parameters.names.Perm c.statement.parameters.names) :
    c.AdmitsValues s
      ↔ s.validate = .ok () ∧ c.checkValues s.statement.parameters.values = .ok () := by
  rw [Specification.validate_eq_ok_iff, checkValues_eq_ok_iff]
  constructor
  · intro h
    have hadmitted : ∀ p ∈ s.statement.parameters.values, ∃ v offered, p.value = some v
        ∧ c.statement.parameters.get? p.name = some offered
        ∧ offered.constraint.metBy v = true := by
      intro p hp
      obtain ⟨e, he, rfl⟩ := List.mem_map.1 hp
      have hname : e.1 ∈ c.statement.parameters.names :=
        hsame.mem_iff.1 (List.mem_map_of_mem he)
      obtain ⟨offered, hoffered⟩ := Table.mem_names_iff.1 hname
      obtain ⟨v, hv, hmet⟩ := h (e.1, offered) (Table.mem_of_get? hoffered)
      rw [Statement.parameterValue?, Table.get?_of_mem he] at hv
      exact ⟨v, offered, hv, by rw [hs e he]; exact hoffered, hmet⟩
    constructor
    · intro p hp
      obtain ⟨v, -, hv, -⟩ := hadmitted p hp
      rw [Parameter.hasValue, hv]
      rfl
    · intro p hp v offered hv hoffered
      obtain ⟨w, other, hw, hother, hmet⟩ := hadmitted p hp
      cases hv.symm.trans hw
      cases hoffered.symm.trans hother
      exact hmet
  · rintro ⟨hvalid, hvalues⟩ ⟨name, offered⟩ he
    have hoffered := Table.get?_of_mem he
    have hname : name ∈ s.statement.parameters.names :=
      hsame.mem_iff.2 (Table.mem_names_iff.2 ⟨offered, hoffered⟩)
    obtain ⟨p, hp⟩ := Table.mem_names_iff.1 hname
    have hmem := Table.mem_of_get? hp
    have hpresent := hvalid p (List.mem_map_of_mem hmem)
    obtain ⟨v, hv⟩ := Option.isSome_iff_exists.1 hpresent
    refine ⟨v, by rw [Statement.parameterValue?, hp]; exact hv, ?_⟩
    -- The value is looked up under the name of the element, which is the name in the table.
    have hcalled : p.name = name := hs (name, p) hmem
    exact hvalues p (List.mem_map_of_mem hmem) v offered hv (by rw [hcalled]; exact hoffered)

/-- Of the requests that come about with loaded registries, those are accepted that name the
registry, the parameters and the columns of the capability and have an admitted value for each of
its parameters; if schemas have only one reading and their texts do not collide. -/
theorem accepts_exactly_what_fits {c : Capability} {s : Specification}
    (hs : Statement.Reachable Registry.IsLoaded (fun _ => True) s.statement)
    (hlegible : c.statement.LegibleSchema) (hlegible' : s.statement.LegibleSchema)
    (hfree : Digest.CollisionFree [s.statement.schemaLines, c.statement.schemaLines]) :
    c.accepts s = .ok () ↔ s.statement.registry.uri = c.statement.registry.uri
      ∧ (∀ name, name ∈ s.statement.parameters.names ↔ name ∈ c.statement.parameters.names)
      ∧ (∀ name, name ∈ s.statement.columns.names ↔ name ∈ c.statement.columns.names)
      ∧ c.AdmitsValues s := by
  obtain ⟨hloaded, hplaced⟩ := Statement.placed_of_reachable hs
  have hcalled := Statement.name_of_placed hplaced hloaded.named
  rw [accepts_eq_ok_iff]
  constructor
  · rintro ⟨hdigest, hchecked⟩
    have htext := hfree _ List.mem_cons_self _ (List.mem_cons_of_mem _ List.mem_cons_self) hdigest
    have hsame := Statement.sameSchema_of_linesText hlegible' hlegible htext
    exact ⟨hsame.registry, fun _ => hsame.parameters.mem_iff, fun _ => hsame.columns.mem_iff,
      (admitsValues_iff hcalled hsame.parameters).2 hchecked⟩
  · rintro ⟨hregistry, hparameters, hcolumns, hadmitted⟩
    have hsame : s.statement.SameSchema c.statement :=
      ⟨hregistry, (List.perm_ext_iff_of_nodup (Table.nodup_names _) (Table.nodup_names _)).2
        hparameters, (List.perm_ext_iff_of_nodup (Table.nodup_names _) (Table.nodup_names _)).2
        hcolumns⟩
    have hdigest : s.statement.schemaDigest = c.statement.schemaDigest := by
      rw [Statement.schemaDigest, Statement.schemaDigest, hsame.schemaLines_eq]
    exact ⟨hdigest, (admitsValues_iff hcalled hsame.parameters).1 hadmitted⟩

/-! ## 4. Samples -/

open Statement Message

/-- A document with three texts, of which the name of one is that of the others in a row. -/
def lettersDocument : String :=
  "[\"mplane\",\"r\",0,[],[[\"a\",\"string\"],[\"b\",\"string\"],[\"a,b\",\"string\"]]]"

/-- What the document says. -/
def lettersSaid : Registry.Document :=
  ⟨"mplane", "r", 0, [], ["a", "b", "a,b"].map fun name => ⟨name, "string", none⟩⟩

theorem read_lettersDocument : Registry.Document.read lettersDocument = .ok lettersSaid := by
  have hsaid : (Json.Document.read? lettersDocument).bind Registry.Document.ofJson?
      = some lettersSaid := by decide +kernel
  rw [Registry.Document.read, hsaid]
  rfl

/-- The registry of these texts. -/
def letters : Registry := (requestSaid [] []).registry

theorem isLoaded_letters : letters.IsLoaded := by
  refine ⟨.initial, .initial, .none, ⟨letters, Registries.initial.next⟩, rfl,
    Or.inr (Or.inl ⟨lettersDocument, ?_⟩)⟩
  rw [Registries.load, read_lettersDocument]
  simp only [Registries.fetchAll, lettersSaid]
  rfl

/-- An offer of two of the texts, the first one with a choice. -/
def letterOffer (columns : List String) : Capability :=
  ⟨{ Statement.make "v" letters with
    parameters := .ofList [("a", .make (textElement "r" "a") (.set [.string "x", .string "y"])),
      ("b", .make (textElement "r" "b") .unconstrained)]
    columns := .ofList (columns.map fun name => (name, .make (textElement "r" name))) }⟩

section

variable {loaded : Registry → Prop} {allowed : Operation → Prop}

theorem reachable_letterOffer (hloaded : loaded letters) {columns : List String}
    (h : ofJson lettered (sheet .capability "v" "r"
      [("parameters", .object [("a", .text "x,y"), ("b", .text "*")]),
        ("results", .array (columns.map .text))]) = .ok (.capability (letterOffer columns))) :
    Reachable loaded allowed (letterOffer columns).statement :=
  .read h (List.mem_singleton.2 rfl) hloaded

theorem reachable_requestSaid (hloaded : loaded letters) {values : List (String × String)}
    {columns : List String} (h : ofJson lettered (requestSheet values columns)
      = .ok (.specification ⟨requestSaid values columns⟩)) :
    Reachable loaded allowed (requestSaid values columns) :=
  .read h (List.mem_singleton.2 rfl) hloaded

end

/-- A request that gives its values in another order. -/
theorem reordered_request_is_accepted :
    let c := letterOffer ["b"]
    let s : Specification := ⟨requestSaid [("b", "z"), ("a", "y")] ["b"]⟩
    Reachable Registry.IsLoaded (fun _ => True) s.statement
      ∧ c.statement.LegibleSchema ∧ s.statement.LegibleSchema
      ∧ Digest.CollisionFree [s.statement.schemaLines, c.statement.schemaLines]
      ∧ c.accepts s = .ok () := by
  intro c s
  have hs : Reachable Registry.IsLoaded (fun _ => True) s.statement :=
    reachable_requestSaid isLoaded_letters rfl
  have hlegible : c.statement.LegibleSchema := by decide
  have hlegible' : s.statement.LegibleSchema := by decide
  have hsame : s.statement.SameSchema c.statement := ⟨rfl, List.Perm.swap "a" "b" [], .refl _⟩
  have hfree := Digest.collisionFree_of_eq hsame.schemaLines_eq
  exact ⟨hs, hlegible, hlegible', hfree,
    (accepts_exactly_what_fits hs hlegible hlegible' hfree).2
      ⟨rfl, fun _ => hsame.parameters.mem_iff, fun _ => hsame.columns.mem_iff, by decide⟩⟩

/-- A request for one text is accepted by an offer of two others, and has a value for neither. -/
theorem joined_names_are_accepted :
    ∃ (c : Capability) (s : Specification),
      Reachable Registry.IsLoaded (fun _ => True) c.statement
        ∧ Reachable Registry.IsLoaded (fun _ => True) s.statement
        ∧ Digest.CollisionFree [s.statement.schemaLines, c.statement.schemaLines]
        ∧ c.accepts s = .ok () ∧ c.statement.parameters.names = ["a", "b"]
        ∧ s.statement.parameters.names = ["a,b"] ∧ ¬ c.AdmitsValues s := by
  -- One name with a comma is joined to the same row as the two names.
  have hlines : (requestSaid [("a,b", "z")] []).schemaLines
      = (letterOffer []).statement.schemaLines := by
    have hrow : inOrder ["a,b"] = inOrder ["a", "b"] := by
      rw [inOrder_of_pairwise (by decide), inOrder_of_pairwise (by decide)]
      decide
    rw [schemaLines, schemaLines]
    exact congrArg (fun row => ["r:r", "p:" ++ row, "r:" ++ inOrder []]) hrow
  refine ⟨letterOffer [], ⟨requestSaid [("a,b", "z")] []⟩,
    reachable_letterOffer isLoaded_letters rfl, reachable_requestSaid isLoaded_letters rfl,
    Digest.collisionFree_of_eq hlines, ?_, rfl, rfl, by decide⟩
  refine accepts_eq_ok_iff.2 ⟨congrArg Digest.ofLines hlines, rfl, rfl⟩

end Capability

end Measurement
