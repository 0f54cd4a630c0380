/-
What the digest of a content says about statements that were read.

In a message a parameter tells either what it admits or which value it has, never
both, so among statements of one form nothing can be taken for the rest of a
constraint or of a value, and the colon between the two needs no care
(`toldApart_of_isRead`). Where an offer is compared with a request it does.

The registry is no part of the content by design. Otherwise the digest leaves in
doubt only what the text of a content does: where texts hold the marks that
stand between texts, two contents are one text (`content_digest_can_mislead`).
-/
import Measurement.Proofs.Message.Reading
import Measurement.Proofs.Statement.Content

set_option autoImplicit false

namespace Measurement.Message

open Measurement.Statement

/-! ## 1. Statements of one form -/

section

variable {kind : MessageKind} {n : Nat} {s : Statement}

theorem constraint_of_isRead (h : s.IsRead kind n) (hkind : kind.offers = false) :
    ∀ p ∈ s.parameters.values, p.constraint = .unconstrained := by
  intro p hp
  obtain ⟨e, he, rfl⟩ := List.mem_map.1 hp
  have hread := (h.parameters e he).2
  rw [ParameterIsRead, if_neg (by rw [hkind]; decide)] at hread
  exact hread.1

theorem value_of_isRead (h : s.IsRead kind n) (hkind : kind.offers = true) :
    ∀ p ∈ s.parameters.values, p.value = none := by
  intro p hp
  obtain ⟨e, he, rfl⟩ := List.mem_map.1 hp
  have hread := (h.parameters e he).2
  rw [ParameterIsRead, if_pos hkind] at hread
  exact hread.1

end

/-- What is said of parameters tells them apart if both statements are offers, or both requests. -/
theorem toldApart_of_isRead {kind other : MessageKind} {m n : Nat} {s t : Statement}
    (hs : s.IsRead kind m) (ht : t.IsRead other n)
    (hform : kind.offers ≠ other.offers → s.Comparable t) : s.ToldApart t := by
  by_cases hsame : kind.offers = other.offers
  · cases hkind : kind.offers with
    | true =>
      intro p hp q hq _ hsetting
      have hvalue : Value.textOrAbsent p.value = Value.textOrAbsent q.value := by
        rw [value_of_isRead hs hkind p hp, value_of_isRead ht (hsame ▸ hkind) q hq]
      exact ⟨settingText_inj_of_value hvalue hsetting, hvalue⟩
    | false =>
      refine Comparable.toldApart fun p hp q hq _ => Or.inl ?_
      rw [constraint_of_isRead hs hkind p hp, constraint_of_isRead ht (hsame ▸ hkind) q hq]
  · exact (hform hsame).toldApart

/-! ## 2. Digests of contents -/

/-- Statements of messages that were read have one digest only if they have one content, for
contents with one reading whose texts do not collide. -/
theorem content_of_read_statements (lookup lookup' : RegistryLookup) (j j' : Json) (m m' : Message)
    (kind kind' : MessageKind) (s t : Statement)
    (hm : ofJson lookup j = .ok m) (hm' : ofJson lookup' j' = .ok m')
    (hs : (kind, s) ∈ m.statements) (ht : (kind', t) ∈ m'.statements)
    (hlegible : s.Legible) (hlegible' : t.Legible)
    (hform : kind.offers ≠ kind'.offers → s.Comparable t)
    (hfree : Digest.CollisionFree [s.contentLines, t.contentLines])
    (hdigest : s.contentDigest = t.contentDigest) : s.SameContent t := by
  obtain ⟨n, hread, -⟩ := isRead_ofJson lookup j m hm _ hs
  obtain ⟨n', hread', -⟩ := isRead_ofJson lookup' j' m' hm' _ ht
  have htext := hfree _ List.mem_cons_self _ (List.mem_cons_of_mem _ List.mem_cons_self) hdigest
  exact sameContent_of_toldApart hlegible hlegible' (toldApart_of_isRead hread hread' hform) htext

/-- An element for texts of the registry `uri`. -/
def textElement (uri name : String) : Element := ⟨name, .string, none, uri⟩

/-- Registries of three texts, under any URI. -/
def lettered : RegistryLookup := fun uri =>
  .ok ⟨uri, 0, .ofList (["a", "b", "a,b"].map fun name => (name, textElement uri name))⟩

/-- A statement as it comes in a message. -/
def sheet (kind : MessageKind) (verb uri : String) (more : List (String × Json)) : Json :=
  .object ([(kind.name, .text verb), ("version", .natural messageVersion),
    ("registry", .text uri)] ++ more)

/-- A request with values for some texts that asks for some columns. -/
def requestSheet (values : List (String × String)) (columns : List String) : Json :=
  sheet .specification "v" "r"
    [("parameters", .object (values.map fun p => (p.1, .text p.2))),
      ("results", .array (columns.map .text))]

/-- What such a request says. -/
def requestSaid (values : List (String × String)) (columns : List String) : Statement :=
  { Statement.make "v" ⟨"r", 0, .ofList (["a", "b", "a,b"].map fun name =>
      (name, textElement "r" name))⟩ with
    parameters := .ofList (values.map fun p =>
      (p.1, ⟨textElement "r" p.1, .unconstrained, some (.string p.2)⟩))
    columns := .ofList (columns.map fun name => (name, .make (textElement "r" name))) }

/-- A label makes no difference to the digest, and nothing else differs. -/
theorem digest_of_labelled_request :
    let s := requestSaid [("a", "x")] ["b"]
    let t := { s with label := some "again" }
    ofJson lettered (requestSheet [("a", "x")] ["b"]) = .ok (.specification ⟨s⟩)
      ∧ ofJson lettered (sheet .specification "v" "r" [("label", .text "again"),
        ("parameters", .object [("a", .text "x")]), ("results", .array [.text "b"])])
        = .ok (.specification ⟨t⟩)
      ∧ (s.Legible ∧ t.Legible) ∧ Digest.CollisionFree [s.contentLines, t.contentLines]
      ∧ s.contentDigest = t.contentDigest ∧ s.SameContent t := by
  intro s t
  have hs : ofJson lettered (requestSheet [("a", "x")] ["b"]) = .ok (.specification ⟨s⟩) := rfl
  have ht : ofJson lettered (sheet .specification "v" "r" [("label", .text "again"),
      ("parameters", .object [("a", .text "x")]), ("results", .array [.text "b"])])
      = .ok (.specification ⟨t⟩) := rfl
  have hlegible : s.Legible := by decide
  have hlegible' : t.Legible := by decide
  have hfree : Digest.CollisionFree [s.contentLines, t.contentLines] := by
    have hlines : t.contentLines = s.contentLines := rfl
    rw [hlines]
    intro lines hl others ho _
    simp only [List.mem_cons, List.not_mem_nil, or_false, or_self] at hl ho
    rw [hl, ho]
  have hdigest : s.contentDigest = t.contentDigest := rfl
  refine ⟨hs, ht, ⟨hlegible, hlegible'⟩, hfree, hdigest, ?_⟩
  exact content_of_read_statements lettered lettered _ _ _ _ _ _ s t hs ht
    (List.mem_singleton.2 rfl) (List.mem_singleton.2 rfl) hlegible hlegible'
    (fun hne => absurd rfl hne) hfree hdigest

/-- What a content holds between its verb and where results are exported to, if that is all. -/
def betweenVerbAndExport : String := "\nw:now ... future\np:\nm:\nr:\ne:"

/-- Whether statements of two messages have one digest although they differ. -/
def Mistaken (j j' : Json) (differs : Statement → Statement → Prop) : Prop :=
  ∃ m m' kind kind' s t, ofJson lettered j = .ok m ∧ ofJson lettered j' = .ok m'
    ∧ (kind, s) ∈ m.statements ∧ (kind', t) ∈ m'.statements
    ∧ s.contentDigest = t.contentDigest ∧ differs s t

theorem contentDigest_eq {s t : Statement}
    (h : Digest.linesText s.contentLines = Digest.linesText t.contentLines) :
    s.contentDigest = t.contentDigest := by
  rw [contentDigest, contentDigest, Digest.ofLines, Digest.ofLines, h]

/-- One digest can stand for statements that name two registries, of which one is exported nowhere
and the other to no name, and where texts hold the marks that stand between texts also for two
verbs, two values, two constraints and two sets of columns. -/
theorem content_digest_can_mislead :
    Mistaken (sheet .specification "v" "r" []) (sheet .specification "v" "s" [])
        (fun s t => s.registry.uri ≠ t.registry.uri)
      ∧ Mistaken (sheet .specification "v" "r" [])
        (sheet .specification "v" "r" [("export", .text "")])
        (fun s t => s.exportUri ≠ t.exportUri)
      ∧ Mistaken (sheet .specification "v" "r" [("export", .text ("x" ++ betweenVerbAndExport))])
        (sheet .specification ("v" ++ betweenVerbAndExport ++ "x") "r" [])
        (fun s t => s.verb ≠ t.verb)
      ∧ Mistaken (requestSheet [("a", "x,b=*:y"), ("b", "z")] [])
        (requestSheet [("a", "x"), ("b", "y,b=*:z")] [])
        (fun s t => s.parameterValue? "b" ≠ t.parameterValue? "b")
      ∧ Mistaken (sheet .capability "v" "r" [("parameters", .object [("a", .text "*:x")])])
        (sheet .specification "v" "r" [("parameters", .object [("a", .text "x:*")])])
        (fun s t => (s.parameters.get? "a").map Parameter.constraint
          ≠ (t.parameters.get? "a").map Parameter.constraint)
      ∧ Mistaken (requestSheet [] ["a", "b"]) (requestSheet [] ["a,b"])
        (fun s t => s.columns.names = ["a", "b"] ∧ t.columns.names = ["a,b"]) := by
  refine ⟨?_, ?_, ?_, ?_, ?_, ?_⟩
  · refine ⟨_, _, _, _, _, _, rfl, rfl, List.mem_singleton.2 rfl, List.mem_singleton.2 rfl, rfl, ?_⟩
    decide
  · refine ⟨_, _, _, _, _, _, rfl, rfl, List.mem_singleton.2 rfl, List.mem_singleton.2 rfl, rfl, ?_⟩
    decide
  · refine ⟨_, _, _, _, _, _, rfl, rfl, List.mem_singleton.2 rfl, List.mem_singleton.2 rfl,
      contentDigest_eq ?_, ?_⟩
    · decide +kernel
    · decide
  · have hrow : inOrder ((requestSaid [("a", "x,b=*:y"), ("b", "z")] []).parameters.values.map
          parameterText)
        = inOrder ((requestSaid [("a", "x"), ("b", "y,b=*:z")] []).parameters.values.map
          parameterText) := by
      rw [inOrder_of_pairwise (by decide), inOrder_of_pairwise (by decide)]
      decide
    refine ⟨.specification ⟨requestSaid [("a", "x,b=*:y"), ("b", "z")] []⟩,
      .specification ⟨requestSaid [("a", "x"), ("b", "y,b=*:z")] []⟩, _, _, _, _, rfl, rfl,
      List.mem_singleton.2 rfl, List.mem_singleton.2 rfl, contentDigest_eq ?_, by decide⟩
    rw [contentLines, contentLines, hrow]
    rfl
  · refine ⟨_, _, _, _, _, _, rfl, rfl, List.mem_singleton.2 rfl, List.mem_singleton.2 rfl,
      contentDigest_eq ?_, ?_⟩
    · decide +kernel
    · decide +kernel
  · have hrow : inOrder (requestSaid [] ["a", "b"]).columns.names
        = inOrder (requestSaid [] ["a,b"]).columns.names := by
      rw [inOrder_of_pairwise (by decide), inOrder_of_pairwise (by decide)]
      decide
    refine ⟨.specification ⟨requestSaid [] ["a", "b"]⟩, .specification ⟨requestSaid [] ["a,b"]⟩,
      _, _, _, _, rfl, rfl, List.mem_singleton.2 rfl, List.mem_singleton.2 rfl,
      contentDigest_eq ?_, rfl, rfl⟩
    rw [contentLines, contentLines, hrow]
    rfl

end Measurement.Message
