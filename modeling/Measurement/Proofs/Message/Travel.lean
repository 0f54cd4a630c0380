/-
What becomes of a statement that was made here when it is written and read.

A written offer tells what parameters admit, a written request what they hold, and
neither tells the other. A scope is written in whole seconds of durations and
periods. So a statement is written like one that lacks what is not told
(`Statement.told`), and that one comes back as it is (`capability_comes_back`,
`specification_comes_back`), if the statement was built from texts and its scope is
one that texts can say.

The content has constraints as well as values. So an offer keeps its content on the
way, for it has no values, and a request keeps it if it constrains nothing
(`written_content_comes_back`). A request that does has another content when it
comes back, and with a relative scope another token (`constraints_stay_behind`).
-/
import Measurement.Scheduler
import Measurement.Proofs.Message.RoundTrip
import Measurement.Proofs.Statement.Acceptance

set_option autoImplicit false

namespace Measurement

/-! ## 1. Scopes as they are written -/

@[simp] theorem Span.text_asWritten (d : Span) : d.asWritten.text = d.text := by
  rw [text, write, asWritten, wholeSeconds_ofSeconds, Int.toNat_natCast]
  rfl

theorem Span.map_asWritten_of_isRead {o : Option Span} (h : ∀ d ∈ o, d.IsRead) :
    o.map asWritten = o := by
  cases o with
  | none => rfl
  | some d => rw [Option.map_some, asWritten_of_isRead (h d rfl)]

/-- The extent with a span in whole seconds. -/
def Extent.asWritten : Extent → Extent
  | .lasting d => .lasting d.asWritten
  | e => e

/-- The inner scope with spans in whole seconds. -/
def Inner.asWritten (i : Inner) : Inner :=
  ⟨i.duration.map Span.asWritten, i.period.map Span.asWritten⟩

theorem Inner.asWritten_of_isRead {i : Inner} (h : i.IsRead) : i.asWritten = i := by
  rw [asWritten, Span.map_asWritten_of_isRead h.duration, Span.map_asWritten_of_isRead h.period]

/-- The cadence with spans in whole seconds. -/
def Cadence.asWritten : Cadence → Cadence
  | .once period => .once (period.map Span.asWritten)
  | .every period inner => .every period.asWritten inner.asWritten
  | .cron table inner => .cron table inner.asWritten

namespace Scope

/-- The scope with spans in whole seconds. -/
def asWritten (s : Scope) : Scope :=
  { s with extent := s.extent.asWritten, cadence := s.cadence.asWritten }

/-- A scope that was read is written in full. -/
theorem asWritten_of_isRead {s : Scope} (h : s.IsRead) : s.asWritten = s := by
  obtain ⟨start, extent, cadence⟩ := s
  have hextent : extent.asWritten = extent := by
    cases extent with
    | lasting d => exact congrArg Extent.lasting (Span.asWritten_of_isRead h.extent)
    | _ => rfl
  have hcadence : cadence.asWritten = cadence := by
    have hread := h.cadence
    cases cadence with
    | once period => exact congrArg Cadence.once (Span.map_asWritten_of_isRead hread)
    | every period inner =>
      rw [Cadence.asWritten, Span.asWritten_of_isRead hread.1, Inner.asWritten_of_isRead hread.2]
    | cron table inner => rw [Cadence.asWritten, Inner.asWritten_of_isRead hread.2]
  rw [asWritten, hextent, hcadence]

theorem periodText_asWritten (o : Option Span) :
    periodText (o.map Span.asWritten) = periodText o := by
  cases o with
  | none => rfl
  | some d => rw [Option.map_some, periodText, Span.text_asWritten, periodText]

theorem innerText_asWritten (i : Inner) : innerText i.asWritten = innerText i := by
  obtain ⟨duration, period⟩ := i
  cases duration with
  | none => simp only [innerText, Inner.asWritten, Option.map_none, periodText_asWritten]
  | some d =>
    simp only [innerText, Inner.asWritten, Option.map_some, periodText_asWritten,
      Span.text_asWritten]

/-- What is below a second in a span is not written. -/
theorem text_asWritten (s : Scope) : s.asWritten.text = s.text := by
  obtain ⟨start, extent, cadence⟩ := s
  have hextent : extentText extent.asWritten = extentText extent := by
    cases extent with
    | lasting d => simp only [Extent.asWritten, extentText, Span.text_asWritten]
    | _ => rfl
  cases cadence with
  | once period =>
    simp only [text, asWritten, Cadence.asWritten, period?, hextent, periodText_asWritten]
  | every period inner =>
    have hperiod : periodText (some period.asWritten) = periodText (some period) :=
      periodText_asWritten (some period)
    simp only [text, asWritten, Cadence.asWritten, period?, hextent, hperiod, innerText_asWritten]
  | cron table inner =>
    simp only [text, asWritten, Cadence.asWritten, period?, hextent, innerText_asWritten]

theorem isDefinite_asWritten (s : Scope) : s.asWritten.isDefinite = s.isDefinite := by
  obtain ⟨start, extent, cadence⟩ := s
  cases extent <;> cases cadence <;> rfl

theorem isDefinite_toMicros (s : Scope) : s.toMicros.isDefinite = s.isDefinite := by
  have hfixed : ∀ b : Bound, b.toMicros.isFixed = b.isFixed := fun b => by cases b <;> rfl
  obtain ⟨start, extent, cadence⟩ := s
  cases extent with
  | through last =>
    simp only [isDefinite, isRepeated, inner?, last?, toMicros, Extent.toMicros, hfixed,
      Option.all_some]
  | _ => simp only [isDefinite, isRepeated, inner?, last?, toMicros, Extent.toMicros, hfixed]

end Scope

/-! ## 2. What is told -/

namespace Parameter

theorem mem_values_of_freed (p : Parameter) : ∀ v ∈ p.freed.values, v ∈ p.values :=
  fun _ hv => List.mem_append_right _ hv

theorem mem_values_of_cleared (p : Parameter) : ∀ v ∈ p.cleared.values, v ∈ p.values := by
  intro v hv
  obtain hv | hv := List.mem_append.1 hv
  · exact List.mem_append_left _ hv
  · exact absurd hv List.not_mem_nil

/-- Without its constraint a parameter can be read from a request, if its value was read from some
text. The text for no value says that there is none, so that text may not be the value. -/
theorem isRequest_freed {p : Parameter}
    (hread : ∀ v ∈ p.value, ∃ text, Value.read p.primitive text = .ok v)
    (hstar : p.value ≠ some (.string absent)) : p.freed.IsRequest := by
  refine ⟨rfl, ?_⟩
  cases hv : p.value with
  | none => exact ⟨absent, hv ▸ rfl⟩
  | some v =>
    obtain ⟨text, htext⟩ := hread v hv
    refine ⟨text, ?_⟩
    rw [freed, hv]
    exact Value.readOptional_of_read htext fun he => hstar (hv.trans (congrArg some he))

end Parameter

namespace Statement

variable {s : Statement} {f : Parameter → Parameter}

/-- What the written form of a statement tells, where `f` leaves of a parameter what is told of it:
there are no rows, and the token is that of the statement. -/
def told (s : Statement) (f : Parameter → Parameter) : Statement :=
  { s with
    givenToken := some s.token
    scope := s.scope.asWritten
    parameters := s.parameters.map f
    columns := s.columns.map Column.cleared }

theorem token_told (s : Statement) (f : Parameter → Parameter) : (s.told f).token = s.token :=
  token_of_given rfl

theorem parameters_told (s : Statement) (f : Parameter → Parameter) :
    (s.told f).parameters.values = s.parameters.values.map f := Table.values_map _ _

theorem columnNames_told (s : Statement) (f : Parameter → Parameter) :
    (s.told f).columns.names = s.columns.names := Table.names_map _ _

theorem scopeText_told (s : Statement) (f : Parameter → Parameter) :
    (s.told f).scope.text = s.scope.text := Scope.text_asWritten _

/-- A statement is written like what is told of it. -/
theorem members_told (s : Statement) (kind : MessageKind) {parameter : Parameter → String}
    (h : ∀ p, parameter (f p) = parameter p) :
    (s.told f).members kind parameter = s.members kind parameter := by
  have hparameters : tableMembers (s.told f).parameters parameter
      = tableMembers s.parameters parameter := tableMembers_map _ h
  rw [members, members, hparameters, columnNames_told, scopeText_told, token_told]
  rfl

theorem offerMembers_told (s : Statement) (kind : MessageKind) :
    (s.told Parameter.cleared).offerMembers kind = s.offerMembers kind :=
  s.members_told kind fun _ => rfl

theorem requestMembers_told (s : Statement) (kind : MessageKind) :
    (s.told Parameter.freed).requestMembers kind = s.requestMembers kind :=
  s.members_told kind fun _ => rfl

/-- The content of what is told is that of the statement, up to what is not told of parameters. -/
theorem contentLines_told (s : Statement) (f : Parameter → Parameter) :
    (s.told f).contentLines = { s with parameters := s.parameters.map f }.contentLines := by
  rw [contentLines, contentLines, columnNames_told, scopeText_told]
  rfl

/-- Times that are cut down to microseconds leave the content as it is. -/
theorem contentLines_settled (s : Statement) : s.settled.contentLines = s.contentLines := by
  have hparameters : s.settled.parameters.values.map parameterText
      = s.parameters.values.map parameterText := by
    have hvalues : s.settled.parameters.values = s.parameters.values.map Parameter.toMicros :=
      Table.values_map _ _
    rw [hvalues, List.map_map]
    refine List.map_congr_left fun p _ => ?_
    rw [Function.comp_apply, parameterText, parameterText]
    simp only [Parameter.toMicros, Constraint.text_toMicros, Value.textOrAbsent_toMicros]
    rfl
  have hmetadata : s.settled.metadata.values.map metadataText
      = s.metadata.values.map metadataText := by
    have hvalues : s.settled.metadata.values = s.metadata.values.map Metavalue.toMicros :=
      Table.values_map _ _
    rw [hvalues, List.map_map]
    refine List.map_congr_left fun m _ => ?_
    rw [Function.comp_apply, metadataText, metadataText]
    simp only [Metavalue.toMicros, Value.text_toMicros]
    rfl
  rw [contentLines, contentLines, hparameters, hmetadata, columnNames_settled, scopeText_settled]
  rfl

/-- What is told of values in a statement are values in it. -/
theorem mem_values_of_told (hf : ∀ p, ∀ v ∈ (f p).values, v ∈ p.values) {v : Value}
    (h : v ∈ (s.told f).values) : v ∈ s.values := by
  rw [values, List.mem_append, List.mem_append] at h
  obtain (h | h) | h := h
  · obtain ⟨q, hq, hv⟩ := List.mem_flatMap.1 h
    rw [parameters_told] at hq
    obtain ⟨p, hp, rfl⟩ := List.mem_map.1 hq
    exact mem_values_of_parameter hp (hf p v hv)
  · obtain ⟨m, hm, rfl⟩ := List.mem_map.1 h
    exact mem_values_of_metadata hm
  · -- There are no rows, and so no values in columns.
    obtain ⟨d, hd, hv⟩ := List.mem_flatMap.1 h
    have hvalues : (s.told f).columns.values = s.columns.values.map Column.cleared :=
      Table.values_map _ _
    rw [hvalues] at hd
    obtain ⟨c, -, rfl⟩ := List.mem_map.1 hd
    exact absurd hv List.not_mem_nil

/-- What is told of a statement with elements of its registry is as it can be read, if its scope
and its metadata are, and its parameters are told as they can be read. -/
theorem isRead_told {kind : MessageKind} (hplaced : placed.Holds s)
    (hmetadata : ∀ e ∈ s.metadata.entries, e.2.IsRead)
    (hscope : ∃ text, Scope.read text = .ok s.scope.asWritten)
    (helement : ∀ p, (f p).element = p.element)
    (hparameters : ∀ e ∈ s.parameters.entries, ParameterIsRead kind (f e.2)) :
    (s.told f).IsRead kind 0 where
  scope := Or.inr hscope
  parameters e he := by
    obtain ⟨a, ha, rfl⟩ := List.mem_map.1 he
    refine ⟨?_, hparameters a ha⟩
    rw [helement]
    exact hplaced.parameters a ha
  metadata e he := ⟨hplaced.metadata e he, hmetadata e he⟩
  columns e he := by
    obtain ⟨a, ha, rfl⟩ := List.mem_map.1 he
    exact ⟨hplaced.columns a ha, fun v hv => absurd hv (Array.not_mem_empty v)⟩
  sizes e he := by
    obtain ⟨a, -, rfl⟩ := List.mem_map.1 he
    rfl

/-- What a statement needs to come back from its written form: its registry is found under its URI,
its scope is one that a text says, and the texts of its real numbers and addresses are read back. -/
structure Travels (lookup : RegistryLookup) (s : Statement) : Prop where
  registry : lookup s.registry.uri = .ok s.registry
  scope : ∃ text, Scope.read text = .ok s.scope.asWritten
  values : ∀ v ∈ s.values, v.ReadsBack

/-- A scope that was read is one that a text says, if its times have no part below a microsecond. -/
theorem Travels.of_isRead {lookup : RegistryLookup}
    (hregistry : lookup s.registry.uri = .ok s.registry) (hscope : s.scope.IsRead)
    (htimes : ∀ t ∈ s.scope.times, t.nano % 1000 = 0) (hvalues : ∀ v ∈ s.values, v.ReadsBack) :
    s.Travels lookup := by
  refine ⟨hregistry, ⟨s.scope.text, ?_⟩, hvalues⟩
  rw [Scope.asWritten_of_isRead hscope, Scope.read_text hscope, Scope.toMicros_of_whole htimes]

end Statement

/-! ## 3. What comes back -/

namespace Message

open Statement

variable {lookup : RegistryLookup} {loaded : Registry → Prop}

/-- A capability that was built from texts comes back without the values of its parameters. -/
theorem capability_comes_back {c : Capability} (hc : Reachable loaded Operation.IsText c.statement)
    (h : c.statement.Travels lookup)
    (honce : ∀ p ∈ c.statement.parameters.values, p.primitive = .string → p.constraint.CutsOnce) :
    ofJson lookup (capability c).toJson
      = .ok (capability ⟨(c.statement.told Parameter.cleared).settled⟩) := by
  obtain ⟨-, hplaced⟩ := placed_of_reachable hc
  have htexts := fromTexts_of_reachable hc
  have hread : (c.statement.told Parameter.cleared).IsRead .capability 0 := by
    refine isRead_told hplaced htexts.metadata h.scope (fun _ => rfl) fun e he => ?_
    rw [ParameterIsRead, if_pos (by decide)]
    exact ⟨rfl, (htexts.parameters e he).1⟩
  have hvalues : ∀ v ∈ (c.statement.told Parameter.cleared).values, v.ReadsBack :=
    fun v hv => h.values v (mem_values_of_told Parameter.mem_values_of_cleared hv)
  have honce' : ∀ p ∈ (c.statement.told Parameter.cleared).parameters.values,
      p.primitive = .string → p.constraint.CutsOnce := by
    intro p hp
    rw [parameters_told] at hp
    obtain ⟨q, hq, rfl⟩ := List.mem_map.1 hp
    exact honce q hq
  -- The statement is written like what is told of it, and that is read as it is.
  have hstatement := readStatement_offerMembers_of_cutsOnce rfl hread h.registry hvalues honce'
  rw [offerMembers_told] at hstatement
  obtain ⟨contents, hjson⟩ :=
    ofJson_members lookup c.statement .capability fun p => p.constraint.text
  rw [toJson, offerMembers, hjson, readKind, ← offerMembers, hstatement]
  rfl

/-- A specification that was built from texts comes back without the constraints of its
parameters. -/
theorem specification_comes_back {s : Specification}
    (hs : Reachable loaded Operation.IsText s.statement) (h : s.statement.Travels lookup)
    (hstar : ∀ p ∈ s.statement.parameters.values, p.value ≠ some (.string absent)) :
    ofJson lookup (specification s).toJson
      = .ok (specification ⟨(s.statement.told Parameter.freed).settled⟩) := by
  obtain ⟨-, hplaced⟩ := placed_of_reachable hs
  have htexts := fromTexts_of_reachable hs
  have hread : (s.statement.told Parameter.freed).IsRead .specification 0 := by
    refine isRead_told hplaced htexts.metadata h.scope (fun _ => rfl) fun e he => ?_
    rw [ParameterIsRead, if_neg (by decide)]
    exact Parameter.isRequest_freed (fun v hv => ((htexts.parameters e he).2 v hv).1)
      (hstar e.2 (List.mem_map_of_mem he))
  have hvalues : ∀ v ∈ (s.statement.told Parameter.freed).values, v.ReadsBack :=
    fun v hv => h.values v (mem_values_of_told Parameter.mem_values_of_freed hv)
  have hback : ComesBack lookup .specification (s.statement.told Parameter.freed) :=
    ⟨⟨0, hread, fun _ => rfl⟩, h.registry, fun hkind => (by cases hkind), hvalues⟩
  have hstatement := readStatement_request rfl (by decide) hback
  rw [requestMembers_told] at hstatement
  obtain ⟨contents, hjson⟩ :=
    ofJson_members lookup s.statement .specification fun p => Value.textOrAbsent p.value
  rw [toJson, requestMembers, hjson, readKind, ← requestMembers, hstatement]
  rfl

/-! ## 4. Content -/

/-- What comes back of a statement has the content that is told of it. -/
theorem contentDigest_settled_told (s : Statement) (f : Parameter → Parameter) :
    (s.told f).settled.contentDigest
      = { s with parameters := s.parameters.map f }.contentDigest := by
  rw [contentDigest, contentDigest, contentLines_settled, contentLines_told]

theorem token_retoken (s : Specification) (t : Instant) :
    (s.retoken t).token = s.statement.contentDigestAt t := token_of_given rfl

/-- Nothing is lost of a capability whose parameters have no values. -/
theorem contentDigest_of_capability {c : Capability} (h : c.validate = .ok ()) :
    (c.statement.told Parameter.cleared).settled.contentDigest = c.statement.contentDigest := by
  have hnone : ∀ p ∈ c.statement.parameters.values, p.cleared = p := by
    intro p hp
    have hvalue : p.hasValue = false := by
      rw [Capability.validate] at h
      split at h
      · cases h
      · rename_i hfind
        exact Bool.eq_false_iff.2 (List.find?_eq_none.1 hfind p hp)
    rw [Parameter.hasValue, Option.isSome_eq_false_iff, Option.isNone_iff_eq_none] at hvalue
    rw [Parameter.cleared, ← hvalue]
  rw [contentDigest_settled_told, Table.map_of_forall hnone]

/-- The content and the tokens of offers and of requests that were built from texts, as they come
back from their written forms. An offer comes back with its content, a request with its own token
and with the content that it has without its constraints. If it has none, it gets the token that it
would have got here, whenever that is made; and so it does with a definite scope, for then it keeps
the token that it has. -/
theorem written_content_comes_back (lookup : RegistryLookup) :
    (∀ c : Capability, Reachable (fun _ => True) Operation.IsText c.statement →
      c.statement.Travels lookup → c.validate = .ok () →
      (∀ p ∈ c.statement.parameters.values, p.primitive = .string → p.constraint.CutsOnce) →
      ∃ d : Capability, ofJson lookup (capability c).toJson = .ok (capability d)
        ∧ d.token = c.token ∧ d.statement.contentDigest = c.statement.contentDigest)
    ∧ ∀ s : Specification, Reachable (fun _ => True) Operation.IsText s.statement →
      s.statement.Travels lookup →
      (∀ p ∈ s.statement.parameters.values, p.value ≠ some (.string absent)) →
      ∃ r : Specification, ofJson lookup (specification s).toJson = .ok (specification r)
        ∧ r.token = s.token
        ∧ r.statement.contentDigest = s.statement.freeParameters.contentDigest
        ∧ (s.statement.freeParameters = s.statement →
          r.statement.contentDigest = s.statement.contentDigest
            ∧ ∀ t, (r.retoken t).token = (s.retoken t).token)
        ∧ ((s.scope.isDefinite = true ∨ s.statement.freeParameters = s.statement) →
          ∀ t, (Scheduler.pinned r t).token = (Scheduler.pinned s t).token) := by
  constructor
  · intro c hc htravels hvalid honce
    refine ⟨_, capability_comes_back hc htravels honce, ?_, contentDigest_of_capability hvalid⟩
    rw [Capability.token, Capability.token, token_settled, token_told]
  · intro s hs htravels hstar
    refine ⟨_, specification_comes_back hs htravels hstar, ?_⟩
    generalize hr : (s.statement.told Parameter.freed).settled = r
    have htoken : r.token = s.statement.token := by
      rw [← hr, token_settled, token_told]
    have hdigest : r.contentDigest = s.statement.freeParameters.contentDigest := by
      rw [← hr, contentDigest_settled_told]
      rfl
    have hretoken : s.statement.freeParameters = s.statement →
        ∀ t, ((Specification.mk r).retoken t).token = (s.retoken t).token := by
      intro hfree t
      rw [token_retoken, token_retoken, contentDigestAt, contentDigestAt,
        hdigest, hfree]
    have hdefinite : (Specification.mk r).scope.isDefinite = s.scope.isDefinite := by
      have hscope : r.scope = s.statement.scope.asWritten.toMicros := by rw [← hr]; rfl
      rw [Specification.scope, hscope, Scope.isDefinite_toMicros, Scope.isDefinite_asWritten]
      rfl
    refine ⟨htoken, hdigest, fun hfree => ⟨by rw [hdigest, hfree], hretoken hfree⟩, ?_⟩
    intro h t
    rw [Scheduler.pinned, Scheduler.pinned, hdefinite]
    by_cases hd : s.scope.isDefinite = true
    · rw [if_pos hd, if_pos hd]
      exact htoken
    · rw [if_neg hd, if_neg hd]
      exact hretoken (h.resolve_left hd) t

/-- Statements about two of the texts travel, for what they say has no numbers and no addresses. -/
theorem travels_letters {s : Statement} (hregistry : s.registry = Capability.letters)
    (hscope : s.scope = .nowToFuture) (hvalues : ∀ v ∈ s.values, v.ReadsBack) :
    s.Travels lettered := by
  refine .of_isRead ?_ ?_ ?_ hvalues
  · rw [hregistry]
    rfl
  · rw [hscope]
    exact Scope.isRead_nowToFuture
  · rw [hscope]
    intro t ht
    cases ht

/-- An offer with a choice of texts, and a request that names its texts without one. -/
theorem letters_come_back :
    let c := Capability.letterOffer ["b"]
    let s : Specification := ⟨requestSaid [("b", "z"), ("a", "y")] ["b"]⟩
    (Reachable (fun _ => True) Operation.IsText c.statement ∧ c.statement.Travels lettered
        ∧ c.validate = .ok ()
        ∧ ∀ p ∈ c.statement.parameters.values, p.primitive = .string → p.constraint.CutsOnce)
      ∧ (Reachable (fun _ => True) Operation.IsText s.statement ∧ s.statement.Travels lettered
        ∧ ∀ p ∈ s.statement.parameters.values, p.value ≠ some (.string absent))
      ∧ (∃ d : Capability, ofJson lettered (capability c).toJson = .ok (capability d)
        ∧ d.statement.contentDigest = c.statement.contentDigest)
      ∧ ∃ r : Specification, ofJson lettered (specification s).toJson = .ok (specification r)
        ∧ ∀ t, (r.retoken t).token = (s.retoken t).token := by
  intro c s
  have hc : Reachable (fun _ => True) Operation.IsText c.statement :=
    Capability.reachable_letterOffer trivial rfl
  have hs : Reachable (fun _ => True) Operation.IsText s.statement :=
    Capability.reachable_requestSaid trivial rfl
  have htravels : c.statement.Travels lettered := travels_letters rfl rfl (by decide)
  have htravels' : s.statement.Travels lettered := travels_letters rfl rfl (by decide)
  have hranges : ∀ p ∈ c.statement.parameters.values, p.constraint.isRange = false := by decide
  have honce : ∀ p ∈ c.statement.parameters.values, p.primitive = .string →
      p.constraint.CutsOnce := fun p hp _ =>
    Constraint.cutsOnce_of_isRange_eq_false (hranges p hp)
  have hstar : ∀ p ∈ s.statement.parameters.values, p.value ≠ some (.string absent) := by decide
  obtain ⟨d, hd, -, hdigest⟩ :=
    (written_content_comes_back lettered).1 c hc htravels rfl honce
  obtain ⟨r, hr, -, -, hfree, -⟩ := (written_content_comes_back lettered).2 s hs htravels' hstar
  exact ⟨⟨hc, htravels, rfl, honce⟩, ⟨hs, htravels', hstar⟩, ⟨d, hd, hdigest⟩, r, hr, (hfree rfl).2⟩

/-- A request of an offer with a choice, with values for its texts. -/
def chosenRequest : Specification :=
  ⟨{ (Capability.letterOffer []).statement with
    parameters := .ofList
      [("a", ⟨textElement "r" "a", .set [.string "x", .string "y"], some (.string "x")⟩),
        ("b", ⟨textElement "r" "b", .unconstrained, some (.string "z")⟩)] }⟩

theorem reachable_chosenRequest {loaded : Registry → Prop}
    (hloaded : loaded Capability.letters) :
    Reachable loaded Operation.IsText chosenRequest.statement := by
  have hoffer : Reachable loaded Operation.IsText (Capability.letterOffer []).statement :=
    Capability.reachable_letterOffer hloaded rfl
  have hrequest := Reachable.apply (.setParameterText "b" "z") trivial
    (.apply (.setParameterText "a" "x") trivial (.apply .specify trivial hoffer))
  exact hrequest

theorem contentLines_chosenRequest :
    chosenRequest.statement.contentLines
        = ["v:v", "w:now ... future", "p:a=x,y:x,b=*:z", "m:", "r:", "e:"]
      ∧ chosenRequest.statement.freeParameters.contentLines
        = ["v:v", "w:now ... future", "p:a=*:x,b=*:z", "m:", "r:", "e:"] := by
  have hnone : inOrder [] = "" := by
    rw [inOrder_of_pairwise List.Pairwise.nil]
    rfl
  have hchosen : inOrder (chosenRequest.statement.parameters.values.map parameterText)
      = "a=x,y:x,b=*:z" := by
    rw [inOrder_of_pairwise (by decide +kernel)]
    decide +kernel
  have hfreed : inOrder (chosenRequest.statement.freeParameters.parameters.values.map parameterText)
      = "a=*:x,b=*:z" := by
    rw [inOrder_of_pairwise (by decide +kernel)]
    decide +kernel
  rw [contentLines, contentLines, hchosen, hfreed]
  exact ⟨congrArg (fun row => ["v:v", "w:now ... future", "p:a=x,y:x,b=*:z", "m:" ++ row,
      "r:" ++ row, "e:"]) hnone,
    congrArg (fun row => ["v:v", "w:now ... future", "p:a=*:x,b=*:z", "m:" ++ row,
      "r:" ++ row, "e:"]) hnone⟩

/-- A complete request without times comes back with another content and gets another token for an
instant, because what it was constrained to is not told. -/
theorem constraints_stay_behind :
    ∃ s r : Specification, Reachable Registry.IsLoaded Operation.IsText s.statement
      ∧ s.statement.Travels lettered ∧ s.validate = .ok () ∧ s.statement.times = []
      ∧ (∀ v ∈ s.statement.values, v ≠ .string absent)
      ∧ ofJson lettered (specification s).toJson = .ok (specification r)
      ∧ r.statement.contentDigest ≠ s.statement.contentDigest
      ∧ (r.retoken .epoch).token ≠ (s.retoken .epoch).token := by
  have hs := reachable_chosenRequest Capability.isLoaded_letters
  have htravels : chosenRequest.statement.Travels lettered := travels_letters rfl rfl (by decide)
  obtain ⟨hchosen, hfreed⟩ := contentLines_chosenRequest
  -- What comes back has the lines of the request without its constraints.
  have hdigest : (chosenRequest.statement.told Parameter.freed).settled.contentDigest
      = Digest.ofLines ["v:v", "w:now ... future", "p:a=*:x,b=*:z", "m:", "r:", "e:"] := by
    rw [contentDigest_settled_told, contentDigest, ← hfreed]
    rfl
  refine ⟨chosenRequest, _, hs, htravels, rfl, rfl, by decide,
    specification_comes_back hs htravels (by decide), ?_, ?_⟩
  · rw [hdigest, contentDigest, hchosen]
    decide +kernel
  · rw [token_retoken, token_retoken, contentDigestAt, contentDigestAt, hdigest, contentDigest,
      hchosen]
    decide +kernel

end Message

end Measurement
