/-
Requests that share a job ask for the same.

A scheduler joins a specification to the job that stands under its token. The
token is a digest of the content, and for a relative scope of the second of
admission too, so that requests with one token have one content, as far as
digests do not collide and contents can be read in one way only. By collisions
is meant here that two texts have one digest of those that are hashed for the
specifications of a history; that there are none at all would be false.

There are limits to this that are meant to be. A specification with a definite
scope keeps the token that it came with, and whoever chooses it chooses the job
(`ChoosesKey`). The content leaves out the registry, so that this is the same
only for services of one schema. And it holds values and scopes as they are
written, an instant down to the microsecond.
-/
import Measurement.Proofs.Statement.Acceptance
import Measurement.Proofs.Scheduler.Admission
import Measurement.Proofs.Job.Replies

set_option autoImplicit false

namespace Measurement

/-! ## 1. Texts that are hashed -/

namespace Specification

/-- The lines that are hashed for a specification at an instant. -/
def hashed (s : Specification) (t : Instant) : List (List String) :=
  [s.statement.schemaLines, s.statement.contentLines,
    [s.statement.contentDigest, "t:" ++ t.wholeSecond.text]]

/-- Whether a specification determines its job by a token of its own, which is not the digest of
its content. With a relative scope it does not: its token is made anew. -/
def ChoosesKey (s : Specification) : Prop :=
  s.scope.isDefinite = true ∧ s.token ≠ s.statement.contentDigest

end Specification

namespace Scheduler

/-- The specifications that were submitted in a history, with the instants of submission. -/
def submitted (h : List (Reading × Action)) : List (Specification × Instant) :=
  h.filterMap fun e => match e.2 with
    | .receive _ _ (.specification s) => some (s, e.1.wall)
    | _ => none

/-- The lines that are hashed for the specifications of a history. -/
def hashed (h : List (Reading × Action)) : List (List String) :=
  (submitted h).flatMap fun p => p.1.hashed p.2

theorem mem_submitted {before later : List (Reading × Action)} {now armed : Reading}
    {identity : String} {s : Specification} : (s, now.wall) ∈
      submitted (before ++ (now, .receive armed identity (.specification s)) :: later) :=
  List.mem_filterMap.2 ⟨_, List.mem_append_right before List.mem_cons_self, rfl⟩

theorem mem_hashed {h : List (Reading × Action)} {s : Specification} {t : Instant}
    (hs : (s, t) ∈ submitted h) {lines : List String} (hl : lines ∈ s.hashed t) :
    lines ∈ hashed h :=
  List.mem_flatMap.2 ⟨(s, t), hs, hl⟩

/-! ## 2. Tokens -/

theorem token_pinned_definite {s : Specification} {t : Instant} (h : s.scope.isDefinite = true)
    (hs : ¬ s.ChoosesKey) : (pinned s t).token = s.statement.contentDigest := by
  rw [pinned, if_pos h]
  by_contra hne
  exact hs ⟨h, hne⟩

theorem token_pinned_relative {s : Specification} {t : Instant} (h : s.scope.isDefinite = false) :
    (pinned s t).token = s.statement.contentDigestAt t := by
  rw [pinned, if_neg (by rw [h]; decide)]
  exact Statement.token_of_given rfl

/-- The lines of a content are not those that are hashed for a relative scope. -/
theorem contentLines_ne (s t : Statement) (seconds : String) :
    Digest.linesText s.contentLines ≠ Digest.linesText [t.contentDigest, seconds] := by
  have hhead : ("v:" ++ s.verb).toList = 'v' :: ':' :: s.verb.toList := by simp
  exact Digest.linesText_ne_of_head hhead (by decide) (by decide) _ _ _

/-- Specifications with one token that did not choose it have one content, and both have a definite
scope or were admitted within one second. -/
theorem contents_of_token_eq {s s₀ : Specification} {t t₀ : Instant} {texts : List (List String)}
    (hfree : Digest.CollisionFree texts) (h₀ : ∀ lines ∈ s₀.hashed t₀, lines ∈ texts)
    (h : ∀ lines ∈ s.hashed t, lines ∈ texts) (hk₀ : ¬ s₀.ChoosesKey) (hk : ¬ s.ChoosesKey)
    (he : (pinned s₀ t₀).token = (pinned s t).token) :
    s₀.scope.isDefinite = s.scope.isDefinite
      ∧ (s.scope.isDefinite = false → t₀.wholeSecond.text = t.wholeSecond.text)
      ∧ Digest.linesText s₀.statement.contentLines = Digest.linesText s.statement.contentLines := by
  have hcontent₀ := h₀ s₀.statement.contentLines (by simp [Specification.hashed])
  have hcontent := h s.statement.contentLines (by simp [Specification.hashed])
  have hseconds₀ := h₀ [s₀.statement.contentDigest, "t:" ++ t₀.wholeSecond.text]
    (by simp [Specification.hashed])
  have hseconds := h [s.statement.contentDigest, "t:" ++ t.wholeSecond.text]
    (by simp [Specification.hashed])
  cases hd₀ : s₀.scope.isDefinite
  · rw [token_pinned_relative hd₀] at he
    cases hd : s.scope.isDefinite
    · rw [token_pinned_relative hd] at he
      have htext := hfree _ hseconds₀ _ hseconds he
      obtain ⟨hdigest, htime⟩ := Digest.linesText_cons_inj
        (Digest.lineBreak_not_mem_ofLines _) (Digest.lineBreak_not_mem_ofLines _) htext
      refine ⟨rfl, fun _ => ?_, hfree _ hcontent₀ _ hcontent hdigest⟩
      exact (String.append_right_inj _).1 (Digest.linesText_singleton_inj htime)
    · -- A content never reads as a digest with a time, so the two tokens differ.
      rw [token_pinned_definite hd hk] at he
      have htext := hfree _ hcontent _ hseconds₀ he.symm
      exact absurd htext (contentLines_ne _ _ _)
  · rw [token_pinned_definite hd₀ hk₀] at he
    cases hd : s.scope.isDefinite
    · rw [token_pinned_relative hd] at he
      have htext := hfree _ hcontent₀ _ hseconds he
      exact absurd htext (contentLines_ne _ _ _)
    · rw [token_pinned_definite hd hk] at he
      exact ⟨rfl, fun hf => absurd hf (by decide), hfree _ hcontent₀ _ hcontent he⟩

theorem schemaDigest_of_accepts {c : Capability} {s : Specification} (h : c.accepts s = .ok ()) :
    s.statement.schemaDigest = c.statement.schemaDigest := (Capability.accepts_eq_ok_iff.1 h).1

/-- Statements with one schema name one registry. -/
theorem uri_of_schemaDigest {s s₀ : Specification} {t t₀ : Instant} {texts : List (List String)}
    (hfree : Digest.CollisionFree texts) (h₀ : ∀ lines ∈ s₀.hashed t₀, lines ∈ texts)
    (h : ∀ lines ∈ s.hashed t, lines ∈ texts)
    (hu₀ : '\n' ∉ s₀.statement.registry.uri.toList) (hu : '\n' ∉ s.statement.registry.uri.toList)
    (he : s₀.statement.schemaDigest = s.statement.schemaDigest) :
    s₀.statement.registry.uri = s.statement.registry.uri := by
  have hschema₀ := h₀ s₀.statement.schemaLines (by simp [Specification.hashed])
  have hschema := h s.statement.schemaLines (by simp [Specification.hashed])
  exact Statement.uri_of_linesText hu₀ hu (hfree _ hschema₀ _ hschema he)

/-! ## 3. Jobs that are shared -/

theorem Origin.mem_submitted {a : Authorizer} {h : List (Reading × Action)} {j : Job}
    (o : Origin a h j) : (o.specification, o.now.wall) ∈ submitted h := by
  have hmem : (o.specification, o.now.wall) ∈ submitted
      (o.before
        ++ (o.now, .receive o.armed o.identity (.specification o.specification)) :: o.later) :=
    Scheduler.mem_submitted
  rwa [← o.split] at hmem

theorem registry_pinned (s : Specification) (t : Instant) :
    (pinned s t).statement.registry = s.statement.registry := by
  unfold pinned
  split <;> rfl

theorem sameContent_pinned {s : Specification} {u : Statement} (h : s.statement.SameContent u)
    (t : Instant) : (pinned s t).statement.SameContent u := by
  unfold pinned
  split
  · exact h
  · exact ⟨h.verb, h.scope, h.parameters, h.metadata, h.columns, h.exportUri⟩

/-- A receipt is that of the job which stands under its token in the table of the history that ends
with the submission. -/
theorem receipt_of_reply (a : Authorizer) (h : List (Reading × Action)) {now armed : Reading}
    {identity : String} {s : Specification} {r : Receipt}
    (hreply : (((empty a).run h).submit now armed identity s).1 = .receipt r) :
    ∃ j, r = j.receipt ∧ r.token = (pinned s now.wall).token
      ∧ (((empty a).run h).submit now armed identity s).2.jobs.get? r.token = some j
      ∧ ((empty a).run (h ++ [(now, .receive armed identity (.specification s))])).jobs.get? r.token
        = some j := by
  obtain ⟨v, hv⟩ := (receipt_iff_admits _ now armed identity s).1 ⟨r, hreply⟩
  have hafter : (empty a).run (h ++ [(now, .receive armed identity (.specification s))])
      = (((empty a).run h).submit now armed identity s).2 := by
    rw [run_concat]
    rfl
  obtain ⟨j, hjoined, htoken, hjobs⟩ := join_cases (x := ((empty a).run h).noted v identity)
    (fun k j hj => token_of_get? a h hj) armed v (pinned s now.wall)
  rw [← submit_of_admits hv armed] at hjoined hjobs
  obtain rfl : r = j.receipt := Message.receipt.inj (hreply.symm.trans hjoined)
  rw [hafter, htoken]
  have hj : (((empty a).run h).submit now armed identity s).2.jobs.get? (pinned s now.wall).token
      = some j := by
    rcases hjobs with ⟨hthere, hsame⟩ | ⟨-, -, hadded⟩
    · rw [hsame]
      exact hthere
    · rw [hadded, Table.get?_insert_self]
  exact ⟨j, rfl, rfl, hj, hj⟩

/-- The job that a receipt stands for is in the table of the history that ends with the
submission. -/
theorem job_of_receipt (a : Authorizer) (h : List (Reading × Action)) {now armed : Reading}
    {identity : String} {s : Specification} {r : Receipt}
    (hreply : (((empty a).run h).submit now armed identity s).1 = .receipt r) :
    ∃ j, r.token = (pinned s now.wall).token
      ∧ (((empty a).run h).submit now armed identity s).2.jobs.get? r.token = some j
      ∧ ((empty a).run (h ++ [(now, .receive armed identity (.specification s))])).jobs.get? r.token
        = some j := by
  obtain ⟨j, -, hjob⟩ := receipt_of_reply a h hreply
  exact ⟨j, hjob⟩

/-- The job that a receipt stands for was created for a specification of the history, the one that
is submitted or an earlier one. If neither chose its token, both have a definite scope or were
submitted within one second, and their contents are the same where they can be read in one way
only; and they name one registry if they are for services of one schema. -/
theorem joined_requests_have_one_content (a : Authorizer) (h : List (Reading × Action))
    (now armed : Reading) (identity : String) (s : Specification) (r : Receipt)
    (hreply : (((empty a).run h).submit now armed identity s).1 = .receipt r)
    (hfree : Digest.CollisionFree
      (hashed (h ++ [(now, .receive armed identity (.specification s))]))) :
    ∃ j s₀ t₀, (((empty a).run h).submit now armed identity s).2.jobs.get? r.token = some j
      ∧ (s₀, t₀) ∈ submitted (h ++ [(now, .receive armed identity (.specification s))])
      ∧ j.specification = pinned s₀ t₀
      ∧ (¬ s₀.ChoosesKey → ¬ s.ChoosesKey →
        s₀.scope.isDefinite = s.scope.isDefinite
          ∧ (s.scope.isDefinite = false → t₀.wholeSecond.text = now.wall.wholeSecond.text)
          ∧ (s₀.statement.Legible → s.statement.Legible →
            s₀.statement.Comparable s.statement →
            j.specification.statement.SameContent s.statement))
      ∧ ∀ v, ((empty a).run h).route s now.wall = some v →
        v.capability.statement.schemaDigest = j.service.capability.statement.schemaDigest →
        '\n' ∉ s₀.statement.registry.uri.toList → '\n' ∉ s.statement.registry.uri.toList →
        j.specification.statement.registry.uri = s.statement.registry.uri := by
  obtain ⟨j, htoken, hj, hjob⟩ := job_of_receipt a h hreply
  obtain ⟨o, hkey⟩ := origin_of_get? a _ hjob
  have hmem₀ := o.mem_submitted
  have hmem :
      (s, now.wall) ∈ submitted (h ++ [(now, .receive armed identity (.specification s))]) :=
    mem_submitted
  refine ⟨j, o.specification, o.now.wall, hj, hmem₀, o.specification_eq, ?_, ?_⟩
  · intro hk₀ hk
    obtain ⟨hdefinite, hsecond, htext⟩ := contents_of_token_eq hfree
      (fun _ hl => mem_hashed hmem₀ hl) (fun _ hl => mem_hashed hmem hl) hk₀ hk
      (hkey.symm.trans htoken)
    refine ⟨hdefinite, hsecond, ?_⟩
    intro hl₀ hl hcomparable
    rw [o.specification_eq]
    exact sameContent_pinned (Statement.sameContent_of_linesText hl₀ hl hcomparable htext) _
  · intro v hrouted hschema hu₀ hu
    -- Either service accepted what it was asked for, so that has the schema of its service.
    obtain ⟨w, hw⟩ := (receipt_iff_admits _ now armed identity s).1 ⟨r, hreply⟩
    obtain rfl : v = w := Option.some.inj (hrouted.symm.trans hw.routed)
    have hdigest : o.specification.statement.schemaDigest = s.statement.schemaDigest := by
      rw [schemaDigest_of_accepts o.admits.accepted, ← o.service_eq, ← hschema,
        schemaDigest_of_accepts hw.accepted]
    rw [o.specification_eq, registry_pinned]
    exact uri_of_schemaDigest hfree (fun _ hl => mem_hashed hmem₀ hl)
      (fun _ hl => mem_hashed hmem hl) hu₀ hu hdigest

/-! ## 4. Samples -/

/-- The beginning of the first day. -/
def start : Reading := ⟨0, .epoch⟩

/-- A series that is submitted twice within a second, the second time under a label. -/
def submittedTwice : List (Reading × Action) :=
  [(start, .register Job.obliging),
    (start, .receive start "alice" (.specification Job.everySecond))]

/-- The series under the label. -/
def relabelled : Specification := ⟨{ Job.everySecond.statement with label := some "again" }⟩

theorem relabelled_series_is_shared :
    ∃ r j,
      (((empty .everyone).run submittedTwice).submit start start "bob" relabelled).1 = .receipt r
      ∧ Digest.CollisionFree
        (hashed (submittedTwice ++ [(start, .receive start "bob" (.specification relabelled))]))
      ∧ (((empty .everyone).run submittedTwice).submit start start "bob" relabelled).2.jobs.get?
        r.token = some j
      ∧ j.specification.statement.SameContent relabelled.statement := by
  have hadmits : ((empty .everyone).run submittedTwice).Admits start "bob" relabelled
      Job.obliging := ⟨by decide +kernel, by decide +kernel, by decide +kernel, .inr (by decide)⟩
  obtain ⟨r, hreply⟩ := (receipt_iff_admits _ _ _ _ _).2 ⟨_, hadmits⟩
  have hfree : Digest.CollisionFree
      (hashed (submittedTwice ++ [(start, .receive start "bob" (.specification relabelled))])) := by
    decide +kernel
  obtain ⟨j, s₀, t₀, hj, hmem, -, hcontent, -⟩ :=
    joined_requests_have_one_content .everyone submittedTwice start start "bob" relabelled r
      hreply hfree
  have hkey : ¬ relabelled.ChoosesKey := fun hk => absurd hk.1 (by decide)
  have hlegible : relabelled.statement.Legible := by decide
  have hcases : (s₀, t₀) = (Job.everySecond, start.wall) ∨ (s₀, t₀) = (relabelled, start.wall) := by
    simpa [submitted, submittedTwice] using hmem
  refine ⟨r, j, hreply, hfree, hj, ?_⟩
  rcases hcases with he | he
  · obtain ⟨rfl, rfl⟩ := Prod.mk.inj he
    have hkey₀ : ¬ Job.everySecond.ChoosesKey := fun hk => absurd hk.1 (by decide)
    have hlegible₀ : Job.everySecond.statement.Legible := by decide
    exact (hcontent hkey₀ hkey).2.2 hlegible₀ hlegible (by decide)
  · obtain ⟨rfl, rfl⟩ := Prod.mk.inj he
    exact (hcontent hkey hkey).2.2 hlegible hlegible (by decide)

/-! ## 5. Tokens that stand for two requests -/

/-- Whether a submission is answered with a receipt for a job with a specification that differs. -/
def JoinsOther (x : Scheduler) (s : Specification) (differs : Specification → Prop) : Prop :=
  ∃ r j, (x.submit start start "bob" s).1 = .receipt r
    ∧ (x.submit start start "bob" s).2.jobs.get? r.token = some j ∧ differs j.specification

/-- The scheduler of some services with a job for a specification. -/
def withJob (services : List Service) (first : Specification) : Scheduler :=
  (empty .everyone).run (services.map (start, .register ·)
    ++ [(start, .receive start "alice" (.specification first))])

/-- The specification of the job that the receipt for a submission stands for. -/
def joined? (x : Scheduler) (now : Reading) (identity : String) (s : Specification) :
    Option Specification :=
  match x.submit now now identity s with
  | (.receipt r, y) => (y.jobs.get? r.token).map (·.specification)
  | _ => none

theorem joinsOther_of_joined? {x : Scheduler} {s other : Specification}
    {differs : Specification → Prop} (h : x.joined? start "bob" s = some other)
    (hother : differs other) : JoinsOther x s differs := by
  unfold joined? at h
  split at h
  · rename_i r y hsubmit
    obtain ⟨j, hj, rfl⟩ := Option.map_eq_some_iff.1 h
    refine ⟨r, j, congrArg Prod.fst hsubmit, ?_, hother⟩
    rw [hsubmit]
    exact hj
  · cases h

/-- Whether a specification is one for a service at the beginning of the first day. -/
structure Suits (v : Service) (s : Specification) : Prop where
  schema : s.statement.schemaLines = v.capability.statement.schemaLines
  follows : s.scope.follows v.capability.statement.scope start.wall = true
  valid : s.validate = .ok ()
  admitted : v.capability.checkValues s.statement.parameters.values = .ok ()
  timely : s.scope.isExpired start.wall = false
  definite : s.scope.isDefinite = true

theorem Suits.admits {v : Service} {s : Specification} (h : Suits v s) {x : Scheduler}
    (hservices : x.services = [v]) (hopen : x.authorizer = .everyone) (identity : String) :
    x.Admits start identity s v := by
  have hschema : s.statement.schemaDigest = v.capability.statement.schemaDigest :=
    congrArg Digest.ofLines h.schema
  refine ⟨?_, ?_, ?_, .inr h.timely⟩
  · rw [route, hservices]
    refine List.find?_cons_of_pos ?_
    rw [Specification.fulfills, hschema, h.follows, beq_self_eq_true]
    rfl
  · rw [hopen]
    rfl
  · rw [Capability.accepts, if_pos hschema, h.valid]
    exact h.admitted

theorem Suits.pinned_eq {v : Service} {s : Specification} (h : Suits v s) (t : Instant) :
    pinned s t = s := by
  rw [pinned, if_pos h.definite]

theorem services_register {v : Service} (h : v.capability.validate = .ok ()) (a : Authorizer)
    (now : Reading) : ((empty a).act now (.register v)).services = [v]
      ∧ ((empty a).act now (.register v)).authorizer = a := by
  rw [act, addService, h]
  exact ⟨rfl, rfl⟩

/-- Two specifications for a service share a job if they have one token. -/
theorem joinsOther_of_token_eq {v : Service} (hv : v.capability.validate = .ok ())
    {first s : Specification} (hfirst : Suits v first) (hs : Suits v s)
    (htoken : first.token = s.token) {differs : Specification → Prop} (hdiffers : differs first) :
    JoinsOther (withJob [v] first) s differs := by
  let x := (empty .everyone).act start (.register v)
  let j := (Job.make v first).schedule start
  obtain ⟨hservices, hopen⟩ := services_register hv .everyone start
  have hspec : j.specification = first := (Job.sameOrder_schedule _ _).2
  have hjob : withJob [v] first
      = { x.noted v "alice" with jobs := x.jobs.insert first.token j } := by
    have hsubmit := submit_of_admits (hfirst.admits hservices hopen "alice") start
    rw [hfirst.pinned_eq, join] at hsubmit
    have hnone : (x.noted v "alice").jobs.get? first.token = none := by
      change x.jobs.get? first.token = none
      rw [jobs_register]
      rfl
    rw [hnone] at hsubmit
    exact congrArg Prod.snd hsubmit
  have hthere : (withJob [v] first).jobs.get? s.token = some j := by
    rw [hjob, Table.get?_insert, if_pos htoken.symm]
  have hsubmit : (withJob [v] first).submit start start "bob" s
      = (.receipt j.receipt, (withJob [v] first).noted v "bob") := by
    have hadmits : (withJob [v] first).Admits start "bob" s v := by
      rw [hjob]
      refine hs.admits ?_ ?_ "bob"
      · exact hservices
      · exact hopen
    rw [submit_of_admits hadmits start, hs.pinned_eq, join]
    have hnoted : ((withJob [v] first).noted v "bob").jobs.get? s.token = some j := hthere
    rw [hnoted]
  refine ⟨j.receipt, j, ?_, ?_, ?_⟩
  · rw [hsubmit]
  · rw [hsubmit, j.token_receipt, Job.token, hspec, htoken]
    exact hthere
  · rw [hspec]
    exact hdiffers

/-- Specifications without tokens of their own have one token if their contents give one text. -/
theorem token_eq_of_linesText {s t : Specification} (hs : s.statement.givenToken = none)
    (ht : t.statement.givenToken = none)
    (h : Digest.linesText s.statement.contentLines = Digest.linesText t.statement.contentLines) :
    s.token = t.token := by
  rw [Specification.token, Specification.token, Statement.token, Statement.token, hs, ht,
    Statement.contentDigest, Statement.contentDigest, Digest.ofLines, Digest.ofLines, h]

/-- A measurement on the first day. -/
def measureAt (second nano : Nat) : Specification :=
  ⟨{ Statement.make Statement.measureVerb default with
    scope := .instant (.fixed ((Instant.of? 0 second nano).getD .epoch)) }⟩

/-- The measurement under a token that its client chose. -/
def named (s : Specification) : Specification := ⟨s.statement.withToken "mine"⟩

/-- The measurement for a registry without elements. -/
def elsewhere : Specification :=
  ⟨{ (measureAt 42 0).statement with registry := ⟨"elsewhere", 0, .empty⟩ }⟩

/-- A service of that registry. -/
def distant : Service :=
  ⟨⟨{ elsewhere.statement with scope := .nowToFuture, givenToken := some "distant" }⟩,
    .succeed [], 1⟩

/-- The measurement under another verb, with its results to be exported. -/
def exported (verb uri : String) : Specification :=
  ⟨{ (measureAt 42 0).statement with verb := verb, exportUri := some uri }⟩

/-- An element for texts. -/
def letter (name : String) : Element := ⟨name, .string, none, "letters"⟩

/-- A registry of such elements. -/
def letters : Registry := ⟨"letters", 0, .ofList (["a", "b", "a,b"].map fun n => (n, letter n))⟩

/-- The measurement with parameters, each with a constraint and a text, and result columns. -/
def asking (parameters : List (String × Constraint × String)) (columns : List String) :
    Specification :=
  ⟨{ (measureAt 42 0).statement with
    registry := letters
    parameters := .ofList (parameters.map fun p =>
      (p.1, ⟨letter p.1, p.2.1, some (.string p.2.2)⟩))
    columns := .ofList (columns.map fun name => (name, .make (letter name))) }⟩

/-- A service for measurements with parameters and columns of these names. -/
def answering (parameters columns : List String) : Service :=
  ⟨⟨{ (asking [] columns).statement with
      scope := .nowToFuture
      parameters := .ofList (parameters.map fun name =>
        (name, .make (letter name) .unconstrained)) }⟩,
    .succeed [], 0⟩

/-- The measurement of two texts. -/
def askingBoth (a b : String) : Specification :=
  asking [("a", .unconstrained, a), ("b", .unconstrained, b)] []

/-- The measurement of one text out of a list. -/
def askingOneOf (texts : List String) (a : String) : Specification :=
  asking [("a", .set (texts.map .string), a)] []

/-- What stands between the verb and the export in the content of the measurement. -/
def between : String := "\nw:1970-01-01 00:00:42\np:\nm:\nr:\ne:"

/-- A job can be shared by requests with different scopes, if they come with one token or differ
below the microsecond; by requests for different registries; and by requests with different verbs,
values or columns, where a text holds the marks that stand between texts: line breaks, commas and
equals signs, or colons. -/
theorem one_token_can_stand_for_two_requests :
    JoinsOther (withJob [Job.obliging] (named (measureAt 42 0))) (named (measureAt 102 0))
        (fun other => other.scope ≠ (measureAt 102 0).scope)
      ∧ JoinsOther (withJob [Job.obliging] (measureAt 42 0)) (measureAt 42 1)
        (fun other => other.scope ≠ (measureAt 42 1).scope)
      ∧ JoinsOther (withJob [Job.obliging, distant] (measureAt 42 0)) elsewhere
        (fun other => other.statement.registry.uri ≠ elsewhere.statement.registry.uri)
      ∧ JoinsOther (withJob [Job.obliging] (exported "measure" ("x" ++ between)))
        (exported ("measure" ++ between ++ "x") "")
        (fun other => other.statement.verb = "measure")
      ∧ JoinsOther (withJob [answering ["a", "b"] []] (askingBoth "x,b=*:y" "z"))
        (askingBoth "x" "y,b=*:z")
        (fun other => other.statement.parameterValue? "b" = some (.string "z"))
      ∧ JoinsOther (withJob [answering ["a"] []] (askingOneOf ["a", "c:a:c"] "a"))
        (askingOneOf ["a", "c:a"] "c:a")
        (fun other => other.statement.parameterValue? "a" = some (.string "a"))
      ∧ JoinsOther (withJob [answering [] ["a", "b"]] (asking [] ["a", "b"])) (asking [] ["a,b"])
        (fun other => other.statement.columns.names = ["a", "b"]) := by
  refine ⟨?_, ?_, ?_, ?_, ?_, ?_, ?_⟩
  · have hfirst : Suits Job.obliging (named (measureAt 42 0)) :=
      ⟨rfl, by decide, rfl, rfl, by decide, rfl⟩
    have hsecond : Suits Job.obliging (named (measureAt 102 0)) :=
      ⟨rfl, by decide, rfl, rfl, by decide, rfl⟩
    have htoken : (named (measureAt 42 0)).token = (named (measureAt 102 0)).token :=
      (Statement.token_of_given rfl).trans (Statement.token_of_given rfl).symm
    exact joinsOther_of_token_eq rfl hfirst hsecond htoken (by decide)
  · have hfirst : Suits Job.obliging (measureAt 42 0) := ⟨rfl, by decide, rfl, rfl, by decide, rfl⟩
    have hsecond : Suits Job.obliging (measureAt 42 1) := ⟨rfl, by decide, rfl, rfl, by decide, rfl⟩
    have htoken := token_eq_of_linesText (s := measureAt 42 0) (t := measureAt 42 1) rfl rfl
      (by decide +kernel)
    exact joinsOther_of_token_eq rfl hfirst hsecond htoken (by decide)
  · have h : (withJob [Job.obliging, distant] (measureAt 42 0)).joined? start "bob" elsewhere
        = some (measureAt 42 0) := by decide +kernel
    exact joinsOther_of_joined? h (by decide)
  · have hfirst : Suits Job.obliging (exported "measure" ("x" ++ between)) :=
      ⟨rfl, by decide, rfl, rfl, by decide, rfl⟩
    have hsecond : Suits Job.obliging (exported ("measure" ++ between ++ "x") "") :=
      ⟨rfl, by decide, rfl, rfl, by decide, rfl⟩
    have htoken := token_eq_of_linesText (s := exported "measure" ("x" ++ between))
      (t := exported ("measure" ++ between ++ "x") "") rfl rfl (by decide +kernel)
    exact joinsOther_of_token_eq rfl hfirst hsecond htoken rfl
  · have hfirst : Suits (answering ["a", "b"] []) (askingBoth "x,b=*:y" "z") :=
      ⟨rfl, by decide, rfl, rfl, by decide, rfl⟩
    have hsecond : Suits (answering ["a", "b"] []) (askingBoth "x" "y,b=*:z") :=
      ⟨rfl, by decide, rfl, rfl, by decide, rfl⟩
    have hrow : Statement.inOrder
          ((askingBoth "x,b=*:y" "z").statement.parameters.values.map Statement.parameterText)
        = Statement.inOrder
          ((askingBoth "x" "y,b=*:z").statement.parameters.values.map Statement.parameterText) := by
      rw [Statement.inOrder_of_pairwise (by decide), Statement.inOrder_of_pairwise (by decide)]
      decide
    have htoken : (askingBoth "x,b=*:y" "z").token = (askingBoth "x" "y,b=*:z").token := by
      refine token_eq_of_linesText rfl rfl ?_
      rw [Statement.contentLines, Statement.contentLines, hrow]
      rfl
    exact joinsOther_of_token_eq rfl hfirst hsecond htoken (by decide)
  · have hfirst : Suits (answering ["a"] []) (askingOneOf ["a", "c:a:c"] "a") :=
      ⟨rfl, by decide, rfl, rfl, by decide, rfl⟩
    have hsecond : Suits (answering ["a"] []) (askingOneOf ["a", "c:a"] "c:a") :=
      ⟨rfl, by decide, rfl, rfl, by decide, rfl⟩
    have htoken := token_eq_of_linesText (s := askingOneOf ["a", "c:a:c"] "a")
      (t := askingOneOf ["a", "c:a"] "c:a") rfl rfl (by decide +kernel)
    exact joinsOther_of_token_eq rfl hfirst hsecond htoken (by decide)
  · have hrow : Statement.inOrder ["a", "b"] = Statement.inOrder ["a,b"] := by
      rw [Statement.inOrder_of_pairwise (by decide), Statement.inOrder_of_pairwise (by decide)]
      decide
    have hfirst : Suits (answering [] ["a", "b"]) (asking [] ["a", "b"]) :=
      ⟨rfl, by decide, rfl, rfl, by decide, rfl⟩
    have hschema : (asking [] ["a,b"]).statement.schemaLines
        = (answering [] ["a", "b"]).capability.statement.schemaLines :=
      congrArg (fun row => ["r:letters", "p:" ++ Statement.inOrder [], "r:" ++ row]) hrow.symm
    have hsecond : Suits (answering [] ["a", "b"]) (asking [] ["a,b"]) :=
      ⟨hschema, by decide, rfl, rfl, by decide, rfl⟩
    have htoken : (asking [] ["a", "b"]).token = (asking [] ["a,b"]).token := by
      refine token_eq_of_linesText rfl rfl ?_
      have hnames : Statement.inOrder (asking [] ["a", "b"]).statement.columns.names
          = Statement.inOrder (asking [] ["a,b"]).statement.columns.names := hrow
      rw [Statement.contentLines, Statement.contentLines, hnames]
      rfl
    exact joinsOther_of_token_eq rfl hfirst hsecond htoken rfl

end Scheduler

end Measurement
