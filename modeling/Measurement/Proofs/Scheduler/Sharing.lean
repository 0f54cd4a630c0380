/-
Requests that ask for the same share a job.

Two specifications are one request if their contents and scopes are the same,
whatever their labels and links and in whatever order their parts were added. A
scope that is definite asks for the same at all times, but its specification
may come with a token, which has to be the same too. Any other scope asks for
the same within one second only (`SameRequest`).

Such requests have one token (`SameRequest.token_eq`). As long as the first one
has its job, the second one is answered with the receipt of that job, and
nothing else comes of it: no job is added, and no strand of the component gets
to go on. The contents are compared as they are written, so that the two zeros
among the reals are different values.
-/
import Measurement.Proofs.Component
import Measurement.Proofs.Scheduler.Joining
import Measurement.Proofs.Time.Instant

set_option autoImplicit false

namespace Measurement.Scheduler

/-! ## 1. One request -/

/-- Whether two specifications, the first one at an instant and the second one at another, are one
request. -/
structure SameRequest (s : Specification) (t : Instant) (s' : Specification) (t' : Instant) :
    Prop where
  content : s.statement.SameContent s'.statement
  scope : s.scope = s'.scope
  /-- A specification with a definite scope keeps the token that it came with. -/
  token : s.scope.isDefinite = true → s.statement.givenToken = s'.statement.givenToken
  /-- Any other scope means something else in every second. -/
  second : s.scope.isDefinite = false → t.InOneSecond t'

/-- One request has one token. -/
theorem SameRequest.token_eq {s s' : Specification} {t t' : Instant} (h : SameRequest s t s' t') :
    (pinned s t).token = (pinned s' t').token := by
  have hdigest : s.statement.contentDigest = s'.statement.contentDigest :=
    congrArg Digest.ofLines h.content.contentLines_eq
  by_cases hdefinite : s.scope.isDefinite = true
  · -- The token that came with the request counts, and the content only where there is none.
    have hdefinite' : s'.scope.isDefinite = true := h.scope ▸ hdefinite
    rw [pinned, if_pos hdefinite, pinned, if_pos hdefinite', Specification.token,
      Specification.token, Statement.token, Statement.token, h.token hdefinite, hdigest]
  · rw [Bool.not_eq_true] at hdefinite
    have hdefinite' : s'.scope.isDefinite = false := h.scope ▸ hdefinite
    rw [token_pinned_relative hdefinite, token_pinned_relative hdefinite',
      Statement.contentDigestAt, Statement.contentDigestAt, hdigest,
      (h.second hdefinite).wholeSecond_eq]

/-! ## 2. The table of jobs -/

/-- The names in the table of jobs are the tokens of the jobs. -/
theorem tokens_eq_names (a : Authorizer) (h : List (Reading × Action)) :
    ((empty a).run h).jobs.values.map Job.token = ((empty a).run h).jobs.names := by
  rw [Table.values, Table.names, List.map_map]
  refine List.map_congr_left ?_
  intro e he
  exact token_of_get? a h (Table.get?_of_mem he)

/-- A job that is never missed in the table keeps its place and its receipt. -/
theorem receipt_of_stays {x : Scheduler} {k : String} {i : Job} (hi : x.jobs.get? k = some i)
    {acts : List (Reading × Action)}
    (hstays : ∀ front, front <+: acts → (x.run front).jobs.contains k = true) :
    ∃ j, (x.run acts).jobs.get? k = some j ∧ j.receipt = i.receipt := by
  induction acts using List.reverseRecOn with
  | nil => exact ⟨i, hi, rfl⟩
  | append_singleton acts e ih =>
    obtain ⟨j, hj, hreceipt⟩ := ih fun front hfront =>
      hstays front (hfront.trans (List.prefix_append acts [e]))
    have hthere := hstays _ (List.prefix_refl _)
    rw [run_concat] at hthere ⊢
    rw [Table.contains] at hthere
    -- Pruning alone takes a job out of the table, and then it would be missing.
    have hfate := fate (x.run acts) e.1 k e.2
    rw [hj] at hfate
    generalize hafter : ((x.run acts).act e.1 e.2).jobs.get? k = o at hfate hthere
    cases hfate with
    | kept _ acts' asked => exact ⟨_, rfl, (Job.receipt_run j _).trans hreceipt⟩
    | pruned _ prunes spent => cases hthere

/-! ## 3. Submissions that join -/

/-- A component begins with no job unless one was added. -/
theorem receive_of_jobs_eq {z : Component} {identity : String} {s : Specification} {m : Message}
    {y : Scheduler} (h : z.scheduler.submit z.now z.now identity s = (m, y))
    (hjobs : y.jobs = z.scheduler.jobs) :
    z.receive identity (.specification s) = (m, { z with scheduler := y }) := by
  have hnone : (y.jobs.names.filter fun t => !z.scheduler.jobs.contains t) = [] := by
    rw [List.filter_eq_nil_iff, hjobs]
    intro t ht
    rw [Table.contains_of_mem ht]
    decide
  have hreceive : z.scheduler.receive z.now z.now identity (.specification s) = (m, y) := h
  rw [Component.receive, hreceive]
  dsimp only
  rw [hnone]
  rfl

/-- Whether a submission for a service joins a job: it is answered with the receipt of the job,
whatever the clocks show when it gets there, the scheduler stays as it is but for the question to
its authorizer, and so does a component with that scheduler, in which no strand gets to go on. -/
structure Joins (x : Scheduler) (now : Reading) (identity : String) (s : Specification)
    (v : Service) (j : Job) : Prop where
  answered : ∀ armed, x.submit now armed identity s = (.receipt j.receipt, x.noted v identity)
  still : ∀ z : Component, z.scheduler = x → z.now = now →
    z.receive identity (.specification s)
      = (.receipt j.receipt, { z with scheduler := x.noted v identity })

theorem joins_of_admits {x : Scheduler} {now : Reading} {identity : String} {s : Specification}
    {v : Service} (h : x.Admits now identity s v) {j : Job}
    (hj : x.jobs.get? (pinned s now.wall).token = some j) : Joins x now identity s v j := by
  have hnoted : (x.noted v identity).jobs.get? (pinned s now.wall).token = some j := hj
  have hsubmit : ∀ armed,
      x.submit now armed identity s = (.receipt j.receipt, x.noted v identity) := by
    intro armed
    rw [submit_of_admits h, join, hnoted]
  refine ⟨hsubmit, ?_⟩
  rintro z rfl rfl
  exact receive_of_jobs_eq (hsubmit z.now) rfl

/-- There is never more than one job under a token. If a specification was admitted at some time
and there is a job under the token of its receipt, then the same request, when it is admitted again,
joins that job. The receipt is the same as before if the job has never been missing since. -/
theorem identical_requests_share_one_job (a : Authorizer) :
    (∀ h, (((empty a).run h).jobs.values.map Job.token).Nodup)
      ∧ ∀ (before later : List (Reading × Action)) (now armed now' : Reading)
          (identity other : String) (s s' : Specification) (r : Receipt) (x y : Scheduler)
          (j : Job) (v : Service),
        SameRequest s now.wall s' now'.wall →
        (((empty a).run before).submit now armed identity s).1 = .receipt r →
        x = (empty a).run (before ++ [(now, .receive armed identity (.specification s))]) →
        y = x.run later → y.jobs.get? r.token = some j → y.Admits now' other s' v →
        Joins y now' other s' v j
          ∧ ((∀ front, front <+: later → (x.run front).jobs.contains r.token = true) →
            j.receipt = r) := by
  constructor
  · intro h
    rw [tokens_eq_names]
    exact Table.nodup_names _
  · intro before later now armed now' identity other s s' r x y j v hsame hfirst hx hy hj hadmits
    -- `i` is the job as it was when the first submission was answered, `j` what it is now.
    obtain ⟨i, hreceipt, htoken, -, hi⟩ := receipt_of_reply a before hfirst
    rw [← hx] at hi
    constructor
    · refine joins_of_admits hadmits ?_
      rw [← hsame.token_eq, ← htoken]
      exact hj
    · intro hstays
      obtain ⟨j', hj', hreceipt'⟩ := receipt_of_stays hi hstays
      rw [← hy, hj] at hj'
      rw [hreceipt, ← hreceipt', Option.some.inj hj']

/-- A moment of the first second of the first day. -/
def within (millis : Nat) : Reading :=
  ⟨millis, .ofParts 0 0 (millis * 1000000)⟩

/-- A series is submitted a quarter of a second after a service was registered, and again half a
second later under a label. -/
theorem relabelled_series_joins :
    ∃ r j, (((empty .everyone).run [(start, .register Job.obliging)]).submit (within 250)
        (within 250) "alice" Job.everySecond).1 = .receipt r
      ∧ j.receipt = r
      ∧ Joins ((empty .everyone).run [(start, .register Job.obliging),
          (within 250, .receive (within 250) "alice" (.specification Job.everySecond))])
        (within 750) "bob" relabelled Job.obliging j := by
  have hfirst : ((empty .everyone).run [(start, .register Job.obliging)]).Admits (within 250)
      "alice" Job.everySecond Job.obliging :=
    ⟨by decide +kernel, by decide +kernel, by decide +kernel, .inr (by decide)⟩
  have hsecond : ((empty .everyone).run [(start, .register Job.obliging),
      (within 250, .receive (within 250) "alice" (.specification Job.everySecond))]).Admits
        (within 750)
      "bob" relabelled Job.obliging :=
    ⟨by decide +kernel, by decide +kernel, by decide +kernel, .inr (by decide)⟩
  have hsame : SameRequest Job.everySecond (within 250).wall relabelled (within 750).wall := by
    refine ⟨⟨rfl, rfl, .rfl, .rfl, .rfl, rfl⟩, rfl, fun h => absurd h (by decide), fun _ => ?_⟩
    exact ⟨by decide, by decide, by decide⟩
  obtain ⟨r, hr⟩ := (receipt_iff_admits _ _ (within 250) _ _).2 ⟨_, hfirst⟩
  obtain ⟨j, -, -, -, hj⟩ := receipt_of_reply .everyone _ hr
  have hjoins := (identical_requests_share_one_job .everyone).2 _ [] (within 250) (within 250)
    (within 750)
    "alice" "bob" Job.everySecond relabelled r _ _ j Job.obliging hsame hr rfl rfl hj hsecond
  refine ⟨r, j, hr, hjoins.2 ?_, hjoins.1⟩
  intro front hfront
  obtain rfl := List.prefix_nil.1 hfront
  exact Option.isSome_iff_exists.2 ⟨j, hj⟩

end Measurement.Scheduler
