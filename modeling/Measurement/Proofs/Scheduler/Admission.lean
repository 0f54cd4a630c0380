/-
Which specifications are admitted, and what that changes.

A scheduler that knows of a history admits a specification exactly if the first
registered service that it fulfills is open to the caller, accepts it, and is
not asked for a scope that has ended. A refusal leaves services, catalog and
jobs as they were. An admission joins the job that is there under the token of
the receipt, or adds one job at the end of the table.

The scope is judged twice: by `submit_job` when the specification is admitted,
and by `Job::schedule`, which reads the clock again. A job that was added is
scheduled unless its scope ended in between, and then it has failed. Where the
clock stands still it is scheduled.
-/
import Measurement.Proofs.Scheduler.History

set_option autoImplicit false

namespace Measurement

/-! ## 1. A new job -/

theorem Scheduler.scope_pinned (s : Specification) (t : Instant) :
    (Scheduler.pinned s t).scope = s.scope := by
  unfold Scheduler.pinned
  split <;> rfl

theorem Scheduler.isQuery_pinned (s : Specification) (t : Instant) :
    (Scheduler.pinned s t).statement.isQuery = s.statement.isQuery := by
  unfold Scheduler.pinned
  split <;> rfl

/-- What scheduling makes of a new job. A query has no scope to look at. -/
theorem Job.state_schedule_make (v : Service) (s : Specification) (armed : Reading) :
    ((make v s).schedule armed).progress.state =
      if s.statement.isQuery || !s.scope.isExpired armed.wall then .scheduled
      else .failed ⟨some s.token, expiredText⟩ := by
  have hpending : (make v s).progress.state = .pending := rfl
  have hspec : (make v s).specification = s := rfl
  rw [progress_schedule, scheduleWrites, if_pos hpending, armWrites, hspec]
  by_cases hquery : s.statement.isQuery = true
  · rw [if_pos hquery, hquery, Bool.true_or, if_pos rfl]
    rfl
  · rw [if_neg hquery, Bool.eq_false_of_not_eq_true hquery, Bool.false_or, Scope.isExpired]
    rcases s.scope.delays armed.wall with ⟨start, last⟩
    cases start with
    | none => rfl
    | some start => rfl

namespace Scheduler

/-! ## 2. The decision -/

/-- The first service that a specification fulfills is the one before which there is none. -/
theorem route_eq_some_iff (x : Scheduler) (s : Specification) (t : Instant) (v : Service) :
    x.route s t = some v ↔ s.fulfills v.capability t = true
      ∧ ∃ before after, x.services = before ++ v :: after
        ∧ ∀ w ∈ before, s.fulfills w.capability t = false := by
  rw [route, List.find?_eq_some_iff_append]
  simp only [Bool.not_eq_true']

/-- A specification is answered with a receipt if it is admitted, and otherwise with an exception
of its own token. -/
theorem receipt_iff_admits (x : Scheduler) (now armed : Reading) (identity : String)
    (s : Specification) :
    (∃ r, (x.submit now armed identity s).1 = .receipt r) ↔ ∃ v, x.Admits now identity s v := by
  constructor
  · rintro ⟨r, hr⟩
    by_contra hno
    obtain ⟨message, asked, he⟩ := submit_of_not_admits (fun v hv => hno ⟨v, hv⟩) armed
    rw [he] at hr
    exact Message.noConfusion hr
  · rintro ⟨v, hv⟩
    rw [submit_of_admits hv, join]
    split
    · exact ⟨_, rfl⟩
    · exact ⟨_, rfl⟩

/-- What an admission does to the jobs, when each stands under its own token. -/
theorem join_cases {x : Scheduler} (hkeyed : ∀ k j, x.jobs.get? k = some j → j.token = k)
    (armed : Reading) (v : Service) (s : Specification) :
    ∃ j, (x.join armed v s).1 = .receipt j.receipt ∧ j.receipt.token = s.token
      ∧ ((x.jobs.get? s.token = some j ∧ (x.join armed v s).2 = x)
        ∨ (x.jobs.get? s.token = none ∧ j = (Job.make v s).schedule armed
          ∧ (x.join armed v s).2 = { x with jobs := x.jobs.insert s.token j })) := by
  unfold join
  cases hj : x.jobs.get? s.token with
  | some j =>
    exact ⟨j, rfl, j.token_receipt.trans (hkeyed _ _ hj), .inl ⟨rfl, rfl⟩⟩
  | none =>
    refine ⟨_, rfl, ?_, .inr ⟨rfl, rfl, rfl⟩⟩
    rw [Job.token_receipt, Job.token, (Job.sameOrder_schedule _ _).2]
    rfl

theorem admits_iff (x : Scheduler) (now : Reading) (identity : String) (s : Specification) :
    (∃ v, x.Admits now identity s v) ↔
      ∃ v before after, x.services = before ++ v :: after
        ∧ (∀ w ∈ before, s.fulfills w.capability now.wall = false)
        ∧ s.fulfills v.capability now.wall = true
        ∧ x.authorizer.allows v.capability.knownAs identity = true
        ∧ v.capability.accepts s = .ok ()
        ∧ (s.statement.isQuery = true ∨ s.scope.isExpired now.wall = false) := by
  constructor
  · rintro ⟨v, hrouted, hallowed, haccepted, htimely⟩
    rw [route_eq_some_iff] at hrouted
    obtain ⟨hv, before, after, hservices, hbefore⟩ := hrouted
    exact ⟨v, before, after, hservices, hbefore, hv, hallowed, haccepted, htimely⟩
  · rintro ⟨v, before, after, hservices, hbefore, hv, hallowed, haccepted, htimely⟩
    refine ⟨v, ?_, hallowed, haccepted, htimely⟩
    rw [route_eq_some_iff]
    exact ⟨hv, before, after, hservices, hbefore⟩

/-- After any history, a specification is answered with a receipt exactly if the first registered
service that it fulfills is one that the caller may use and that accepts it, and it is a query or
its scope has not ended. Otherwise it is answered with an exception of its own token. In either
case nothing changes about services, capabilities and jobs, except that an admission under a token
without a job adds a job for that service behind all others. The job is scheduled, or its scope had
ended when its timers were to be armed and it has failed; the latter cannot be if the clock showed
the same as at the admission. -/
theorem admission_is_exact (a : Authorizer) (h : List (Reading × Action)) (now armed : Reading)
    (identity : String) (s : Specification) :
    let x := (empty a).run h
    let reply := (x.submit now armed identity s).1
    let y := (x.submit now armed identity s).2
    ((∃ r, reply = .receipt r) ↔
        ∃ v before after, x.services = before ++ v :: after
          ∧ (∀ w ∈ before, s.fulfills w.capability now.wall = false)
          ∧ s.fulfills v.capability now.wall = true
          ∧ x.authorizer.allows v.capability.knownAs identity = true
          ∧ v.capability.accepts s = .ok ()
          ∧ (s.statement.isQuery = true ∨ s.scope.isExpired now.wall = false))
      ∧ ((¬ ∃ r, reply = .receipt r) →
        (∃ message, reply = .exception ⟨some s.token, message⟩) ∧ y.jobs = x.jobs)
      ∧ (∀ r, reply = .receipt r → r.token = (pinned s now.wall).token
        ∧ ((x.jobs.contains r.token = true ∧ y.jobs = x.jobs)
          ∨ (x.jobs.contains r.token = false
            ∧ ∃ j, x.route s now.wall = some j.service ∧ j.specification = pinned s now.wall
              ∧ j.receipt = r
              ∧ j.progress.state = (if s.statement.isQuery || !s.scope.isExpired armed.wall
                then .scheduled else .failed ⟨some r.token, Job.expiredText⟩)
              ∧ (armed.wall = now.wall → j.progress.state = .scheduled)
              ∧ y.jobs.entries = x.jobs.entries ++ [(r.token, j)])))
      ∧ y.services = x.services ∧ y.catalog = x.catalog ∧ y.authorizer = x.authorizer := by
  intro x reply y
  have hdecision : (∃ r, reply = .receipt r) ↔ ∃ v, x.Admits now identity s v :=
    receipt_iff_admits x now armed identity s
  rw [← admits_iff]
  refine ⟨hdecision, ?_⟩
  by_cases hadmits : ∃ v, x.Admits now identity s v
  · refine ⟨fun hno => absurd (hdecision.2 hadmits) hno, ?_⟩
    obtain ⟨v, hv⟩ := hadmits
    have hsubmit := submit_of_admits hv armed
    obtain ⟨j, hreply, htoken, hjobs⟩ := join_cases (x := x.noted v identity)
      (fun k j hj => token_of_get? a h hj) armed v (pinned s now.wall)
    rw [← hsubmit] at hreply hjobs
    have hreceipt : ∀ r, reply = .receipt r → r = j.receipt := by
      intro r hr
      exact Message.receipt.inj (hr.symm.trans hreply)
    rcases hjobs with ⟨hthere, hsame⟩ | ⟨hnew, hj, hadded⟩
    · have hy : y = x.noted v identity := hsame
      rw [hy]
      refine ⟨?_, rfl, rfl, rfl⟩
      intro r hr
      rw [hreceipt r hr, htoken]
      exact ⟨rfl, .inl ⟨Option.isSome_iff_exists.2 ⟨j, hthere⟩, rfl⟩⟩
    · have hy : y = { x.noted v identity with
          jobs := x.jobs.insert (pinned s now.wall).token j } := hadded
      rw [hy]
      refine ⟨?_, rfl, rfl, rfl⟩
      intro r hr
      rw [hreceipt r hr, htoken]
      obtain ⟨hservice, hspec⟩ := Job.sameOrder_schedule (Job.make v (pinned s now.wall)) armed
      rw [← hj] at hservice hspec
      have hstate : j.progress.state = if s.statement.isQuery || !s.scope.isExpired armed.wall
          then .scheduled else .failed ⟨some (pinned s now.wall).token, Job.expiredText⟩ := by
        rw [hj, Job.state_schedule_make, isQuery_pinned, scope_pinned]
      refine ⟨rfl, .inr ⟨(Table.contains_eq_false_iff _ _).2 hnew, j, ?_, hspec, rfl, hstate, ?_,
        Table.entries_insert _ j hnew⟩⟩
      · rw [hservice]
        exact hv.routed
      · -- A clock that stands still shows the instant at which the scope had not ended.
        intro hstill
        rw [hstate, hstill, if_pos]
        rw [Bool.or_eq_true, Bool.not_eq_true']
        exact hv.timely
  · obtain ⟨message, asked, he⟩ := submit_of_not_admits (fun v hv => hadmits ⟨v, hv⟩) armed
    have hreply : reply = reject s message := congrArg Prod.fst he
    have hy : y = { x with asked := asked } := congrArg Prod.snd he
    rw [hy, hreply]
    refine ⟨fun _ => ⟨⟨message, rfl⟩, rfl⟩, ?_, rfl, rfl, rfl⟩
    intro r hr
    rw [reject] at hr
    exact Message.noConfusion hr

end Scheduler

end Measurement
