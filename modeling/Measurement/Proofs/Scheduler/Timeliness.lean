/-
Whether the scopes of admitted specifications can still be measured.

A scheduler refuses a specification whose scope has ended, and the job of any
other plain scope waits for the start of the scope. For a scope with its bounds
in order this leads into the scope: the instant at which the timers of the job
are armed and its delay make an instant that is in scope (`admission_is_timely`).
This instant is that of the admission if the clock stood still in between, and
otherwise the scope may have ended by then, in which case the job has failed.

The order of the bounds is no condition of an admission. A scope with a start
and, before it, an end that has not passed is admitted like any other, although
no instant is in it (`empty_scope_is_admitted`). So of the two statements, that
the run starts in scope and that there is an instant in scope at all, each holds
exactly for the scopes whose bounds are in order.
-/
import Measurement.Proofs.Scheduler.Routing
import Measurement.Proofs.Scope.Delays

set_option autoImplicit false

namespace Measurement

/-! ## 1. The wait of a new job -/

/-- Where a scope has not ended, the delay until its start leads to an instant that is not past, and
that is in scope exactly if the bounds are in order. -/
theorem Scope.start_of_not_isExpired {s : Scope} {t : Instant} (ht : t.isLeap = false)
    (htimes : ∀ u ∈ s.times, u.isLeap = false) (hopen : s.isExpired t = false) :
    ∃ d u, (s.delays t).1 = some d ∧ t.add? d = some u ∧ u.isLeap = false ∧ t ≤ u
      ∧ (s.contains u t = true ↔ s.InOrder t) := by
  rw [isExpired, Option.isNone_eq_false_iff, Option.isSome_iff_exists] at hopen
  obtain ⟨d, hd⟩ := hopen
  have hsum := add?_of_delays ht htimes hd
  have hleap := ((Instant.add?_eq_some_iff ht).1 hsum).1
  refine ⟨d, _, hd, hsum, hleap, Instant.le_later_right _ _, ?_, ?_⟩
  · intro hcontains
    by_contra hnot
    rw [not_contains_of_not_inOrder ht htimes hleap hnot] at hcontains
    cases hcontains
  · intro horder
    exact contains_of_between (between_of_delays ht htimes horder hd)

/-- The new job of a plain scope waits for its start, if there is one. -/
theorem Job.task_schedule_make (v : Service) {s : Specification} {armed : Reading}
    (hquery : s.statement.isQuery = false) (hplain : s.scope.isRepeated = false) {d : Span}
    (hd : (s.scope.delays armed.wall).1 = some d) :
    ((make v s).schedule armed).task = .starting (momentAfter armed.moment d) := by
  have hpending : (make v s).progress.state = .pending := rfl
  have hdelays : (make v s).specification.scope.delays armed.wall
      = (some d, (s.scope.delays armed.wall).2) := Prod.ext hd rfl
  have hspec : (make v s).specification = s := rfl
  rw [schedule, if_pos hpending, arm]
  dsimp only
  rw [hdelays, hspec, hquery, hplain]
  rfl

/-- The new job of a specification that is no query is at its end exactly if the scope has ended. -/
theorem Job.isFinished_schedule_make (v : Service) {s : Specification} (armed : Reading)
    (hquery : s.statement.isQuery = false) :
    ((make v s).schedule armed).isFinished = s.scope.isExpired armed.wall := by
  rw [isFinished, Progress.isFinished, state_schedule_make, hquery, Bool.false_or]
  cases s.scope.isExpired armed.wall with
  | false => rfl
  | true => rfl

namespace Scheduler

/-! ## 2. Jobs that are added -/

/-- A job that a submission adds is the new one of the specification, which was admitted. -/
theorem added_of_submit {x : Scheduler} {now armed : Reading} {identity : String}
    {s : Specification} {k : String} {j : Job} (hnone : x.jobs.get? k = none)
    (hsome : (x.submit now armed identity s).2.jobs.get? k = some j) :
    ∃ v, x.Admits now identity s v ∧ j = (Job.make v (pinned s now.wall)).schedule armed := by
  by_cases hadmits : ∃ v, x.Admits now identity s v
  · obtain ⟨v, hv⟩ := hadmits
    refine ⟨v, hv, ?_⟩
    rw [submit_of_admits hv, join] at hsome
    cases hthere : (x.noted v identity).jobs.get? (pinned s now.wall).token with
    | some i =>
      rw [hthere] at hsome
      exact absurd (hsome.symm.trans hnone) (Option.some_ne_none j)
    | none =>
      rw [hthere] at hsome
      change (x.jobs.insert _ _).get? k = some j at hsome
      rw [Table.get?_insert] at hsome
      by_cases hk : k = (pinned s now.wall).token
      · rw [if_pos hk] at hsome
        exact (Option.some.inj hsome).symm
      · rw [if_neg hk] at hsome
        exact absurd (hsome.symm.trans hnone) (Option.some_ne_none j)
  · obtain ⟨message, asked, he⟩ := submit_of_not_admits (fun v hv => hadmits ⟨v, hv⟩) armed
    rw [he] at hsome
    exact absurd (hsome.symm.trans hnone) (Option.some_ne_none j)

/-- A submission adds a job for a plain scope only if there is an instant in scope that is not
before it, or the bounds of the scope are not in order. If the job is not at its end, it waits for
the delay that there is when its timers are armed, and the delay leads from then to an instant that
is not before. This instant is in scope exactly if the bounds of the scope are in order. The job is
not at its end if the clock showed the same at the admission. -/
theorem admission_is_timely (a : Authorizer) (h : List (Reading × Action)) (now armed : Reading)
    (identity : String) (s : Specification) (hquery : s.statement.isQuery = false)
    (hplain : s.scope.isRepeated = false) (hnow : now.wall.isLeap = false)
    (harmed : armed.wall.isLeap = false) (htimes : ∀ u ∈ s.scope.times, u.isLeap = false) :
    let x := (empty a).run h
    let y := (x.submit now armed identity s).2
    ∀ k j, x.jobs.get? k = none → y.jobs.get? k = some j →
      ((∃ v, v.isLeap = false ∧ now.wall ≤ v ∧ s.scope.contains v now.wall = true)
          ↔ s.scope.InOrder now.wall)
        ∧ (armed.wall = now.wall → j.isFinished = false)
        ∧ (j.isFinished = false →
          ∃ d u, (s.scope.delays armed.wall).1 = some d
            ∧ j.task = .starting (momentAfter armed.moment d)
            ∧ armed.wall.add? d = some u ∧ armed.wall ≤ u
            ∧ (s.scope.contains u armed.wall = true ↔ s.scope.InOrder armed.wall)) := by
  intro x y k j hnone hsome
  obtain ⟨v, hadmits, rfl⟩ := added_of_submit hnone hsome
  -- What was admitted and is no query had not ended then.
  have hopen : s.scope.isExpired now.wall = false :=
    hadmits.timely.resolve_left fun hq => absurd (hquery.symm.trans hq) Bool.noConfusion
  have hpinned : (pinned s now.wall).statement.isQuery = false := by
    rw [isQuery_pinned, hquery]
  have hfinished := Job.isFinished_schedule_make v armed hpinned
  rw [scope_pinned] at hfinished
  refine ⟨⟨?_, ?_⟩, ?_, ?_⟩
  · rintro ⟨w, hw, -, hcontains⟩
    by_contra hnot
    rw [Scope.not_contains_of_not_inOrder hnow htimes hw hnot] at hcontains
    cases hcontains
  · intro horder
    obtain ⟨d, u, -, -, hleap, hle, hin⟩ := Scope.start_of_not_isExpired hnow htimes hopen
    exact ⟨u, hleap, hle, hin.2 horder⟩
  · intro hstill
    rw [hfinished, hstill, hopen]
  · intro hwaits
    rw [hfinished] at hwaits
    obtain ⟨d, u, hd, hsum, -, hle, hin⟩ := Scope.start_of_not_isExpired harmed htimes hwaits
    refine ⟨d, u, hd, ?_, hsum, hle, hin⟩
    refine Job.task_schedule_make v hpinned ?_ ?_
    · rw [scope_pinned, hplain]
    · rw [scope_pinned, hd]

/-! ## 3. Samples -/

/-- A service gets a job for a specification that suits it. -/
theorem added_of_suits {v : Service} {s : Specification} (hv : v.capability.validate = .ok ())
    (h : Suits v s) : (offering [v]).jobs.get? s.token = none
      ∧ ((offering [v]).submit start start "bob" s).2.jobs.get? s.token
        = some ((Job.make v s).schedule start) := by
  obtain ⟨hservices, hopen⟩ := services_register hv .everyone start
  have hnone : (offering [v]).jobs.get? s.token = none := by
    change ((empty .everyone).act start (.register v)).jobs.get? s.token = none
    rw [jobs_register]
    rfl
  refine ⟨hnone, ?_⟩
  have hadmits : (offering [v]).Admits start "bob" s v := h.admits hservices hopen "bob"
  have hthere : ((offering [v]).noted v "bob").jobs.get? s.token = none := hnone
  rw [submit_of_admits hadmits, h.pinned_eq, join, hthere]
  exact (Table.get?_insert _ _ _ _).trans (if_pos rfl)

theorem minute_is_measured_in_time :
    (offering [Job.obliging]).jobs.get? (measureAt 60 0).token = none
      ∧ (∃ j, ((offering [Job.obliging]).submit start start "bob" (measureAt 60 0)).2.jobs.get?
          (measureAt 60 0).token = some j)
      ∧ ∃ d u, start.wall.add? d = some u
        ∧ (measureAt 60 0).scope.contains u start.wall = true := by
  have hsuits : Suits Job.obliging (measureAt 60 0) :=
    ⟨rfl, by decide, rfl, rfl, by decide, rfl⟩
  obtain ⟨hnone, hsome⟩ := added_of_suits rfl hsuits
  refine ⟨hnone, ⟨_, hsome⟩, ?_⟩
  obtain ⟨-, hwaits, htimely⟩ := admission_is_timely .everyone _ start start "bob"
    (measureAt 60 0) rfl rfl (by decide) (by decide) (by decide) _ _ hnone hsome
  obtain ⟨d, u, -, -, hsum, -, hin⟩ := htimely (hwaits rfl)
  refine ⟨d, u, hsum, hin.2 ?_⟩
  intro a b ha hb
  cases ha
  cases hb
  exact Int.le_refl _

/-- A measurement from the second minute of the first day back to the middle of the first. -/
def backwards : Specification :=
  ⟨{ (measureAt 60 0).statement with
    scope := .range (.fixed (.ofParts 0 60 0)) (.fixed (.ofParts 0 30 0)) }⟩

/-- A scope that ends before it starts, but not before the submission, gets a job, and no instant is
in it. -/
theorem empty_scope_is_admitted :
    Scope.read "1970-01-01 00:01:00 ... 1970-01-01 00:00:30" = .ok backwards.scope
      ∧ backwards.statement.isQuery = false ∧ backwards.scope.isRepeated = false
      ∧ start.wall.isLeap = false ∧ (∀ u ∈ backwards.scope.times, u.isLeap = false)
      ∧ (offering [Job.obliging]).jobs.get? backwards.token = none
      ∧ (∃ j, ((offering [Job.obliging]).submit start start "bob" backwards).2.jobs.get?
          backwards.token = some j)
      ∧ ∀ u : Instant, u.isLeap = false → backwards.scope.contains u start.wall = false := by
  have hsuits : Suits Job.obliging backwards := ⟨rfl, by decide, rfl, rfl, by decide, rfl⟩
  obtain ⟨hnone, hsome⟩ := added_of_suits rfl hsuits
  refine ⟨by decide +kernel, rfl, rfl, by decide, by decide, hnone, ⟨_, hsome⟩, ?_⟩
  intro u hu
  refine Scope.not_contains_of_not_inOrder (by decide) (by decide) hu ?_
  intro horder
  have hle := horder _ _ rfl rfl
  revert hle
  decide

end Scheduler

end Measurement
