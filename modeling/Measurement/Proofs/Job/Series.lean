/-
Series of runs.

The job of a repeated scope takes one occurrence after the other from a cursor,
waits for its start, hands its specification to the service and waits for the
run. What has come of it is more than the job shows, which forgets when its runs
began and what they came to, so this is written down beside it (`Chronicle`).

A series stands in one of six places (`Stage`): it has yet to open its cursor,
waits for a start, waits for a run, or is over, which it is in three ways. In
all of them the specifications that were handed over are those of the first
occurrences, and the results are those of the runs that succeeded (`Kept`). What
is done to the job either leaves all of this as it is (`Quiet`) or takes the
series from one place to the next.

The third way for a series to be over is none that it should have. The cursor
looks one tick ahead and meets the end of the calendar there, and a job whose
cursor breaks off neither completes nor fails (`Scope.BreaksAfter`).
-/
import Measurement.Proofs.Job.Actions
import Measurement.Proofs.Scope.Series

set_option autoImplicit false

namespace Measurement

open Progress

/-! ## 1. Specifications of occurrences -/

/-- A capability accepts a specification whatever its scope. -/
theorem Specification.accepts_forOccurrence (c : Capability) (s : Specification)
    (occurrence : Scope) : c.accepts (s.forOccurrence occurrence) = c.accepts s := by
  have hdigest : (s.forOccurrence occurrence).statement.schemaDigest
      = s.statement.schemaDigest := by
    rw [Statement.schemaDigest, Statement.schemaDigest]
    rfl
  rw [Capability.accepts, Capability.accepts, hdigest]
  rfl

/-! ## 2. Chronicles -/

/-- A job, and what has come of its runs. -/
structure Chronicle where
  job : Job
  /-- What the clocks showed when each of its runs began. -/
  begun : List Reading
  /-- What each of its runs came to, and what the clocks showed when the job took it. -/
  returned : List (Reading × Outcome)

namespace Chronicle

/-- The chronicle of a job that has had no run. -/
def blank (j : Job) : Chronicle := ⟨j, [], []⟩

/-- The outcome that a job takes from what is done to it. -/
def taken? (j : Job) : Job.Action → Option Outcome
  | .event (.returns outcome) =>
    match j.task with
    | .running _ | .inTurn _ _ => some outcome
    | _ => none
  | _ => none

/-- The chronicle after an action. A run begins whenever a specification is handed over. -/
def act (c : Chronicle) (now : Reading) (a : Job.Action) : Chronicle :=
  let job := c.job.act now a
  { job := job
    begun := if c.job.handed.length < job.handed.length then c.begun ++ [now] else c.begun
    returned := match taken? c.job a with
      | some outcome => c.returned ++ [(now, outcome)]
      | none => c.returned }

/-- The chronicle after actions. -/
def run (c : Chronicle) (acts : List (Reading × Job.Action)) : Chronicle :=
  acts.foldl (fun c a => c.act a.1 a.2) c

theorem run_append (c : Chronicle) (acts more : List (Reading × Job.Action)) :
    c.run (acts ++ more) = (c.run acts).run more := List.foldl_append

/-- Nothing is done to the job of a chronicle but what is written down. -/
theorem job_run (c : Chronicle) (acts : List (Reading × Job.Action)) :
    (c.run acts).job = c.job.run acts := by
  induction acts generalizing c with
  | nil => rfl
  | cons a acts ih => exact ih (c.act a.1 a.2)

/-- The results of the runs that succeeded, as the job of a specification reports them. -/
def results (v : Service) (s : Specification) (c : Chronicle) : List Result :=
  (c.begun.zip c.returned).filterMap fun p =>
    p.2.2.toOption.map ((Job.make v s).stamp p.1.wall p.2.1)

/-- Whether all runs that returned have succeeded. -/
def Succeeded (c : Chronicle) : Prop := ∀ p ∈ c.returned, ∃ r, p.2 = .ok r

end Chronicle

/-! ## 3. Interrupts -/

namespace Job

theorem interrupted_hand (j : Job) (s : Specification) (task : Task) :
    (j.hand s task).interrupted = j.interrupted := by
  unfold hand
  split <;> rfl

theorem interrupted_proceed (j : Job) (course : Course) :
    (j.proceed course).interrupted = j.interrupted := by
  unfold proceed
  split <;> rfl

theorem interrupted_schedule (j : Job) (now : Reading) :
    (j.schedule now).interrupted = j.interrupted := by
  unfold schedule
  split
  · unfold arm
    dsimp only
    split
    · rfl
    · split <;> rfl
  · rfl

theorem interrupted_wake (j : Job) (now : Reading) : (j.wake now).interrupted = j.interrupted := by
  unfold wake
  split
  · exact interrupted_hand _ _ _
  · unfold openSeries
    split
    · rfl
    · exact interrupted_proceed _ _
  · split
    · rfl
    · exact interrupted_hand _ _ _
  · rfl

theorem interrupted_conclude (j : Job) (now : Reading) (outcome : Outcome) :
    (j.conclude now outcome).interrupted = j.interrupted := by
  unfold conclude
  split
  · rfl
  · dsimp only
    split
    · rfl
    · exact interrupted_proceed _ _
  · rfl
  · rfl
  · rfl

/-- The interrupt of a job stays raised. -/
theorem interrupted_act {j : Job} (hj : j.interrupted = true) (now : Reading) (a : Action) :
    (j.act now a).interrupted = true := by
  cases a with
  | schedule => exact (interrupted_schedule j now).trans hj
  | event e =>
    cases e with
    | interrupt => rfl
    | scopeEnds =>
      rw [act, handle]
      split
      · exact hj
      · rfl
    | turnEnds =>
      rw [act, handle]
      split <;> exact hj
    | wakes => exact (interrupted_wake j now).trans hj
    | returns outcome => exact (interrupted_conclude j now outcome).trans hj
  | poll => exact hj
  | stray w =>
    rw [act]
    split <;> exact hj

end Job

/-! ## 4. Places of a series -/

section

variable {v : Service} {s : Specification} {base now : Reading} {c : Chronicle}
  {occs : List Scope} {j k : Job}

/-- Whether a job has been scheduled and is not at its end. -/
def Job.Underway (j : Job) : Prop :=
  j.progress.state = .scheduled ∨ j.progress.state = .running

theorem Job.Underway.not_finished (h : j.Underway) : j.progress.isFinished = false := by
  rcases h with h | h <;> rw [Progress.isFinished, h] <;> rfl

namespace Chronicle

/-- What holds throughout a series that has come to some occurrences. -/
structure Kept (v : Service) (s : Specification) (base : Reading) (c : Chronicle)
    (occs : List Scope) : Prop where
  service : c.job.service = v
  specification : c.job.specification = s
  begins : s.scope.BeginsWith base.wall occs
  handed : c.job.handed = occs.map s.forOccurrence
  begun : c.begun.length = occs.length
  results : c.job.progress.results = c.results v s

/-- What holds between the runs of a series: each of them has returned, with a result. -/
structure Settled (c : Chronicle) (occs : List Scope) : Prop where
  returned : c.returned.length = occs.length
  succeeded : c.Succeeded

/-- The cursor that a series opened at `base` has yielded some occurrences, and is where the course
of the series says. -/
structure Follows (s : Specification) (base : Reading) (occs : List Scope) (course : Course) :
    Prop where
  origin : course.origin = base.wall
  yields : ∃ os, Occurrences.ofScope s.scope base.wall = .ok os ∧ os.Yields occs course.rest

/-- Where a series stands that was scheduled at `base` and has come to some occurrences. -/
inductive Stage (s : Specification) (base : Reading) (c : Chronicle) (occs : List Scope) :
    Prop where
  | opening (task : c.job.task = .opening base.wall base.moment) (underway : c.job.Underway)
      (settled : c.Settled occs) (none : occs = [])
  | awaiting {occurrence : Scope} {due : Nat} {course : Course}
      (task : c.job.task = .awaiting occurrence due course) (underway : c.job.Underway)
      (settled : c.Settled occs) (follows : Follows s base (occs ++ [occurrence]) course)
  | inTurn {occurrence : Scope} {before : List Scope} {earlier : List Reading} {began : Reading}
      {turn : Turn} (task : c.job.task = .inTurn began.wall turn) (underway : c.job.Underway)
      (settled : c.Settled before) (occs : occs = before ++ [occurrence])
      (begun : c.begun = earlier ++ [began])
      (due : turn.due = (turn.course.length? occurrence).map (Timers.fires began.moment))
      (follows : Follows s base (before ++ [occurrence]) turn.course)
  | completed (task : c.job.task = .idle) (state : c.job.progress.state = .completed)
      (settled : c.Settled occs)
      (cause : c.job.interrupted = true ∨ s.scope.EndsAfter base.wall occs.length)
  | failed {earlier : List (Reading × Outcome)} {e : Reading} {f : ServiceFault}
      (task : c.job.task = .idle)
      (state : c.job.progress.state = .failed ⟨some s.token, f.message⟩)
      (returned : c.returned.length = occs.length)
      (last : c.returned = earlier ++ [(e, .error f)])
      (succeeded : ∀ p ∈ earlier, ∃ r, p.2 = .ok r)
  | broken (task : c.job.task = .idle) (underway : c.job.Underway) (settled : c.Settled occs)
      (breaks : s.scope.BreaksAfter base.wall occs.length)

/-- A series that was scheduled at `base` and has come to some occurrences. -/
structure OfSeries (v : Service) (s : Specification) (base : Reading) (c : Chronicle)
    (occs : List Scope) : Prop where
  kept : Kept v s base c occs
  stage : Stage s base c occs

/-! ## 5. Actions that leave a series where it is -/

/-- Whether a job is left where it is in its series. Its interrupt may be raised, and that of its
run. -/
structure Quiet (j k : Job) : Prop where
  order : k.SameOrder j
  handed : k.handed = j.handed
  state : k.progress.state = j.progress.state
  results : k.progress.results = j.progress.results
  interrupted : j.interrupted = true → k.interrupted = true
  task : k.task = j.task ∨ ∃ started turn, j.task = .inTurn started turn
    ∧ k.task = .inTurn started { turn with interrupted := true }

theorem Quiet.refl (j : Job) : Quiet j j :=
  ⟨⟨rfl, rfl⟩, rfl, rfl, rfl, id, Or.inl rfl⟩

theorem Quiet.underway (h : Quiet j k) (hj : j.Underway) : k.Underway := by
  rw [Job.Underway, h.state]
  exact hj

/-- A task other than a turn is left as it is. -/
theorem Quiet.task_eq {task : Task} (h : Quiet j k) (hj : j.task = task)
    (hturn : ∀ started turn, task ≠ .inTurn started turn) : k.task = task := by
  rcases h.task with htask | ⟨started, turn, htask, -⟩
  · exact htask.trans hj
  · exact absurd (hj.symm.trans htask) (hturn started turn)

theorem Kept.of_quiet (h : Kept v s base c occs) (hq : Quiet c.job j) :
    Kept v s base { c with job := j } occs :=
  ⟨hq.order.1.trans h.service, hq.order.2.trans h.specification, h.begins,
    hq.handed.trans h.handed, h.begun, hq.results.trans h.results⟩

theorem Stage.of_quiet (h : Stage s base c occs) (hq : Quiet c.job j) :
    Stage s base { c with job := j } occs := by
  have hsettled : ∀ {occs : List Scope}, c.Settled occs → Settled { c with job := j } occs :=
    fun h => ⟨h.returned, h.succeeded⟩
  cases h with
  | opening task underway settled none =>
    exact .opening (hq.task_eq task fun _ _ h => by cases h) (hq.underway underway)
      (hsettled settled) none
  | awaiting task underway settled follows =>
    exact .awaiting (hq.task_eq task fun _ _ h => by cases h) (hq.underway underway)
      (hsettled settled) follows
  | @inTurn occurrence before earlier began turn task underway settled occs begun due follows =>
    rcases hq.task with hsame | ⟨started, other, htask, hraised⟩
    · exact .inTurn (hsame.trans task) (hq.underway underway) (hsettled settled) occs begun due
        follows
    · rw [task] at htask
      cases htask
      exact .inTurn hraised (hq.underway underway) (hsettled settled) occs begun due
        ⟨follows.origin, follows.yields⟩
  | completed task state settled cause =>
    exact .completed (hq.task_eq task fun _ _ h => by cases h) (hq.state.trans state)
      (hsettled settled) (cause.imp_left hq.interrupted)
  | failed task state returned last succeeded =>
    exact .failed (hq.task_eq task fun _ _ h => by cases h) (hq.state.trans state) returned last
      succeeded
  | broken task underway settled breaks =>
    exact .broken (hq.task_eq task fun _ _ h => by cases h) (hq.underway underway)
      (hsettled settled) breaks

theorem OfSeries.of_quiet (h : OfSeries v s base c occs) (hq : Quiet c.job j) :
    OfSeries v s base { c with job := j } occs :=
  ⟨h.kept.of_quiet hq, h.stage.of_quiet hq⟩

/-! ## 6. Actions that take a series on -/

/-- A job that only changes its task and its state keeps what it has come to. -/
theorem Kept.of_eq (h : Kept v s base c occs) (order : j.SameOrder c.job)
    (handed : j.handed = c.job.handed) (results : j.progress.results = c.job.progress.results) :
    Kept v s base { c with job := j } occs :=
  ⟨order.1.trans h.service, order.2.trans h.specification, h.begins, handed.trans h.handed, h.begun,
    results.trans h.results⟩

theorem transition_of_underway (h : j.Underway) (state : JobState) :
    j.progress.transition state = { j.progress with state := state } := by
  rw [transition, h.not_finished]
  rfl

/-- A series without a run in progress is over when it was interrupted or has no more
occurrences. -/
theorem OfSeries.finish (hkept : Kept v s base c occs) (hunderway : c.job.Underway)
    (hsettled : c.Settled occs)
    (hcause : c.job.interrupted = true ∨ s.scope.EndsAfter base.wall occs.length) :
    OfSeries v s base { c with job := c.job.finish } occs := by
  have htransition := transition_of_underway hunderway .completed
  refine ⟨hkept.of_eq ⟨rfl, rfl⟩ rfl ?_, ?_⟩
  · rw [Job.finish, htransition]
  · refine .completed rfl ?_ ⟨hsettled.returned, hsettled.succeeded⟩ hcause
    simp only [Job.finish, htransition]

/-- Between two runs, a series waits for its next occurrence if there is one. -/
theorem OfSeries.proceed {course : Course} (hkept : Kept v s base c occs)
    (hunderway : c.job.Underway)
    (hsettled : c.Settled occs) (hfollows : Follows s base occs course) :
    OfSeries v s base { c with job := c.job.proceed course } occs := by
  obtain ⟨os, hos, hyields⟩ := hfollows.yields
  cases hnext : course.rest.next with
  | error e =>
    have hjob : c.job.proceed course = { c.job with task := .idle } := by rw [Job.proceed, hnext]
    rw [hjob]
    refine ⟨hkept.of_eq ⟨rfl, rfl⟩ rfl rfl, ?_⟩
    exact .broken rfl hunderway ⟨hsettled.returned, hsettled.succeeded⟩
      (Scope.breaksAfter_of_yields hos hyields hnext)
  | ok answer =>
    rcases answer with _ | ⟨occurrence, rest⟩
    · have hjob : c.job.proceed course = c.job.finish := by rw [Job.proceed, hnext]
      rw [hjob]
      exact .finish hkept hunderway hsettled
        (Or.inr ((Scope.endsAfter_iff_of_yields hos hyields).2 hnext))
    · have hjob : c.job.proceed course = { c.job with
          task := .awaiting occurrence (momentAfter course.base (course.delay occurrence))
            { course with rest := rest } } := by rw [Job.proceed, hnext]
      rw [hjob]
      refine ⟨hkept.of_eq ⟨rfl, rfl⟩ rfl rfl, ?_⟩
      exact .awaiting rfl hunderway ⟨hsettled.returned, hsettled.succeeded⟩
        ⟨hfollows.origin, os, hos, .one hyields hnext⟩

theorem OfSeries.openSeries (hkept : Kept v s base c []) (hunderway : c.job.Underway)
    (hsettled : c.Settled []) :
    OfSeries v s base { c with job := c.job.openSeries base.wall base.moment } [] := by
  have hscope : c.job.specification.scope = s.scope := by rw [hkept.specification]
  cases hos : Occurrences.ofScope s.scope base.wall with
  | error e =>
    have hjob : c.job.openSeries base.wall base.moment = { c.job with task := .idle } := by
      simp only [Job.openSeries, hscope, hos]
    rw [hjob]
    refine ⟨hkept.of_eq ⟨rfl, rfl⟩ rfl rfl, ?_⟩
    exact .broken rfl hunderway ⟨hsettled.returned, hsettled.succeeded⟩
      (Scope.breaksAfter_of_ofScope hos _)
  | ok os =>
    have hjob : c.job.openSeries base.wall base.moment
        = c.job.proceed ⟨base.wall, base.moment, os⟩ := by
      simp only [Job.openSeries, hscope, hos]
    rw [hjob]
    exact .proceed hkept hunderway hsettled ⟨rfl, os, hos, .nothing⟩

/-- An occurrence whose start has come gets its run, as its capability accepts any scope. -/
theorem OfSeries.begin {occurrence : Scope} {turn : Turn}
    (haccepts : v.capability.accepts s = .ok ())
    (hkept : Kept v s base c occs) (hunderway : c.job.Underway) (hsettled : c.Settled occs)
    (hdue : turn.due = (turn.course.length? occurrence).map (Timers.fires now.moment))
    (hfollows : Follows s base (occs ++ [occurrence]) turn.course) :
    OfSeries v s base { c with
      job := c.job.hand (s.forOccurrence occurrence) (.inTurn now.wall turn)
      begun := c.begun ++ [now] } (occs ++ [occurrence]) := by
  have hjob : c.job.hand (s.forOccurrence occurrence) (.inTurn now.wall turn) = { c.job with
      progress := c.job.progress.transition .running, task := .inTurn now.wall turn
      handed := c.job.handed ++ [s.forOccurrence occurrence] } := by
    simp only [Job.hand, hkept.service, Specification.accepts_forOccurrence, haccepts]
  have htransition := transition_of_underway hunderway .running
  rw [hjob]
  obtain ⟨os, hos, hyields⟩ := hfollows.yields
  refine ⟨⟨hkept.service, hkept.specification, Scope.beginsWith_of_yields hos hyields, ?_, ?_, ?_⟩,
    ?_⟩
  · simp only [hkept.handed, List.map_append, List.map_singleton]
  · simp only [List.length_append, List.length_singleton, hkept.begun]
  · -- The run that begins has no outcome to be paired with.
    have hreturned : c.begun.length = c.returned.length := hkept.begun.trans hsettled.returned.symm
    have hzip : (c.begun ++ [now]).zip (c.returned ++ []) = c.begun.zip c.returned ++ [] :=
      List.zip_append hreturned
    rw [List.append_nil, List.append_nil] at hzip
    simp only [htransition, hkept.results, results, hzip]
  · refine .inTurn rfl (Or.inr ?_) ⟨hsettled.returned, hsettled.succeeded⟩ rfl rfl hdue hfollows
    simp only [htransition]

/-- All runs but the one in progress have returned. -/
theorem Kept.length_earlier {occurrence : Scope} {before : List Scope} {earlier : List Reading}
    {began : Reading} (h : Kept v s base c (before ++ [occurrence])) (hsettled : c.Settled before)
    (hbegun : c.begun = earlier ++ [began]) : earlier.length = c.returned.length := by
  have hcount := h.begun
  rw [hbegun, List.length_append, List.length_append] at hcount
  rw [hsettled.returned]
  simpa using hcount

/-- The outcome of the run in progress goes to the last run that began. -/
theorem results_returned {earlier : List Reading} {began : Reading} {job : Job} {outcome : Outcome}
    (hlength : earlier.length = c.returned.length) (hbegun : c.begun = earlier ++ [began]) :
    results v s ⟨job, c.begun, c.returned ++ [(now, outcome)]⟩
      = results v s c ++ (outcome.toOption.map ((Job.make v s).stamp began.wall now)).toList := by
  have hafter : (earlier ++ [began]).zip (c.returned ++ [(now, outcome)])
      = earlier.zip c.returned ++ [(began, now, outcome)] := List.zip_append hlength
  have hbefore : (earlier ++ [began]).zip (c.returned ++ []) = earlier.zip c.returned ++ [] :=
    List.zip_append hlength
  rw [List.append_nil, List.append_nil] at hbefore
  simp only [results, hbegun, hafter, hbefore, List.filterMap_append, List.filterMap_cons,
    List.filterMap_nil]
  cases outcome.toOption <;> rfl

/-- The result of a run is kept, and the series goes on, unless it was interrupted. -/
theorem OfSeries.succeed {occurrence : Scope} {before : List Scope} {earlier : List Reading}
    {began : Reading} {turn : Turn} {r : Result} (hkept : Kept v s base c (before ++ [occurrence]))
    (htask : c.job.task = .inTurn began.wall turn) (hunderway : c.job.Underway)
    (hsettled : c.Settled before) (hbegun : c.begun = earlier ++ [began])
    (hfollows : Follows s base (before ++ [occurrence]) turn.course) :
    OfSeries v s base
      ⟨c.job.conclude now (.ok r), c.begun, c.returned ++ [(now, .ok r)]⟩
      (before ++ [occurrence]) := by
  have hstamp : c.job.stamp began.wall now r = (Job.make v s).stamp began.wall now r := by
    have htoken : c.job.token = (Job.make v s).token := by
      rw [Job.token, hkept.specification]
      rfl
    rw [Job.stamp, htoken]
    rfl
  have hpush : c.job.progress.push (c.job.stamp began.wall now r) = { c.job.progress with
      results := c.job.progress.results ++ [(Job.make v s).stamp began.wall now r] } := by
    rw [push, hunderway.not_finished, hstamp]
    rfl
  have hlength := hkept.length_earlier hsettled hbegun
  -- The chronicle between this run and what comes next.
  let between : Chronicle :=
    ⟨{ c.job with progress := c.job.progress.push (c.job.stamp began.wall now r) }, c.begun,
      c.returned ++ [(now, .ok r)]⟩
  have hkept' : Kept v s base between (before ++ [occurrence]) := by
    refine ⟨hkept.service, hkept.specification, hkept.begins, hkept.handed, hkept.begun, ?_⟩
    rw [results_returned hlength hbegun]
    simp only [between, hpush, hkept.results]
    rfl
  have hunderway' : between.job.Underway := by
    simp only [between, Job.Underway, hpush]
    exact hunderway
  have hsettled' : between.Settled (before ++ [occurrence]) := by
    refine ⟨by simp [between, hsettled.returned], fun p hp => ?_⟩
    rcases List.mem_append.1 hp with hp | hp
    · exact hsettled.succeeded p hp
    · rw [List.mem_singleton.1 hp]
      exact ⟨r, rfl⟩
  by_cases hinterrupted : c.job.interrupted = true
  · have hjob : c.job.conclude now (.ok r) = between.job.finish := by
      simp only [Job.conclude, htask, hinterrupted, between, if_true]
    rw [hjob]
    exact .finish hkept' hunderway' hsettled' (Or.inl hinterrupted)
  · have hjob : c.job.conclude now (.ok r) = between.job.proceed turn.course := by
      simp only [Job.conclude, htask, hinterrupted, between, if_false, Bool.false_eq_true]
    rw [hjob]
    exact .proceed hkept' hunderway' hsettled' hfollows

/-- A run that fails ends its series. -/
theorem OfSeries.fail {occurrence : Scope} {before : List Scope} {earlier : List Reading}
    {began : Reading} {turn : Turn} {f : ServiceFault}
    (hkept : Kept v s base c (before ++ [occurrence]))
    (htask : c.job.task = .inTurn began.wall turn)
    (hunderway : c.job.Underway) (hsettled : c.Settled before)
    (hbegun : c.begun = earlier ++ [began]) :
    OfSeries v s base
      ⟨c.job.conclude now (.error f), c.begun, c.returned ++ [(now, .error f)]⟩
      (before ++ [occurrence]) := by
  have hfail : c.job.progress.fail c.job.token f.message = { c.job.progress with
      state := .failed ⟨some s.token, f.message⟩ } := by
    rw [Progress.fail, hunderway.not_finished, Job.token, hkept.specification]
    rfl
  have hjob : c.job.conclude now (.error f) = { c.job with
      progress := { c.job.progress with state := .failed ⟨some s.token, f.message⟩ }
      task := .idle } := by
    simp only [Job.conclude, htask, Job.fail, hfail]
  have hlength := hkept.length_earlier hsettled hbegun
  rw [hjob]
  refine ⟨⟨hkept.service, hkept.specification, hkept.begins, hkept.handed, hkept.begun, ?_⟩, ?_⟩
  · rw [results_returned hlength hbegun]
    exact hkept.results.trans (List.append_nil _).symm
  · exact .failed rfl rfl (by simp [hsettled.returned]) rfl hsettled.succeeded

/-! ## 7. Actions -/

theorem Stage.ne_pending (h : Stage s base c occs) : c.job.progress.state ≠ .pending := by
  intro hpending
  have hunderway : ¬ c.job.Underway := by
    rw [Job.Underway, hpending]
    rintro (h | h) <;> cases h
  cases h with
  | completed task state =>
    rw [hpending] at state
    cases state
  | failed task state =>
    rw [hpending] at state
    cases state
  | opening task underway => exact hunderway underway
  | awaiting task underway => exact hunderway underway
  | inTurn task underway => exact hunderway underway
  | broken task underway => exact hunderway underway

/-- What is done to the job of a series, except that it wakes or that a run returns, leaves the
series where it is. -/
theorem OfSeries.quiet_act (h : OfSeries v s base c occs) (now : Reading) {a : Job.Action}
    (hwakes : a ≠ .event .wakes) (hreturns : ∀ outcome, a ≠ .event (.returns outcome)) :
    Quiet c.job (c.job.act now a) := by
  have horder := Job.sameOrder_act c.job now a
  cases a with
  | schedule =>
    rw [Job.act, Job.schedule, if_neg h.stage.ne_pending]
    exact .refl c.job
  | event e =>
    cases e with
    | interrupt => exact ⟨horder, rfl, rfl, rfl, fun _ => rfl, Or.inl rfl⟩
    | scopeEnds =>
      rw [Job.act, Job.handle] at horder ⊢
      by_cases hfinished : c.job.isFinished = true
      · rw [if_pos hfinished] at horder ⊢
        exact ⟨horder, rfl, rfl, rfl, id, Or.inl rfl⟩
      · rw [if_neg hfinished] at horder ⊢
        exact ⟨horder, rfl, rfl, rfl, fun _ => rfl, Or.inl rfl⟩
    | turnEnds =>
      rw [Job.act, Job.handle] at horder ⊢
      split at horder
      · rename_i started turn htask
        exact ⟨horder, rfl, rfl, rfl, id, Or.inr ⟨started, turn, htask, rfl⟩⟩
      · exact .refl c.job
    | wakes => exact absurd rfl hwakes
    | returns outcome => exact absurd rfl (hreturns outcome)
  | poll => exact ⟨horder, rfl, rfl, rfl, id, Or.inl rfl⟩
  | stray w =>
    rw [Job.act]
    by_cases hfinished : c.job.isFinished = true
    · rw [if_pos hfinished, write_of_isFinished hfinished]
      exact .refl c.job
    · rw [if_neg hfinished]
      exact .refl c.job

/-- What a series comes to with one action: to no occurrence, or to the next one, unless it was
interrupted. -/
def Extends (c : Chronicle) (occs after : List Scope) : Prop :=
  after = occs ∨ c.job.interrupted = false ∧ ∃ occurrence, after = occs ++ [occurrence]

theorem act_of_same {a : Job.Action} (hjob : c.job.act now a = j)
    (hhanded : j.handed = c.job.handed)
    (htaken : taken? c.job a = none) : c.act now a = { c with job := j } := by
  simp only [act, hjob, hhanded, htaken, Nat.lt_irrefl, if_false]

theorem OfSeries.act_of_quiet (h : OfSeries v s base c occs) {a : Job.Action}
    (hquiet : Quiet c.job (c.job.act now a)) (htaken : taken? c.job a = none) :
    ∃ after, OfSeries v s base (c.act now a) after ∧ c.Extends occs after := by
  refine ⟨occs, ?_, Or.inl rfl⟩
  rw [act_of_same rfl hquiet.handed htaken]
  exact h.of_quiet hquiet

theorem OfSeries.wakes (haccepts : v.capability.accepts s = .ok ()) (h : OfSeries v s base c occs)
    (now : Reading) :
    ∃ after, OfSeries v s base (c.act now (.event .wakes)) after ∧ c.Extends occs after := by
  -- A job that is not waiting for a start stays as it is.
  have hquiet : c.job.act now (.event .wakes) = c.job →
      ∃ after, OfSeries v s base (c.act now (.event .wakes)) after ∧ c.Extends occs after :=
    fun hjob => h.act_of_quiet (by rw [hjob]; exact .refl c.job) rfl
  cases h.stage with
  | opening task underway settled none =>
    subst none
    have hjob : c.job.act now (.event .wakes) = c.job.openSeries base.wall base.moment := by
      simp only [Job.act, Job.handle, Job.wake, task]
    have hseries : OfSeries v s base { c with job := c.job.openSeries base.wall base.moment } [] :=
      .openSeries h.kept underway settled
    refine ⟨[], ?_, Or.inl rfl⟩
    rw [act_of_same hjob (hseries.kept.handed.trans h.kept.handed.symm) rfl]
    exact hseries
  | @awaiting occurrence due course task underway settled follows =>
    by_cases hinterrupted : c.job.interrupted = true
    · have hjob : c.job.act now (.event .wakes) = c.job.finish := by
        simp only [Job.act, Job.handle, Job.wake, task, hinterrupted, if_true]
      refine ⟨occs, ?_, Or.inl rfl⟩
      rw [act_of_same hjob rfl rfl]
      exact .finish h.kept underway settled (Or.inl hinterrupted)
    · let turn : Turn :=
        ⟨false, (course.length? occurrence).map (Timers.fires now.moment), course⟩
      have hjob : c.job.act now (.event .wakes)
          = c.job.hand (s.forOccurrence occurrence) (.inTurn now.wall turn) := by
        simp only [Job.act, Job.handle, Job.wake, task, hinterrupted, h.kept.specification, turn,
          Bool.false_eq_true, if_false]
      have hseries : OfSeries v s base { c with
          job := c.job.hand (s.forOccurrence occurrence) (.inTurn now.wall turn)
          begun := c.begun ++ [now] } (occs ++ [occurrence]) :=
        .begin haccepts h.kept underway settled rfl ⟨follows.origin, follows.yields⟩
      have hact : c.act now (.event .wakes) = { c with
          job := c.job.hand (s.forOccurrence occurrence) (.inTurn now.wall turn)
          begun := c.begun ++ [now] } := by
        have hhanded : c.job.handed.length
            < (c.job.hand (s.forOccurrence occurrence) (.inTurn now.wall turn)).handed.length := by
          rw [hseries.kept.handed, h.kept.handed, List.length_map, List.length_map,
            List.length_append, List.length_singleton]
          omega
        simp only [act, hjob, hhanded, if_true, taken?]
      refine ⟨occs ++ [occurrence], ?_, Or.inr ⟨Bool.not_eq_true _ ▸ hinterrupted, occurrence, rfl⟩⟩
      rw [hact]
      exact hseries
  | inTurn task => exact hquiet (by simp only [Job.act, Job.handle, Job.wake, task])
  | completed task => exact hquiet (by simp only [Job.act, Job.handle, Job.wake, task])
  | failed task => exact hquiet (by simp only [Job.act, Job.handle, Job.wake, task])
  | broken task => exact hquiet (by simp only [Job.act, Job.handle, Job.wake, task])

theorem OfSeries.returns (h : OfSeries v s base c occs) (now : Reading) (outcome : Outcome) :
    ∃ after, OfSeries v s base (c.act now (.event (.returns outcome))) after
      ∧ c.Extends occs after := by
  -- An outcome for which no job waits is lost.
  have hquiet : c.job.conclude now outcome = c.job →
      taken? c.job (.event (.returns outcome)) = none →
      ∃ after, OfSeries v s base (c.act now (.event (.returns outcome))) after
        ∧ c.Extends occs after := by
    intro hjob htaken
    have hact : c.job.act now (.event (.returns outcome)) = c.job := hjob
    exact h.act_of_quiet (by rw [hact]; exact .refl c.job) htaken
  cases h.stage with
  | @inTurn occurrence before earlier began turn task underway settled hoccs begun due follows =>
    subst hoccs
    refine ⟨before ++ [occurrence], ?_, Or.inl rfl⟩
    have hseries : OfSeries v s base
        ⟨c.job.conclude now outcome, c.begun, c.returned ++ [(now, outcome)]⟩
        (before ++ [occurrence]) := by
      cases outcome with
      | error f => exact .fail h.kept task underway settled begun
      | ok r => exact .succeed h.kept task underway settled begun follows
    have hact : c.act now (.event (.returns outcome))
        = ⟨c.job.conclude now outcome, c.begun, c.returned ++ [(now, outcome)]⟩ := by
      have hhanded : (c.job.conclude now outcome).handed = c.job.handed :=
        hseries.kept.handed.trans h.kept.handed.symm
      have hjob : c.job.act now (.event (.returns outcome)) = c.job.conclude now outcome := rfl
      simp only [act, hjob, hhanded, Nat.lt_irrefl, if_false, taken?, task]
    rw [hact]
    exact hseries
  | opening task => exact hquiet (by simp only [Job.conclude, task]) (by simp only [taken?, task])
  | awaiting task => exact hquiet (by simp only [Job.conclude, task]) (by simp only [taken?, task])
  | completed task => exact hquiet (by simp only [Job.conclude, task]) (by simp only [taken?, task])
  | failed task => exact hquiet (by simp only [Job.conclude, task]) (by simp only [taken?, task])
  | broken task => exact hquiet (by simp only [Job.conclude, task]) (by simp only [taken?, task])

/-- Whatever is done to the job of a series, it stays one. -/
theorem OfSeries.act (haccepts : v.capability.accepts s = .ok ()) (h : OfSeries v s base c occs)
    (now : Reading) (a : Job.Action) :
    ∃ after, OfSeries v s base (c.act now a) after ∧ c.Extends occs after := by
  by_cases hwakes : a = .event .wakes
  · rw [hwakes]
    exact h.wakes haccepts now
  · by_cases hreturns : ∃ outcome, a = .event (.returns outcome)
    · obtain ⟨outcome, rfl⟩ := hreturns
      exact h.returns now outcome
    · have hquiet := h.quiet_act now hwakes fun outcome ha => hreturns ⟨outcome, ha⟩
      refine h.act_of_quiet hquiet ?_
      unfold taken?
      split
      · exact absurd ⟨_, rfl⟩ hreturns
      · rfl

/-! ## 8. Series -/

/-- A series comes to its occurrences in their order, and to none once it was interrupted. -/
theorem OfSeries.run (haccepts : v.capability.accepts s = .ok ()) (h : OfSeries v s base c occs)
    (acts : List (Reading × Job.Action)) :
    ∃ after, OfSeries v s base (c.run acts) after ∧ occs <+: after
      ∧ (c.job.interrupted = true → after = occs) := by
  induction acts generalizing c occs with
  | nil => exact ⟨occs, h, List.prefix_rfl, fun _ => rfl⟩
  | cons a acts ih =>
    obtain ⟨next, hnext, hextends⟩ := h.act haccepts a.1 a.2
    obtain ⟨after, hafter, hprefix, hsame⟩ := ih hnext
    refine ⟨after, hafter, ?_, fun hinterrupted => ?_⟩
    · rcases hextends with rfl | ⟨-, occurrence, rfl⟩
      · exact hprefix
      · exact (List.prefix_append occs [occurrence]).trans hprefix
    · rw [hsame (Job.interrupted_act hinterrupted a.1 a.2)]
      rcases hextends with rfl | ⟨hnot, -⟩
      · rfl
      · rw [hinterrupted] at hnot
        cases hnot

/-- A job with a repeated scope that has not ended is about to open its cursor when it has been
scheduled. -/
theorem schedule_eq (hquery : s.statement.isQuery = false)
    (hrepeated : s.scope.isRepeated = true) (hexpired : s.scope.isExpired now.wall = false) :
    (Job.make v s).schedule now = { Job.make v s with
      progress := Progress.initial.transition .scheduled
      ends := (s.scope.delays now.wall).2.map (Timers.fires now.moment)
      task := .opening now.wall now.moment } := by
  rw [Scope.isExpired] at hexpired
  rcases hdelays : s.scope.delays now.wall with ⟨_ | first, last⟩
  · rw [hdelays] at hexpired
    cases hexpired
  · simp only [Job.schedule, Job.arm, Job.make, Progress.initial, hquery, hdelays, hrepeated,
      if_true, Bool.false_eq_true, if_false]

/-- A job with a repeated scope that has not ended begins a series when it is scheduled. -/
theorem ofSeries_schedule (hquery : s.statement.isQuery = false)
    (hrepeated : s.scope.isRepeated = true) (hexpired : s.scope.isExpired now.wall = false) :
    OfSeries v s now (blank ((Job.make v s).schedule now)) [] := by
  rw [schedule_eq hquery hrepeated hexpired]
  refine ⟨⟨rfl, rfl, Or.inl rfl, rfl, rfl, rfl⟩,
    .opening rfl (Or.inl rfl) ⟨rfl, fun p hp => ?_⟩ rfl⟩
  cases hp

/-! ## 9. The end of a series -/

theorem Succeeded.not_mem (h : c.Succeeded) (e : Reading) (f : ServiceFault) :
    (e, .error f) ∉ c.returned := by
  intro hmem
  obtain ⟨r, hr⟩ := h _ hmem
  cases hr

/-- The first run that fails is the last one. -/
theorem OfSeries.of_error_mem (h : OfSeries v s base c occs) {e : Reading} {f : ServiceFault}
    (hmem : (e, .error f) ∈ c.returned) :
    c.job.progress.state = .failed ⟨some s.token, f.message⟩
      ∧ c.returned.getLast? = some (e, .error f) ∧ occs.length = c.returned.length := by
  cases h.stage with
  | @failed earlier e' f' task state returned last succeeded =>
    rw [last] at hmem
    rcases List.mem_append.1 hmem with hmem | hmem
    · obtain ⟨r, hr⟩ := succeeded _ hmem
      cases hr
    · cases List.mem_singleton.1 hmem
      exact ⟨state, by rw [last, List.getLast?_concat], returned.symm⟩
  | opening task underway settled => exact absurd hmem (settled.succeeded.not_mem e f)
  | awaiting task underway settled => exact absurd hmem (settled.succeeded.not_mem e f)
  | inTurn task underway settled => exact absurd hmem (settled.succeeded.not_mem e f)
  | completed task state settled => exact absurd hmem (settled.succeeded.not_mem e f)
  | broken task underway settled => exact absurd hmem (settled.succeeded.not_mem e f)

theorem OfSeries.of_completed (h : OfSeries v s base c occs)
    (hstate : c.job.progress.state = .completed) : c.Succeeded
      ∧ (c.job.interrupted = true ∨ s.scope.EndsAfter base.wall occs.length) := by
  have hnot : ¬ c.job.Underway := by
    rw [Job.Underway, hstate]
    rintro (h | h) <;> cases h
  cases h.stage with
  | completed task state settled cause => exact ⟨settled.succeeded, cause⟩
  | failed task state =>
    rw [hstate] at state
    cases state
  | opening task underway => exact absurd underway hnot
  | awaiting task underway => exact absurd underway hnot
  | inTurn task underway => exact absurd underway hnot
  | broken task underway => exact absurd underway hnot

/-- A series that is over has completed or failed, unless its cursor broke off. -/
theorem OfSeries.of_idle (h : OfSeries v s base c occs) (hidle : c.job.task = .idle)
    (hbreaks : ¬ s.scope.BreaksAfter base.wall occs.length) :
    c.job.progress.state = .completed
      ∨ c.job.progress.state.isFailed = true ∧ ¬ c.Succeeded := by
  cases h.stage with
  | completed task state => exact Or.inl state
  | @failed earlier e f task state returned last =>
    refine Or.inr ⟨by rw [state]; rfl, fun hsucceeded => hsucceeded.not_mem e f ?_⟩
    rw [last]
    exact List.mem_append_right earlier List.mem_cons_self
  | broken task underway settled breaks => exact absurd breaks hbreaks
  | opening task =>
    rw [hidle] at task
    cases task
  | awaiting task =>
    rw [hidle] at task
    cases task
  | inTurn task =>
    rw [hidle] at task
    cases task

end Chronicle

end

end Measurement
