/-
A series at work, with everything that can come between.

The watches, the job and its run go on by themselves, each a step at a time, and
callers raise the interrupt, ask for replies and schedule again whenever they
like. A history is a row of such steps in any order, each with what the clocks
show then, so the turns that a component lets its strands take are among them
(`goOn_eq_run`). One step are the look at the interrupt that ends the wait for a
start, and the start of the run. A run can come to any outcome at any time,
whatever its service does.

What the steps do to the job are the actions of a chronicle (`job_run`), so all
that holds of a series holds here. What is left is when things happen: what has
to be the case for the interrupt of a run to be raised (`raised_step`), and that
a series that has a reason to end does so when it looks (`idle_goOnJob`).

The exception is a series whose cursor breaks off at the end of the calendar. Its
job is left in the middle, and nothing that is done to it ends it
(`series_at_end_of_calendar_never_ends`).
-/
import Measurement.Component.Undertaking
import Measurement.Proofs.Job.Ownership
import Measurement.Proofs.Job.Replies
import Measurement.Proofs.Job.Series
import Measurement.Proofs.Time.Instant

set_option autoImplicit false

namespace Measurement

namespace Job

/-! ## 1. Tasks -/

theorem task_proceed (j : Job) (course : Course) :
    (j.proceed course).task = .idle ∨ ∃ occurrence due rest,
      course.rest.next = .ok (some (occurrence, rest))
        ∧ (j.proceed course).task = .awaiting occurrence due { course with rest := rest } := by
  unfold proceed
  split
  · exact Or.inl rfl
  · exact Or.inl rfl
  · rename_i occurrence rest hnext
    exact Or.inr ⟨occurrence, _, rest, hnext, rfl⟩

/-- A series that opens its cursor is over, or waits for its first occurrence. -/
theorem task_openSeries (j : Job) (origin : Instant) (base : Nat) :
    (j.openSeries origin base).task = .idle ∨ ∃ os occurrence due course,
      Occurrences.ofScope j.specification.scope origin = .ok os
        ∧ (∃ rest, os.next = .ok (some (occurrence, rest)))
        ∧ (j.openSeries origin base).task = .awaiting occurrence due course := by
  unfold openSeries
  split
  · exact Or.inl rfl
  · rename_i os hos
    rcases j.task_proceed ⟨origin, base, os⟩ with hidle | ⟨occurrence, due, rest, hnext, htask⟩
    · exact Or.inl hidle
    · exact Or.inr ⟨os, occurrence, due, _, hos, ⟨rest, hnext⟩, htask⟩

/-- A series whose run returned is over, or waits for its next occurrence. -/
theorem task_conclude {j : Job} {started : Instant} {turn : Turn}
    (h : j.task = .inTurn started turn)
    (now : Reading) (outcome : Outcome) :
    (j.conclude now outcome).task = .idle ∨ j.interrupted = false ∧ (∃ r, outcome = .ok r)
      ∧ ∃ occurrence due rest, turn.course.rest.next = .ok (some (occurrence, rest))
        ∧ (j.conclude now outcome).task
          = .awaiting occurrence due { turn.course with rest := rest } := by
  cases outcome with
  | error f =>
    simp only [conclude, h]
    exact Or.inl rfl
  | ok r =>
    simp only [conclude, h]
    by_cases hinterrupted : j.interrupted = true
    · rw [if_pos hinterrupted]
      exact Or.inl rfl
    · rw [if_neg hinterrupted]
      rcases task_proceed _ turn.course with hidle | hawaiting
      · exact Or.inl hidle
      · exact Or.inr ⟨Bool.not_eq_true _ ▸ hinterrupted, ⟨r, rfl⟩, hawaiting⟩

section

variable {j : Job} {now : Reading} {started : Instant} {turn : Turn}

theorem task_of_schedule (h : (j.schedule now).task = .inTurn started turn) :
    j.task = .inTurn started turn := by
  rw [schedule] at h
  split at h
  · unfold arm at h
    dsimp only at h
    split at h
    · cases h
    · split at h
      · cases h
      · dsimp only at h
        split at h <;> cases h
  · exact h

/-- The interrupt of a run that begins has not been raised. -/
theorem task_of_wake (h : (j.wake now).task = .inTurn started turn)
    (hraised : turn.interrupted = true) : j.task = .inTurn started turn := by
  rw [wake] at h
  split at h
  · rw [hand] at h
    split at h <;> cases h
  · -- A series that opens has no run yet.
    rename_i origin base hopening
    rcases j.task_openSeries origin base with hidle | ⟨_, _, _, _, -, -, hawaiting⟩
    · rw [hidle] at h
      cases h
    · rw [hawaiting] at h
      cases h
  · split at h
    · cases h
    · rw [hand] at h
      split at h
      · cases h
      · cases h
        cases hraised
  · exact h

/-- A job that takes the outcome of a run does not wait for one. -/
theorem task_conclude_ne (j : Job) (now : Reading) (outcome : Outcome) :
    (j.conclude now outcome).task ≠ .inTurn started turn := by
  intro h
  cases hbefore : j.task with
  | inTurn began before =>
    rcases task_conclude hbefore now outcome with hidle | ⟨-, -, _, _, _, -, hawaiting⟩
    · rw [hidle] at h
      cases h
    · rw [hawaiting] at h
      cases h
  | running began =>
    cases outcome with
    | ok r =>
      simp only [conclude, hbefore] at h
      cases h
    | error f =>
      simp only [conclude, hbefore] at h
      cases h
  | idle | starting | opening | awaiting =>
    simp only [conclude, hbefore] at h
    cases h

/-- The interrupt of a run is raised by its watch and by nothing else. -/
theorem raised_act {a : Action} (htask : (j.act now a).task = .inTurn started turn)
    (hraised : turn.interrupted = true) :
    ∃ before : Turn, j.task = .inTurn started before ∧ before.due = turn.due
      ∧ (before.interrupted = true ∨ a = .event .turnEnds) := by
  have hsame : j.task = .inTurn started turn → ∃ before : Turn, j.task = .inTurn started before
      ∧ before.due = turn.due ∧ (before.interrupted = true ∨ a = .event .turnEnds) :=
    fun h => ⟨turn, h, rfl, Or.inl hraised⟩
  cases a with
  | schedule => exact hsame (task_of_schedule htask)
  | event e =>
    cases e with
    | interrupt => exact hsame htask
    | scopeEnds =>
      rw [act, handle] at htask
      split at htask <;> exact hsame htask
    | turnEnds =>
      rw [act, handle] at htask
      split at htask
      · rename_i before hbefore
        cases htask
        exact ⟨_, hbefore, rfl, Or.inr rfl⟩
      · exact hsame htask
    | wakes => exact hsame (task_of_wake htask hraised)
    | returns outcome => exact absurd htask (j.task_conclude_ne now outcome)
  | poll => exact hsame htask
  | stray w =>
    rw [act] at htask
    split at htask <;> exact hsame htask

end

/-- A job that is about to do nothing, and has been scheduled, does nothing whatever is done to
it. -/
theorem idle_act {j : Job} (hidle : j.task = .idle) (hstate : j.progress.state ≠ .pending)
    (now : Reading) (a : Action) : (j.act now a).task = .idle
      ∧ (j.act now a).progress.state = j.progress.state ∧ (j.act now a).handed = j.handed := by
  cases a with
  | schedule =>
    rw [act, schedule, if_neg hstate]
    exact ⟨hidle, rfl, rfl⟩
  | event e =>
    cases e with
    | interrupt => exact ⟨hidle, rfl, rfl⟩
    | scopeEnds =>
      rw [act, handle]
      split <;> exact ⟨hidle, rfl, rfl⟩
    | turnEnds =>
      have hsame : j.act now (.event .turnEnds) = j := by simp only [act, handle, hidle]
      rw [hsame]
      exact ⟨hidle, rfl, rfl⟩
    | wakes =>
      have hsame : j.act now (.event .wakes) = j := by simp only [act, handle, wake, hidle]
      rw [hsame]
      exact ⟨hidle, rfl, rfl⟩
    | returns outcome =>
      have hsame : j.act now (.event (.returns outcome)) = j := by
        simp only [act, handle, conclude, hidle]
      rw [hsame]
      exact ⟨hidle, rfl, rfl⟩
  | poll => exact ⟨hidle, rfl, rfl⟩
  | stray w =>
    rw [act]
    split
    · rename_i hfinished
      rw [Progress.write_of_isFinished hfinished]
      exact ⟨hidle, rfl, rfl⟩
    · exact ⟨hidle, rfl, rfl⟩

theorem idle_run {j : Job} (hidle : j.task = .idle) (hstate : j.progress.state ≠ .pending)
    (acts : List (Reading × Action)) : (j.run acts).task = .idle
      ∧ (j.run acts).progress.state = j.progress.state ∧ (j.run acts).handed = j.handed := by
  have hact : ∀ i now a, (i.task = .idle ∧ i.progress.state = j.progress.state
      ∧ i.handed = j.handed) → ((act i now a).task = .idle
      ∧ (act i now a).progress.state = j.progress.state ∧ (act i now a).handed = j.handed) := by
    rintro i now a ⟨hi, hsame, hhanded⟩
    obtain ⟨hnext, hnextState, hnextHanded⟩ := idle_act hi (hsame ▸ hstate) now a
    exact ⟨hnext, hnextState.trans hsame, hnextHanded.trans hhanded⟩
  exact run_invariant hact ⟨hidle, rfl, rfl⟩ acts

theorem interrupted_run {j : Job} (hj : j.interrupted = true) (acts : List (Reading × Action)) :
    (j.run acts).interrupted = true := by
  have hact : ∀ i now a, interrupted i = true → (act i now a).interrupted = true := by
    intro i now a hi
    exact interrupted_act hi now a
  exact run_invariant hact hj acts

end Job

namespace Undertaking

/-! ## 2. Steps -/

/-- What can happen next about a job. -/
inductive Step where
  /-- The watch for the end of the scope looks at the clock. -/
  | watchScope
  /-- The watch for the end of the occurrence looks at the clock and at the interrupt of the job. -/
  | watchTurn
  /-- The run goes on. -/
  | goOnRun
  /-- The run comes to an outcome, whatever its service does. -/
  | arrive (outcome : Outcome)
  /-- The job looks whether the outcome of the run is there. -/
  | collect
  /-- The job looks whether its wait for a start is over. -/
  | wakeJob
  /-- A caller raises the interrupt. -/
  | interrupt
  /-- A caller schedules the job again. -/
  | schedule
  /-- A caller asks for a reply. -/
  | poll
  /-- A write comes when the job is at its end. -/
  | stray (w : Progress.Write)

/-- The outcome that a run comes to, unless it has one. -/
def arrived (outcome : Outcome) : Activity → Activity
  | .finished known => .finished known
  | _ => .finished outcome

/-- The undertaking after a step. -/
def step (u : Undertaking) (now : Reading) : Step → Undertaking
  | .watchScope => (u.watchScope now).1
  | .watchTurn => (u.watchTurn now).1
  | .goOnRun => (u.goOnRun now).1
  | .arrive outcome => { u with activity := u.activity.map (arrived outcome) }
  | .collect => u.collect now
  | .wakeJob => u.wakeJob now
  | .interrupt => u.handle now .interrupt
  | .schedule => { u with job := u.job.schedule now }
  | .poll => { u with job := u.job.poll }
  | .stray w => { u with job := u.job.act now (.stray w) }

/-- The undertaking after steps, each with what the clocks show then. -/
def run (u : Undertaking) (steps : List (Reading × Step)) : Undertaking :=
  steps.foldl (fun u st => u.step st.1 st.2) u

/-- The steps in which a strand goes on. -/
def stepsOf : Strand → List Step
  | .scopeEnd => [.watchScope]
  | .job => [.collect, .wakeJob, .wakeJob]
  | .turnEnd => [.watchTurn]
  | .run => [.goOnRun]

/-- A strand that goes on makes some of these steps. -/
theorem goOn_eq_run (u : Undertaking) (now : Reading) (strand : Strand) :
    (u.goOn now strand).1 = u.run ((stepsOf strand).map (now, ·)) := by
  cases strand <;> rfl

/-! ## 3. Steps are actions -/

/-- Whether the watch for the end of an occurrence raises the interrupt of the run: it has not been
raised, and that of the job has been or the occurrence has ended. -/
def turnRings (u : Undertaking) (m : Nat) : Bool :=
  match u.job.task with
  | .inTurn _ turn => !turn.interrupted && (u.job.interrupted || u.isDue .turnEnd m)
  | _ => false

/-- The outcome of the run, if it is there. -/
def outcome? (u : Undertaking) : Option Outcome :=
  match u.activity with
  | some (.finished outcome) => some outcome
  | _ => none

theorem watchTurn_eq (u : Undertaking) (now : Reading) :
    (u.watchTurn now).1 = if u.turnRings now.moment then u.handle now .turnEnds else u := by
  rw [watchTurn, turnRings]
  cases u.job.task with
  | inTurn started turn => exact apply_ite Prod.fst _ _ _
  | _ => rfl

theorem job_collect (u : Undertaking) (now : Reading) :
    (u.collect now).job = match u.outcome? with
      | some outcome => u.job.conclude now outcome
      | none => u.job := by
  rcases u with ⟨job, _ | a⟩
  · rfl
  · cases a <;> rfl

theorem job_wakeJob (u : Undertaking) (now : Reading) :
    (u.wakeJob now).job = if u.jobWakes now.moment then u.job.wake now else u.job := by
  rw [wakeJob]
  split
  · dsimp only
    split <;> rfl
  · rfl

/-- What a step does to the job. -/
def actions (u : Undertaking) (now : Reading) : Step → List Job.Action
  | .watchScope => if u.isDue .scopeEnd now.moment then [.event .scopeEnds] else []
  | .watchTurn => if u.turnRings now.moment then [.event .turnEnds] else []
  | .goOnRun => []
  | .arrive _ => []
  | .collect => (u.outcome?.map fun outcome => .event (.returns outcome)).toList
  | .wakeJob => if u.jobWakes now.moment then [.event .wakes] else []
  | .interrupt => [.event .interrupt]
  | .schedule => [.schedule]
  | .poll => [.poll]
  | .stray w => [.stray w]

/-- What steps do to the job, one thing after the other. -/
def history (u : Undertaking) : List (Reading × Step) → List (Reading × Job.Action)
  | [] => []
  | st :: steps => (u.actions st.1 st.2).map (st.1, ·) ++ (u.step st.1 st.2).history steps

/-- What has come of the runs of a job after steps. -/
def chronicle (u : Undertaking) (steps : List (Reading × Step)) : Chronicle :=
  (Chronicle.blank u.job).run (u.history steps)

theorem job_step (u : Undertaking) (now : Reading) (st : Step) :
    (u.step now st).job = u.job.run ((u.actions now st).map (now, ·)) := by
  cases st with
  | watchScope =>
    rw [step, watchScope, actions]
    split <;> rfl
  | watchTurn =>
    rw [step, watchTurn_eq, actions]
    split <;> rfl
  | goOnRun =>
    rw [step, goOnRun]
    split <;> rfl
  | arrive outcome => rfl
  | collect =>
    rw [step, job_collect, actions]
    cases u.outcome? <;> rfl
  | wakeJob =>
    rw [step, job_wakeJob, actions]
    split <;> rfl
  | interrupt => rfl
  | schedule => rfl
  | poll => rfl
  | stray w => rfl

/-- The job after steps is the job of the chronicle. -/
theorem job_run (u : Undertaking) (steps : List (Reading × Step)) :
    (u.run steps).job = (u.chronicle steps).job := by
  rw [chronicle, Chronicle.job_run]
  change _ = u.job.run _
  induction steps generalizing u with
  | nil => rfl
  | cons st steps ih =>
    rw [history, Job.run_append, ← job_step]
    exact ih (u.step st.1 st.2)

/-! ## 4. The interrupt of a run -/

/-- A step does one thing to the job, or none. -/
theorem actions_eq (u : Undertaking) (now : Reading) (st : Step) :
    u.actions now st = [] ∨ ∃ a, u.actions now st = [a] := by
  cases st with
  | watchScope =>
    rw [actions]
    split
    · exact Or.inr ⟨_, rfl⟩
    · exact Or.inl rfl
  | watchTurn =>
    rw [actions]
    split
    · exact Or.inr ⟨_, rfl⟩
    · exact Or.inl rfl
  | collect =>
    rw [actions]
    cases u.outcome? with
    | none => exact Or.inl rfl
    | some outcome => exact Or.inr ⟨_, rfl⟩
  | wakeJob =>
    rw [actions]
    split
    · exact Or.inr ⟨_, rfl⟩
    · exact Or.inl rfl
  | goOnRun => exact Or.inl rfl
  | arrive outcome => exact Or.inl rfl
  | interrupt => exact Or.inr ⟨_, rfl⟩
  | schedule => exact Or.inr ⟨_, rfl⟩
  | poll => exact Or.inr ⟨_, rfl⟩
  | stray w => exact Or.inr ⟨_, rfl⟩

/-- Whether there is a reason at a moment for what happens to the job: a watch goes off, or a wait
is over. Callers and runs need none. -/
def HasReason (u : Undertaking) (m : Nat) : Job.Event → Prop
  | .scopeEnds => u.isDue .scopeEnd m = true
  | .turnEnds => u.turnRings m = true
  | .wakes => u.jobWakes m = true
  | .interrupt | .returns _ => True

/-- In steps nothing happens to the job without a reason. -/
theorem hasReason_of_actions {u : Undertaking} {now : Reading} {st : Step} {e : Job.Event}
    (h : u.actions now st = [.event e]) : u.HasReason now.moment e := by
  cases st with
  | watchScope =>
    rw [actions] at h
    split at h
    · rename_i hdue
      cases h
      exact hdue
    · cases h
  | watchTurn =>
    rw [actions] at h
    split at h
    · rename_i hrings
      cases h
      exact hrings
    · cases h
  | wakeJob =>
    rw [actions] at h
    split at h
    · rename_i hwakes
      cases h
      exact hwakes
    · cases h
  | collect =>
    rw [actions] at h
    cases houtcome : u.outcome? with
    | none => simp [houtcome] at h
    | some outcome =>
      rw [houtcome] at h
      cases h
      trivial
  | interrupt =>
    cases h
    trivial
  | goOnRun | arrive | schedule | poll | stray => cases h

/-- If the interrupt of a run has been raised after a step, it had been raised before, or that of
the job had been, or the occurrence of this run has ended. -/
theorem raised_step {u : Undertaking} {now : Reading} {st : Step} {started : Instant} {turn : Turn}
    (htask : (u.step now st).job.task = .inTurn started turn) (hraised : turn.interrupted = true) :
    ∃ before : Turn, u.job.task = .inTurn started before ∧ before.due = turn.due
      ∧ (before.interrupted = true ∨ u.job.interrupted = true
        ∨ ∃ due, turn.due = some due ∧ due ≤ now.moment) := by
  rw [job_step] at htask
  rcases u.actions_eq now st with hnone | ⟨a, ha⟩
  · rw [hnone] at htask
    exact ⟨turn, htask, rfl, Or.inl hraised⟩
  · rw [ha] at htask
    obtain ⟨before, hbefore, hdue, hcause⟩ := Job.raised_act (a := a) htask hraised
    refine ⟨before, hbefore, hdue, ?_⟩
    rcases hcause with hcause | rfl
    · exact Or.inl hcause
    · have hrings : u.turnRings now.moment = true := hasReason_of_actions ha
      simp only [turnRings, hbefore, Bool.and_eq_true, Bool.not_eq_true', Bool.or_eq_true] at hrings
      obtain ⟨hnot, hjob | hover⟩ := hrings
      · exact Or.inr (Or.inl hjob)
      · refine Or.inr (Or.inr ?_)
        simp only [isDue, due?, hbefore, hnot, Bool.false_eq_true, if_false, hdue] at hover
        cases hend : turn.due with
        | none => simp [hend] at hover
        | some due =>
          rw [hend] at hover
          exact ⟨due, rfl, of_decide_eq_true hover⟩

/-! ## 5. The end of a series -/

section

variable {u : Undertaking}

theorem task_collect_of_ne_inTurn {task : Task} (h : u.job.task = task)
    (hrunning : ∀ started, task ≠ .running started)
    (hturn : ∀ started turn, task ≠ .inTurn started turn) (now : Reading) :
    (u.collect now).job = u.job := by
  rw [job_collect]
  cases u.outcome? with
  | none => rfl
  | some outcome =>
    cases task with
    | running started => exact absurd rfl (hrunning started)
    | inTurn started turn => exact absurd rfl (hturn started turn)
    | idle | starting | opening | awaiting => simp only [Job.conclude, h]

theorem idle_wakeJob (h : u.job.task = .idle) (now : Reading) :
    (u.wakeJob now).job.task = .idle := by
  have hwakes : u.jobWakes now.moment = false := by
    simp only [jobWakes, h, isDue, due?]
    rfl
  rw [job_wakeJob, hwakes]
  exact h

/-- A series that was interrupted while it waited for a start is over when it looks. -/
theorem idle_wakeJob_of_interrupted {occurrence : Scope} {due : Nat} {course : Course}
    (h : u.job.task = .awaiting occurrence due course) (hinterrupted : u.job.interrupted = true)
    (now : Reading) : (u.wakeJob now).job.task = .idle := by
  have hwakes : u.jobWakes now.moment = true := by
    simp only [jobWakes, h, hinterrupted, Bool.or_true]
  rw [job_wakeJob, hwakes, if_pos rfl, Job.wake]
  simp only [h, hinterrupted, if_true]
  rfl

theorem job_wakeJob_of_opening {origin : Instant} {base : Nat}
    (h : u.job.task = .opening origin base) (now : Reading) :
    (u.wakeJob now).job = u.job.openSeries origin base := by
  have hwakes : u.jobWakes now.moment = true := by simp only [jobWakes, h]
  rw [job_wakeJob, hwakes, if_pos rfl, Job.wake]
  simp only [h]

theorem interrupted_wakeJob (h : u.job.interrupted = true) (now : Reading) :
    (u.wakeJob now).job.interrupted = true := by
  rw [job_wakeJob]
  split
  · rw [Job.interrupted_wake, h]
  · exact h

/-- A series that was interrupted, or has no more occurrences, or whose run failed, is over when it
looks, unless it waits for a run that has not returned. -/
theorem idle_goOnJob {v : Service} {s : Specification} {base : Reading} {c : Chronicle}
    {occs : List Scope} (hseries : c.OfSeries v s base occs) (hjob : c.job = u.job)
    (hcause : u.job.interrupted = true ∨ s.scope.EndsAfter base.wall u.job.handed.length
      ∨ ∃ started turn f, u.job.task = .inTurn started turn ∧ u.outcome? = some (.error f))
    (hreturned : ∀ started turn, u.job.task = .inTurn started turn → u.outcome?.isSome = true)
    (now : Reading) : (u.goOnJob now).1.job.task = .idle := by
  change (((u.collect now).wakeJob now).wakeJob now).job.task = .idle
  have hlength : u.job.handed.length = occs.length := by
    rw [← hjob, hseries.kept.handed, List.length_map]
  rw [hlength] at hcause
  have hidle : ∀ {task}, c.job.task = task → task = .idle →
      (((u.collect now).wakeJob now).wakeJob now).job.task = .idle := by
    rintro task htask rfl
    rw [hjob] at htask
    have hcollect := task_collect_of_ne_inTurn htask (by simp) (by simp) now
    exact idle_wakeJob (idle_wakeJob (by rw [hcollect, htask]) now) now
  cases hseries.stage with
  | opening task underway settled none =>
    rw [hjob] at task
    have hcollect := task_collect_of_ne_inTurn task (by simp) (by simp) now
    have hopen := job_wakeJob_of_opening (u := u.collect now) (by rw [hcollect, task]) now
    rw [hcollect] at hopen
    rcases u.job.task_openSeries base.wall base.moment with
      hover | ⟨os, occurrence, due, course, hos, ⟨rest, hnext⟩, hawaiting⟩
    · exact idle_wakeJob (by rw [hopen, hover]) now
    · rcases hcause with hinterrupted | hends | ⟨started, turn, f, hturn, -⟩
      · refine idle_wakeJob_of_interrupted (by rw [hopen, hawaiting]) ?_ now
        exact interrupted_wakeJob (by rw [hcollect, hinterrupted]) now
      · rw [← hjob, hseries.kept.specification] at hos
        rw [none, Scope.endsAfter_iff_of_yields hos .nothing, hnext] at hends
        cases hends
      · rw [task] at hturn
        cases hturn
  | awaiting task underway settled follows =>
    -- There is an occurrence at hand, so of the causes only the interrupt is left.
    rw [hjob] at task
    have hcollect := task_collect_of_ne_inTurn task (by simp) (by simp) now
    rcases hcause with hinterrupted | hends | ⟨started, turn, f, hturn, -⟩
    · refine idle_wakeJob (idle_wakeJob_of_interrupted (by rw [hcollect, task]) ?_ now) now
      rw [hcollect, hinterrupted]
    · obtain ⟨os, hos, hyields⟩ := follows.yields
      exact absurd hends (Scope.not_endsAfter_of_yields hos hyields)
    · rw [task] at hturn
      cases hturn
  | @inTurn occurrence before earlier began turn task underway settled hoccs begun due follows =>
    rw [hjob] at task
    obtain ⟨outcome, houtcome⟩ := Option.isSome_iff_exists.1 (hreturned _ _ task)
    have hcollect : (u.collect now).job = u.job.conclude now outcome := by
      rw [job_collect, houtcome]
    rcases Job.task_conclude task now outcome with
      hover | ⟨hnot, ⟨r, rfl⟩, _, _, rest, hnext, -⟩
    · exact idle_wakeJob (idle_wakeJob (by rw [hcollect, hover]) now) now
    · rcases hcause with hinterrupted | hends | ⟨_, _, f, -, hfailed⟩
      · rw [hinterrupted] at hnot
        cases hnot
      · obtain ⟨os, hos, hyields⟩ := follows.yields
        rw [hoccs, Scope.endsAfter_iff_of_yields hos hyields, hnext] at hends
        cases hends
      · rw [houtcome] at hfailed
        cases hfailed
  | completed task => exact hidle task rfl
  | failed task => exact hidle task rfl
  | broken task => exact hidle task rfl

end

/-! ## 6. Series in every order of steps -/

/-- The job of a specification that has just been scheduled. -/
def scheduled (v : Service) (s : Specification) (base : Reading) : Undertaking :=
  ⟨(Job.make v s).schedule base, none⟩

/-- What is so of a series that was scheduled at `base`, with what has come of its runs. -/
structure RunsInOrder (v : Service) (s : Specification) (base : Reading) (c : Chronicle)
    (u : Undertaking) : Prop where
  /-- What was handed to the service are the first occurrences, each in the place of the scope. -/
  handed : ∃ occs, s.scope.BeginsWith base.wall occs ∧ u.job.handed = occs.map s.forOccurrence
  /-- Every specification that was handed over has had one run. -/
  begun : c.begun.length = u.job.handed.length
  /-- All runs have returned but the one in progress. -/
  returned : u.job.handed.length = c.returned.length ∨ u.job.handed.length = c.returned.length + 1
    ∧ ∃ started turn, u.job.task = .inTurn started turn
  /-- The results are those of the runs that succeeded, in their order. -/
  results : u.job.progress.results = c.results v s
  /-- Once the interrupt of the job was raised, no run begins and no result is lost. -/
  interrupted : u.job.interrupted = true → ∀ more, (u.run more).job.handed = u.job.handed
    ∧ u.job.progress.results <+: (u.run more).job.progress.results
  /-- The run in progress is that of the last occurrence, and so is its timer. -/
  turn : ∀ started turn, u.job.task = .inTurn started turn → ∃ before occurrence earlier began,
    u.job.handed = before ++ [s.forOccurrence occurrence] ∧ c.begun = earlier ++ [began]
      ∧ started = began.wall ∧ turn.due
        = (occurrence.delays ((occurrence.startAt base.wall).getD base.wall)).2.map
          (Timers.fires began.moment)
  /-- A step raises the interrupt of a run only if that of the job has been raised or its own timer
  is due. -/
  raised : ∀ now st started turn, (u.step now st).job.task = .inTurn started turn →
    turn.interrupted = true → ∃ before : Turn, u.job.task = .inTurn started before
      ∧ before.due = turn.due ∧ (before.interrupted = true ∨ u.job.interrupted = true
        ∨ ∃ due, turn.due = some due ∧ due ≤ now.moment)
  /-- The first run that fails is the last one, and the job fails with it. -/
  failed : ∀ e f, (e, .error f) ∈ c.returned →
    u.job.progress.state = .failed ⟨some s.token, f.message⟩
      ∧ c.returned.getLast? = some (e, .error f) ∧ u.job.handed.length = c.returned.length
  /-- A job completes only when all runs have succeeded and there are no more, or it was
  interrupted. -/
  completed : u.job.progress.state = .completed → c.Succeeded
    ∧ (u.job.interrupted = true ∨ s.scope.EndsAfter base.wall u.job.handed.length)
  /-- A series that is over has completed or failed, unless its cursor broke off. -/
  ended : u.job.task = .idle → ¬ s.scope.BreaksAfter base.wall u.job.handed.length →
    (u.job.progress.state = .completed ↔ c.Succeeded
      ∧ (u.job.interrupted = true ∨ s.scope.EndsAfter base.wall u.job.handed.length))
    ∧ (u.job.progress.state.isFailed = true ↔ ¬ c.Succeeded)
  /-- A series that was interrupted, or has no more occurrences, or whose run failed, is over once
  it looks, unless it waits for a run that has not returned. -/
  ends : u.job.interrupted = true ∨ s.scope.EndsAfter base.wall u.job.handed.length
      ∨ (∃ started turn f, u.job.task = .inTurn started turn ∧ u.outcome? = some (.error f)) →
    (∀ started turn, u.job.task = .inTurn started turn → u.outcome?.isSome = true) →
    ∀ now, (u.goOnJob now).1.job.task = .idle

section

variable {v : Service} {s : Specification} {base : Reading}

theorem runsInOrder_of_series {c : Chronicle} {u : Undertaking} {occs : List Scope}
    (haccepts : v.capability.accepts s = .ok ()) (hseries : c.OfSeries v s base occs)
    (hjob : u.job = c.job) : RunsInOrder v s base c u := by
  have hlength : u.job.handed.length = occs.length := by
    rw [hjob, hseries.kept.handed, List.length_map]
  constructor
  case handed => exact ⟨occs, hseries.kept.begins, hjob ▸ hseries.kept.handed⟩
  case begun => rw [hlength, hseries.kept.begun]
  case returned =>
    rw [hlength]
    cases hseries.stage with
    | opening task underway settled => exact Or.inl settled.returned.symm
    | awaiting task underway settled => exact Or.inl settled.returned.symm
    | @inTurn occurrence before earlier began turn task underway settled hoccs =>
      refine Or.inr ⟨?_, _, _, hjob ▸ task⟩
      rw [hoccs, settled.returned, List.length_append, List.length_singleton]
    | completed task state settled => exact Or.inl settled.returned.symm
    | failed task state returned => exact Or.inl returned.symm
    | broken task underway settled => exact Or.inl settled.returned.symm
  case results => exact hjob ▸ hseries.kept.results
  case interrupted =>
    intro hinterrupted more
    obtain ⟨after, hafter, -, hsame⟩ := hseries.run haccepts (u.history more)
    have hrun : (u.run more).job = (c.run (u.history more)).job := by
      rw [job_run, chronicle, Chronicle.job_run, Chronicle.job_run, ← hjob]
      rfl
    refine ⟨?_, ?_⟩
    · rw [hrun, hafter.kept.handed, hsame (hjob ▸ hinterrupted), hjob, hseries.kept.handed]
    · rw [hrun, Chronicle.job_run, hjob]
      exact Job.results_run c.job _
  case turn =>
    intro started turn htask
    rw [hjob] at htask
    cases hseries.stage with
    | @inTurn occurrence before earlier began turn' task underway settled hoccs begun due follows =>
      rw [htask] at task
      cases task
      refine ⟨before.map s.forOccurrence, occurrence, earlier, began, ?_, begun, rfl, ?_⟩
      · rw [hjob, hseries.kept.handed, hoccs, List.map_append, List.map_singleton]
      · rw [due, Course.length?, follows.origin]
    | opening task => cases htask.symm.trans task
    | awaiting task => cases htask.symm.trans task
    | completed task => cases htask.symm.trans task
    | failed task => cases htask.symm.trans task
    | broken task => cases htask.symm.trans task
  case raised => exact fun now st started turn htask hraised => raised_step htask hraised
  case failed =>
    intro e f hmem
    rw [hlength, hjob]
    exact hseries.of_error_mem hmem
  case completed =>
    rw [hlength, hjob]
    exact hseries.of_completed
  case ended =>
    intro hidle hbreaks
    rw [hlength, hjob] at *
    have hcompleted := hseries.of_completed
    rcases hseries.of_idle hidle hbreaks with hstate | ⟨hfailed, hnot⟩
    · refine ⟨⟨fun _ => hcompleted hstate, fun _ => hstate⟩, fun hfailed => ?_, fun hnot => ?_⟩
      · rw [hstate] at hfailed
        cases hfailed
      · exact absurd (hcompleted hstate).1 hnot
    · exact ⟨⟨hcompleted, fun h => absurd h.1 hnot⟩, fun _ => hnot, fun _ => hfailed⟩
  case ends =>
    intro hcause hreturned
    exact idle_goOnJob hseries hjob.symm hcause hreturned

/-- The job of a repeated scope runs its occurrences in their order and ends when it is told to,
however its steps and those of its callers interleave and whatever its runs come to. -/
theorem series_runs_in_order (hquery : s.statement.isQuery = false)
    (hrepeated : s.scope.isRepeated = true) (hexpired : s.scope.isExpired base.wall = false)
    (haccepts : v.capability.accepts s = .ok ()) (steps : List (Reading × Step)) :
    RunsInOrder v s base ((scheduled v s base).chronicle steps)
      ((scheduled v s base).run steps) := by
  have hstart : ((Chronicle.blank (scheduled v s base).job)).OfSeries v s base [] :=
    Chronicle.ofSeries_schedule hquery hrepeated hexpired
  obtain ⟨occs, hseries, -⟩ := hstart.run haccepts ((scheduled v s base).history steps)
  exact runsInOrder_of_series haccepts hseries (job_run _ steps)

end

/-- What the clocks show when the series of the example is scheduled. -/
def atFirst : Reading := ⟨0, .epoch⟩

/-- A second later. -/
def secondLater : Reading := ⟨1000, .ofParts 0 1 0⟩

/-- A series of which two runs begin. The second is cut short by the interrupt of the job, and its
result counts. -/
def twoTurns : List (Reading × Step) :=
  let result : Outcome := .ok (.ofSpecification Job.everySecond)
  [(atFirst, .wakeJob), (atFirst, .wakeJob), (atFirst, .arrive result), (atFirst, .collect),
    (atFirst, .poll), (secondLater, .wakeJob), (secondLater, .interrupt), (secondLater, .watchTurn),
    (secondLater, .arrive result), (secondLater, .collect), (secondLater, .wakeJob)]

/-- The service of the examples accepts any measurement without parameters and columns. -/
theorem accepts_withScope (scope : Scope) :
    Job.obliging.capability.accepts
      ⟨{ Statement.make Statement.measureVerb default with scope := scope }⟩ = .ok () := by
  rw [Capability.accepts, if_pos]
  · rfl
  · rw [Statement.schemaDigest, Statement.schemaDigest]
    rfl

theorem two_turns_run_in_order :
    let u := (scheduled Job.obliging Job.everySecond atFirst).run twoTurns
    u.job.progress.state = .completed ∧ u.job.handed.length = 2
      ∧ RunsInOrder Job.obliging Job.everySecond atFirst
        ((scheduled Job.obliging Job.everySecond atFirst).chronicle twoTurns) u := by
  intro u
  refine ⟨by decide +kernel, by decide +kernel, ?_⟩
  exact series_runs_in_order (by decide +kernel) (by decide) (by decide +kernel)
    (accepts_withScope _) twoTurns

/-- Midnight at the beginning of every 31st of December. -/
def lastDays : Crontab where
  seconds := .select .seconds (· == 0)
  minutes := .select .minutes (· == 0)
  hours := .select .hours (· == 0)
  days := .select .days (· == 31)
  weekdays := .select .weekdays fun _ => true
  months := .select .months (· == 12)

/-- A measurement on the last day of the calendar. -/
def onLastDay : Specification :=
  ⟨{ Statement.make Statement.measureVerb default with
    scope := ⟨.fixed (.ofParts (Time.lastDay - 1) 82800 0),
      .through .future, .cron lastDays ⟨none, none⟩⟩ }⟩

/-- A series whose cursor breaks off neither runs nor ends, and interrupting it is of no use. -/
theorem series_at_end_of_calendar_never_ends :
    onLastDay.statement.isQuery = false ∧ onLastDay.scope.isRepeated = true
      ∧ onLastDay.scope.isExpired atFirst.wall = false
      ∧ Job.obliging.capability.accepts onLastDay = .ok ()
      ∧ ∀ steps, let u := ((scheduled Job.obliging onLastDay atFirst).step atFirst
          .wakeJob).run ((atFirst, .interrupt) :: steps)
        u.job.interrupted = true ∧ u.job.task = .idle ∧ u.job.handed = []
          ∧ u.job.progress.state = .scheduled := by
  refine ⟨by decide +kernel, by decide, by decide +kernel, accepts_withScope _, fun steps => ?_⟩
  let broken := ((scheduled Job.obliging onLastDay atFirst).step atFirst .wakeJob).step atFirst
    .interrupt
  have hinterrupted : broken.job.interrupted = true := by decide +kernel
  have hidle : broken.job.task = .idle := by decide +kernel
  have hstate : broken.job.progress.state = .scheduled := by decide +kernel
  have hhanded : broken.job.handed = [] := by decide +kernel
  have hrun : (broken.run steps).job = broken.job.run (broken.history steps) := by
    rw [job_run, chronicle, Chronicle.job_run]
    rfl
  obtain ⟨hstill, hsame, hnone⟩ := Job.idle_run hidle (by rw [hstate]; decide)
    (broken.history steps)
  change (broken.run steps).job.interrupted = true ∧ (broken.run steps).job.task = .idle
    ∧ (broken.run steps).job.handed = [] ∧ (broken.run steps).job.progress.state = .scheduled
  rw [hrun]
  exact ⟨Job.interrupted_run hinterrupted _, hstill, hnone.trans hhanded, hsame.trans hstate⟩

end Undertaking

end Measurement
