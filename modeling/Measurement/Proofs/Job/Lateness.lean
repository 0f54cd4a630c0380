/-
Runs that begin late.

The job of a series waits for the start of an occurrence, counted from when it
was scheduled, and then begins its run. So no run begins before its occurrence
does (`NoneEarly.act`). It begins later if the run before it took longer than the
period, and nothing bounds by how much. That a job wakes in time is no invariant
of actions, as an action can tell it at any moment that its wait is over. It is
one of steps, in which the job looks at the clock (`Unhurried.step`).

The timer of a run is set when the run begins, and it is set for the length of
the occurrence and not for what is left of it. So it goes off as late after the
end of the occurrence as the run began after the start of it (`exists_timer`),
and a run that begins late goes on past the scope under which its result is
reported.
-/
import Measurement.Proofs.Job.Punctual

set_option autoImplicit false

namespace Measurement

/-! ## 1. Moments of occurrences -/

namespace Reading

variable {base began : Reading} {tick e : Instant}

/-- The place of an instant on the clock of the timers, in nanoseconds, for a series that was
scheduled at `base`. -/
def nanosOf (base : Reading) (t : Instant) : Int :=
  base.moment * nanosPerMilli + (t.since base.wall).nanos

/-- How long after the start of its occurrence a run began, in nanoseconds. -/
def lateness (base : Reading) (tick : Instant) (began : Reading) : Int :=
  began.moment * nanosPerMilli - base.nanosOf tick

/-- A wait for an occurrence is not over before it starts. -/
theorem nanosOf_le_startOf {o : Scope} (h : o.startAt base.wall = some tick) :
    base.nanosOf tick ≤ (base.startOf o : Int) * nanosPerMilli := by
  rw [nanosOf, startOf, h, Option.getD_some, momentAfter, Scope.nanos_untilThen]
  simp only [nanosPerMilli]
  omega

/-- A timer that is set for the length of an occurrence when its run begins goes off as late after
the end of the occurrence as the run began after the start of it. -/
theorem exists_timer {d : Span} (hwall : base.wall.isLeap = false) (htick : tick.isLeap = false)
    (hd : .zero ≤ d) (hend : tick.add? d = some e) :
    ∃ due, (((tick.add? d).filter (tick ≤ ·)).map fun e =>
        Timers.fires began.moment (Scope.untilThen (e.since tick))) = some due
      ∧ ∀ m : Nat, due ≤ m
        ↔ base.nanosOf e + base.lateness tick began ≤ (m : Int) * nanosPerMilli := by
  obtain ⟨he, hsum⟩ := (Instant.add?_eq_some_iff htick).1 hend
  have hnonneg : 0 ≤ d.nanos := hd
  have hle : tick ≤ e := by
    rw [Instant.le_iff_nanos htick he]
    omega
  have hlength : (Scope.untilThen (e.since tick)).nanos = d.nanos := by
    rw [Scope.nanos_untilThen, Instant.nanos_since he htick]
    omega
  refine ⟨Timers.fires began.moment (Scope.untilThen (e.since tick)), ?_, fun m => ?_⟩
  · rw [hend, Option.filter, decide_eq_true hle]
    rfl
  · have hfrom := Instant.nanos_since htick hwall
    have hto := Instant.nanos_since he hwall
    rw [Timers.fires_le_iff (by omega), hlength, lateness, nanosOf, nanosOf]
    omega

end Reading

/-- The timer of an occurrence with a length is set for that, unless it ends before it starts or
past the end of the calendar. -/
theorem Series.delays_occurrence {inner : Inner} {d : Span} (hduration : inner.duration = some d)
    (tick : Instant) : ((occurrence inner tick).delays tick).2
      = ((tick.add? d).filter (tick ≤ ·)).map fun e => Scope.untilThen (e.since tick) := by
  have hlast : (occurrence inner tick).lastAt tick = tick.add? d := by
    simp only [occurrence, Scope.lastAt, hduration, Scope.startAt, Bound.resolve, Option.bind_some]
  have hlasting : (occurrence inner tick).isSingleton = false := by
    simp only [occurrence, Scope.isSingleton, hduration]
    rfl
  rw [Scope.delays, hlast, hlasting]
  simp only [Bool.false_and, Bool.false_eq_true, if_false]
  cases tick.add? d with
  | none => rfl
  | some e =>
    by_cases hover : e < tick
    · have hnot : ¬ tick ≤ e := Int.not_le.2 hover
      simp only [hover, if_true, Option.filter, decide_eq_false hnot]
      rfl
    · have hle : tick ≤ e := Int.not_lt.1 hover
      simp only [hover, if_false, Option.filter, decide_eq_true hle]
      rfl

/-! ## 2. What a series counts from -/

/-- Whether a series counts the starts of its occurrences from when it was scheduled. -/
def Task.CountsFrom (base : Reading) : Task → Prop
  | .opening origin first => origin = base.wall ∧ first = base.moment
  | .awaiting o due course =>
    course.origin = base.wall ∧ course.base = base.moment ∧ due = base.startOf o
  | .inTurn _ turn => turn.course.origin = base.wall ∧ turn.course.base = base.moment
  | _ => True

namespace Job

variable {base now : Reading} {j : Job}

theorem countsFrom_proceed {course : Course} (horigin : course.origin = base.wall)
    (hbase : course.base = base.moment) : (j.proceed course).task.CountsFrom base := by
  unfold proceed
  split
  · trivial
  · trivial
  · rename_i o rest hnext
    exact ⟨horigin, hbase, Reading.momentAfter_delay horigin hbase o⟩

theorem countsFrom_hand {s : Specification} {task : Task} (h : task.CountsFrom base) :
    (j.hand s task).task.CountsFrom base := by
  unfold hand
  split
  · trivial
  · exact h

theorem countsFrom_wake (h : j.task.CountsFrom base) : (j.wake now).task.CountsFrom base := by
  unfold wake
  split
  · exact countsFrom_hand trivial
  · rename_i origin first htask
    rw [htask] at h
    unfold openSeries
    split
    · trivial
    · exact countsFrom_proceed h.1 h.2
  · rename_i o due course htask
    rw [htask] at h
    split
    · trivial
    · exact countsFrom_hand ⟨h.1, h.2.1⟩
  · exact h

theorem countsFrom_conclude (h : j.task.CountsFrom base) (outcome : Outcome) :
    (j.conclude now outcome).task.CountsFrom base := by
  unfold conclude
  split
  · trivial
  · rename_i started turn r htask
    rw [htask] at h
    dsimp only
    split
    · trivial
    · exact countsFrom_proceed h.1 h.2
  · trivial
  · trivial
  · exact h

/-- Whatever is done to the job of a series, it goes on counting from where it did. -/
theorem countsFrom_act (h : j.task.CountsFrom base) (hstate : j.progress.state ≠ .pending)
    (a : Action) : (j.act now a).task.CountsFrom base := by
  cases a with
  | schedule =>
    rw [act, schedule, if_neg hstate]
    exact h
  | event e =>
    cases e with
    | interrupt => exact h
    | scopeEnds =>
      rw [act, handle]
      split <;> exact h
    | turnEnds =>
      rw [act, handle]
      split
      · rename_i started turn htask
        rw [htask] at h
        exact h
      · exact h
    | wakes => exact countsFrom_wake h
    | returns outcome => exact countsFrom_conclude h outcome
  | poll => exact h
  | stray w =>
    rw [act]
    split <;> exact h

end Job

/-! ## 3. No run begins before its occurrence -/

section

variable {v : Service} {s : Specification} {base now : Reading} {c : Chronicle}
  {occs : List Scope} {u : Undertaking} {m : Nat}

/-- A specification is handed over only when the job wakes that waits for its occurrence. -/
theorem Chronicle.OfSeries.awaited_of_handed (hseries : c.OfSeries v s base occs) {a : Job.Action}
    (hmore : (c.job.act now a).handed ≠ c.job.handed) :
    a = .event .wakes ∧ ∃ o due course, c.job.task = .awaiting o due course := by
  by_cases hwakes : a = .event .wakes
  · subst hwakes
    refine ⟨rfl, ?_⟩
    simp only [Job.act, Job.handle] at hmore
    cases hseries.stage with
    | awaiting task => exact ⟨_, _, _, task⟩
    | opening task =>
      -- Opening the cursor is a step of its own, which hands nothing over.
      refine absurd ?_ hmore
      simp only [Job.wake, task]
      exact Job.handed_openSeries c.job base.wall base.moment
    | inTurn task | completed task | failed task | broken task =>
      refine absurd ?_ hmore
      simp only [Job.wake, task]
  · by_cases hreturns : ∃ outcome, a = .event (.returns outcome)
    · obtain ⟨outcome, rfl⟩ := hreturns
      exact absurd (Job.handed_conclude c.job now outcome) hmore
    · have hquiet := hseries.quiet_act now hwakes fun outcome h => hreturns ⟨outcome, h⟩
      exact absurd hquiet.handed hmore

/-- Whether no run of a series has begun before its occurrence. -/
def NoneEarly (base : Reading) (occs : List Scope) (begun : List Reading) : Prop :=
  ∀ p ∈ occs.zip begun, base.startOf p.1 ≤ p.2.moment

namespace NoneEarly

open Chronicle (OfSeries)

theorem concat {begun : List Reading} {o : Scope} (h : NoneEarly base occs begun)
    (hlength : begun.length = occs.length) (ho : base.startOf o ≤ now.moment) :
    NoneEarly base (occs ++ [o]) (begun ++ [now]) := by
  intro p hp
  rw [List.zip_append hlength.symm] at hp
  rcases List.mem_append.1 hp with hp | hp
  · exact h p hp
  · rw [List.mem_singleton.1 hp]
    exact ho

/-- An action by which the job does not wake too soon begins no run before its occurrence. -/
theorem act (haccepts : v.capability.accepts s = .ok ()) (hseries : c.OfSeries v s base occs)
    (hcounts : c.job.task.CountsFrom base) (h : NoneEarly base occs c.begun) {a : Job.Action}
    (hwakes : a = .event .wakes → ∀ o due course, c.job.task = .awaiting o due course →
      c.job.interrupted = true ∨ due ≤ now.moment) :
    ∃ after, (c.act now a).OfSeries v s base after
      ∧ NoneEarly base after (c.act now a).begun := by
  obtain ⟨after, hafter, hextends⟩ := hseries.act haccepts now a
  refine ⟨after, hafter, ?_⟩
  have hlength : (c.job.act now a).handed.length = after.length := by
    rw [show (c.job.act now a).handed = _ from hafter.kept.handed, List.length_map]
  have hbefore : c.job.handed.length = occs.length := by
    rw [hseries.kept.handed, List.length_map]
  rcases hextends with rfl | ⟨hinterrupted, o, rfl⟩
  · have hsame : (c.act now a).begun = c.begun := by
      simp only [Chronicle.act, hlength, hbefore, Nat.lt_irrefl, if_false]
    rw [hsame]
    exact h
  · rw [List.length_append, List.length_singleton] at hlength
    have hbegun : (c.act now a).begun = c.begun ++ [now] := by
      have hmore : c.job.handed.length < (c.job.act now a).handed.length := by omega
      simp only [Chronicle.act, hmore, if_true]
    have hmore : (c.job.act now a).handed ≠ c.job.handed := by
      intro hsame
      rw [hsame] at hlength
      omega
    obtain ⟨rfl, next, due, course, htask⟩ := hseries.awaited_of_handed hmore
    -- The occurrence that is added is the one for which the job has waited.
    have hnext : occs ++ [next] = occs ++ [o] := by
      refine hafter.kept.eq_of_handed ?_
      show (c.job.wake now).handed = _
      rw [hseries.kept.wake_of_awaiting haccepts htask hinterrupted now, List.map_append,
        ← hseries.kept.handed]
      rfl
    obtain rfl : next = o := List.singleton_inj.1 (List.append_cancel_left hnext)
    rw [htask] at hcounts
    obtain ⟨-, -, hstart⟩ := hcounts
    rw [hbegun]
    refine h.concat hseries.kept.begun (hstart ▸ ?_)
    rcases hwakes rfl next due course htask with hraised | hdue
    · rw [hinterrupted] at hraised
      cases hraised
    · exact hdue

end NoneEarly

/-- A series that was scheduled at `base`, counts from then and has begun no run too soon. -/
structure Unhurried (v : Service) (s : Specification) (base : Reading) (c : Chronicle)
    (occs : List Scope) : Prop where
  series : c.OfSeries v s base occs
  counts : c.job.task.CountsFrom base
  noneEarly : NoneEarly base occs c.begun

namespace Unhurried

open Undertaking

/-- In every step a job wakes for an occurrence only when that has started. -/
theorem step (haccepts : v.capability.accepts s = .ok ()) (h : Unhurried v s base c occs)
    (hjob : c.job = u.job) (now : Reading) (st : Step) :
    ∃ after, Unhurried v s base (c.run ((u.actions now st).map (now, ·))) after := by
  rcases u.actions_eq now st with hnone | ⟨a, ha⟩
  · rw [hnone]
    exact ⟨occs, h⟩
  · rw [ha]
    have hcounts : (c.job.act now a).task.CountsFrom base :=
      Job.countsFrom_act h.counts h.series.stage.ne_pending a
    have hwakes : a = .event .wakes → ∀ o due course, c.job.task = .awaiting o due course →
        c.job.interrupted = true ∨ due ≤ now.moment := by
      rintro rfl o due course htask
      rw [hjob] at htask ⊢
      exact due_of_jobWakes (hasReason_of_actions ha) htask
    obtain ⟨after, hafter, hnone⟩ := h.noneEarly.act haccepts h.series h.counts hwakes
    exact ⟨after, hafter, hcounts, hnone⟩

theorem run (haccepts : v.capability.accepts s = .ok ()) (h : Unhurried v s base c occs)
    (hjob : c.job = u.job) (steps : List (Reading × Step)) :
    ∃ after, Unhurried v s base (c.run (u.history steps)) after := by
  induction steps generalizing u c occs with
  | nil => exact ⟨occs, h⟩
  | cons st steps ih =>
    obtain ⟨next, hnext⟩ := h.step haccepts hjob st.1 st.2
    rw [history, Chronicle.run_append]
    refine ih hnext ?_
    rw [Chronicle.job_run, job_step, hjob]

/-- The job of a series counts from when it was scheduled, and has begun no run by then. -/
theorem scheduled (hquery : s.statement.isQuery = false) (hrepeated : s.scope.isRepeated = true)
    (hexpired : s.scope.isExpired base.wall = false) :
    Unhurried v s base (Chronicle.blank (scheduled v s base).job) [] := by
  refine ⟨Chronicle.ofSeries_schedule hquery hrepeated hexpired, ?_, fun p hp => ?_⟩
  · show ((Job.make v s).schedule base).task.CountsFrom base
    rw [Chronicle.schedule_eq hquery hrepeated hexpired]
    exact ⟨rfl, rfl⟩
  · exact absurd hp List.not_mem_nil

/-- The run in progress is that of the last occurrence, which has started by the time it begins, and
its timer is set for the delay that this occurrence has at its own start. -/
theorem exists_tick {inner : Inner} (hinner : s.scope.inner? = some inner)
    (h : Unhurried v s base c occs) {started : Instant} {turn : Turn}
    (htask : c.job.task = .inTurn started turn) :
    ∃ before tick earlier began,
      c.job.handed = before ++ [s.forOccurrence (Series.occurrence inner tick)]
        ∧ c.begun = earlier ++ [began] ∧ started = began.wall
        ∧ base.startOf (Series.occurrence inner tick) ≤ began.moment
        ∧ turn.due = ((Series.occurrence inner tick).delays tick).2.map
          (Timers.fires began.moment) := by
  cases h.series.stage with
  | @inTurn o before earlier began turn' task underway settled hoccs begun due follows =>
    cases htask.symm.trans task
    subst hoccs
    obtain ⟨os, hos, hyields⟩ := follows.yields
    obtain ⟨tick, rfl⟩ := (Scope.exists_tick_of_yields hinner hos hyields).1 o
      (List.mem_append_right before (List.mem_singleton.2 rfl))
    have hstartAt : (Series.occurrence inner tick).startAt base.wall = some tick := rfl
    refine ⟨before.map s.forOccurrence, tick, earlier, began, ?_, begun, rfl, ?_, ?_⟩
    · rw [h.series.kept.handed, List.map_append, List.map_singleton]
    · -- All runs but this one have returned, so the last run goes with the last occurrence.
      have hlength : before.length = earlier.length :=
        settled.returned.symm.trans (h.series.kept.length_earlier settled begun).symm
      refine h.noneEarly (Series.occurrence inner tick, began) ?_
      rw [begun, List.zip_append hlength]
      exact List.mem_append_right _ (List.mem_singleton.2 rfl)
    · rw [due, Course.length?, follows.origin, hstartAt, Option.getD_some]
  | opening task | awaiting task | completed task | failed task | broken task =>
    cases htask.symm.trans task

end Unhurried

/-! ## 4. The interrupt of a run -/

namespace Undertaking

variable {steps : List (Reading × Step)} {started : Instant} {turn : Turn}

/-- What the watch of a run does when it looks. -/
theorem task_watchTurn (htask : u.job.task = .inTurn started turn) (now : Reading) :
    (u.step now .watchTurn).job.task = .inTurn started { turn with
      interrupted := turn.interrupted || u.job.interrupted
        || turn.due.any fun due => due ≤ now.moment } := by
  rw [step, watchTurn_eq, turnRings]
  rcases turn with ⟨raised, due, course⟩
  simp only [htask, isDue, due?]
  cases raised with
  | true =>
    simp only [Bool.not_true, Bool.false_and, Bool.false_eq_true, if_false, Bool.true_or]
    exact htask
  | false =>
    simp only [Bool.not_false, Bool.true_and, Bool.false_eq_true, if_false, Bool.false_or]
    split
    · rename_i hrings
      simp only [handle, Job.handle, htask, hrings]
    · rename_i hrings
      rw [Bool.not_eq_true] at hrings
      rw [hrings]
      exact htask

/-- Whether the interrupt of the run in progress has been raised only if that of the job was or its
timer is due at the moment `m`. -/
def RungBy (m : Nat) (u : Undertaking) : Prop :=
  ∀ started turn, u.job.task = .inTurn started turn → turn.interrupted = true →
    u.job.interrupted = true ∨ ∃ due, turn.due = some due ∧ due ≤ m

theorem RungBy.step (h : RungBy m u) {now : Reading} (hnow : now.moment ≤ m) (st : Step) :
    RungBy m (u.step now st) := by
  intro started turn htask hraised
  have hstays : u.job.interrupted = true → (u.step now st).job.interrupted = true := by
    intro hinterrupted
    rw [job_step]
    exact Job.interrupted_run hinterrupted _
  obtain ⟨before, hbefore, hdue, hcause⟩ := raised_step htask hraised
  rcases hcause with hearlier | hinterrupted | ⟨due, hturn, hcome⟩
  · rcases h started before hbefore hearlier with hinterrupted | hover
    · exact .inl (hstays hinterrupted)
    · exact .inr (hdue ▸ hover)
  · exact .inl (hstays hinterrupted)
  · -- The watch has looked at the clock in this very step.
    exact .inr ⟨due, hturn, Nat.le_trans hcome hnow⟩

theorem RungBy.run (h : RungBy m u) (hsteps : ∀ st ∈ steps, st.1.moment ≤ m) :
    RungBy m (u.run steps) := by
  induction steps generalizing u with
  | nil => exact h
  | cons st steps ih =>
    have hfirst := h.step (hsteps st List.mem_cons_self) st.2
    exact ih hfirst fun later hlater => hsteps later (List.mem_cons_of_mem st hlater)

/-- What is so of the run in progress of a series that was scheduled at `base`, after some steps. It
began at `began`, for an occurrence that starts at `tick` and lasts for `d`. -/
structure RunsItsLength (base : Reading) (tick : Instant) (d : Span) (began : Reading)
    (steps : List (Reading × Step)) (u : Undertaking) (turn : Turn) : Prop where
  /-- The run has not begun before its occurrence. -/
  begun : 0 ≤ base.lateness tick began
  /-- Its timer was set when it began, for the whole length of the occurrence. -/
  due : turn.due = ((tick.add? d).filter (tick ≤ ·)).map fun e =>
    Timers.fires began.moment (Scope.untilThen (e.since tick))
  /-- It is due as late after the end of the occurrence as the run began after the start of it. -/
  late : base.wall.isLeap = false → tick.isLeap = false → .zero ≤ d →
    ∀ e, tick.add? d = some e → ∃ due, turn.due = some due
      ∧ ∀ m : Nat, due ≤ m ↔ base.nanosOf e + base.lateness tick began ≤ (m : Int) * nanosPerMilli
  /-- A watch that looks raises the interrupt if that of the job was raised or the timer is due. -/
  rings : ∀ now, (u.step now .watchTurn).job.task = .inTurn began.wall { turn with
    interrupted := turn.interrupted || u.job.interrupted
      || turn.due.any fun due => due ≤ now.moment }
  /-- Nothing else has raised it. -/
  raised : ∀ m, (∀ st ∈ steps, st.1.moment ≤ m) → turn.interrupted = true →
    u.job.interrupted = true ∨ ∃ due, turn.due = some due ∧ due ≤ m

/-- The interrupt of a run comes as late after the end of its occurrence as the run began after the
start of it, however the steps of the series and those of its callers interleave. -/
theorem interrupts_are_as_late_as_runs {inner : Inner} {d : Span}
    (hquery : s.statement.isQuery = false) (hinner : s.scope.inner? = some inner)
    (hduration : inner.duration = some d) (hexpired : s.scope.isExpired base.wall = false)
    (haccepts : v.capability.accepts s = .ok ())
    (htask : ((scheduled v s base).run steps).job.task = .inTurn started turn) :
    ∃ before tick earlier began,
      ((scheduled v s base).run steps).job.handed
          = before ++ [s.forOccurrence (Series.occurrence inner tick)]
        ∧ ((scheduled v s base).chronicle steps).begun = earlier ++ [began]
        ∧ started = began.wall
        ∧ RunsItsLength base tick d began steps ((scheduled v s base).run steps) turn := by
  have hrepeated : s.scope.isRepeated = true := by
    rw [Scope.isRepeated, hinner]
    rfl
  have hstart : Unhurried v s base (Chronicle.blank (scheduled v s base).job) [] :=
    .scheduled hquery hrepeated hexpired
  obtain ⟨occs, hrun⟩ := hstart.run haccepts rfl steps
  have hjob := job_run (scheduled v s base) steps
  obtain ⟨before, tick, earlier, began, hhanded, hbegun, hstarted, hstart, hdue⟩ :=
    hrun.exists_tick hinner (hjob ▸ htask)
  have hturn : turn.due = ((tick.add? d).filter (tick ≤ ·)).map fun e =>
      Timers.fires began.moment (Scope.untilThen (e.since tick)) := by
    rw [hdue, Series.delays_occurrence hduration, Option.map_map]
    rfl
  refine ⟨before, tick, earlier, began, hjob ▸ hhanded, hbegun, hstarted, ?_⟩
  constructor
  case begun =>
    have hfrom : base.nanosOf tick ≤ (base.startOf (Series.occurrence inner tick) : Int)
        * nanosPerMilli := Reading.nanosOf_le_startOf rfl
    rw [Reading.lateness]
    simp only [nanosPerMilli] at *
    omega
  case due => exact hturn
  case late =>
    intro hwall hleap hd e hend
    rw [hturn]
    exact Reading.exists_timer hwall hleap hd hend
  case rings => exact task_watchTurn (hstarted ▸ htask)
  case raised =>
    intro m hm
    -- No run is in progress when the job has just been scheduled.
    have hfresh : RungBy m (scheduled v s base) := by
      intro started turn hearly
      exact absurd (Job.task_of_schedule hearly) (by simp [Job.make])
    exact hfresh.run hm _ _ htask

/-- What an occurrence of the example looks like. -/
def threeSeconds : Inner := ⟨some (.ofSeconds 3), none⟩

/-- A measurement of three seconds in every two. -/
def everyTwoSeconds : Specification :=
  ⟨{ Statement.make Statement.measureVerb default with
    scope := ⟨.fixed .epoch, .through .future, .every (.ofSeconds 2) threeSeconds⟩ }⟩

/-- What the clocks show when the first of these measurements is over and the second can begin. -/
def threeSecondsLater : Reading := ⟨3000, .ofParts 0 3 0⟩

/-- The first run of the example goes on to the end of its occurrence, and the second run begins. -/
def firstToItsEnd : List (Reading × Step) :=
  [(atFirst, .wakeJob), (atFirst, .wakeJob), (threeSecondsLater, .watchTurn),
    (threeSecondsLater, .arrive (.ok (.ofSpecification everyTwoSeconds))),
    (threeSecondsLater, .collect), (threeSecondsLater, .wakeJob)]

/-- The turn of the second run, whose timer is set for three seconds after it began. -/
def secondTurn : Turn where
  interrupted := false
  due := some 6000
  course := ⟨.epoch, 0, .series ⟨.period (.ofSeconds 2), some (.ofParts 0 4 0), none, threeSeconds⟩⟩

/-- The second run of the example begins a second late and runs its length. -/
theorem second_run_begins_late :
    everyTwoSeconds.statement.isQuery = false
      ∧ everyTwoSeconds.scope.inner? = some threeSeconds
      ∧ threeSeconds.duration = some (.ofSeconds 3)
      ∧ everyTwoSeconds.scope.isExpired atFirst.wall = false
      ∧ Job.obliging.capability.accepts everyTwoSeconds = .ok ()
      ∧ ((scheduled Job.obliging everyTwoSeconds atFirst).run firstToItsEnd).job.task
        = .inTurn threeSecondsLater.wall secondTurn
      ∧ ∃ tick began, threeSecondsLater.wall = began.wall
        ∧ RunsItsLength atFirst tick (.ofSeconds 3) began firstToItsEnd
          ((scheduled Job.obliging everyTwoSeconds atFirst).run firstToItsEnd) secondTurn := by
  have hquery : everyTwoSeconds.statement.isQuery = false := by decide +kernel
  have hexpired : everyTwoSeconds.scope.isExpired atFirst.wall = false := by decide +kernel
  have haccepts : Job.obliging.capability.accepts everyTwoSeconds = .ok () := accepts_withScope _
  have hturn : ((scheduled Job.obliging everyTwoSeconds atFirst).run firstToItsEnd).job.task
      = .inTurn threeSecondsLater.wall secondTurn := by decide +kernel
  obtain ⟨before, tick, earlier, began, -, -, hbegan, hruns⟩ :=
    interrupts_are_as_late_as_runs hquery rfl rfl hexpired haccepts hturn
  exact ⟨hquery, rfl, rfl, hexpired, haccepts, hturn, tick, began, hbegan, hruns⟩

/-- The second occurrence of the example ends after five seconds, but the timer of its run is set
for the end of the sixth. Half a second before that, nothing has told the run to end. -/
theorem late_run_outlives_its_occurrence :
    let u := (scheduled Job.obliging everyTwoSeconds atFirst).run firstToItsEnd
    let past : Reading := ⟨5500, .ofParts 0 5 500000000⟩
    everyTwoSeconds.scope.isExpired atFirst.wall = false
      ∧ u.job.handed.getLast? = some
        (everyTwoSeconds.forOccurrence (Series.occurrence threeSeconds (.ofParts 0 2 0)))
      ∧ (Instant.ofParts 0 2 0).add? (.ofSeconds 3) = some (.ofParts 0 5 0)
      ∧ atFirst.nanosOf (.ofParts 0 5 0) = 5000 * nanosPerMilli
      ∧ u.due? .turnEnd = some 6000
      ∧ u.job.interrupted = false
      ∧ (u.step past .watchTurn).job.task = u.job.task
      ∧ (u.step past .watchTurn).runInterrupted = false := by
  decide +kernel

end Undertaking

end

end Measurement
