/-
Series whose timers go off on time.

In a history of steps (`Undertaking.run`) anything can happen at any moment. Here
the clock waits for the timers: it goes on only when nothing about a job has
anything left to do and no run is in progress, and no further than to the next
timer (`MayPass`). No caller interrupts, and no run fails (`Smooth`). What is due
at one moment still happens in any order (`Punctual`).

Such a series is on time (`OnTime`). While it waits for an occurrence, it is no
later than the start of that one or of one before it; when a run is in progress,
it is exactly as late as that. The interrupt is raised by nothing but the watch
for the end of the scope, and that at one moment only, so a series that was cut
short has come to an occurrence that starts at the end of the scope or behind it
(`CutShort`).

One action that comes at its time keeps all of this (`OnTime.act`), and so does
the passing of time (`OnTime.pass`).
-/
import Measurement.Proofs.Job.Turns
import Measurement.Proofs.Scope.Bounded

set_option autoImplicit false

namespace Measurement

/-! ## 1. Moments of a series -/

namespace Reading

variable {base : Reading} {o : Scope} {occs : List Scope}

/-- The moment at which an occurrence starts, for a series that was scheduled at `base`. -/
def startOf (base : Reading) (o : Scope) : Nat :=
  momentAfter base.moment (Scope.untilThen (((o.startAt base.wall).getD base.wall).since base.wall))

/-- The moment at which the watch goes off for an end that lies at `e`. -/
def endOf (base : Reading) (e : Instant) : Nat :=
  Timers.fires base.moment (Scope.untilThen (e.since base.wall))

/-- The moment at which the last of some occurrences has started. -/
def reach (base : Reading) : List Scope → Nat
  | [] => base.moment
  | o :: occs => max (base.startOf o) (base.reach occs)

theorem moment_le_startOf (base : Reading) (o : Scope) : base.moment ≤ base.startOf o :=
  Nat.le_add_right _ _

theorem moment_le_endOf (base : Reading) (e : Instant) : base.moment ≤ base.endOf e :=
  Nat.le_add_right _ _

theorem reach_concat (base : Reading) (occs : List Scope) (o : Scope) :
    base.reach (occs ++ [o]) = max (base.reach occs) (base.startOf o) := by
  induction occs with
  | nil =>
    simp only [List.nil_append, reach]
    omega
  | cons first occs ih =>
    simp only [List.cons_append, reach, ih]
    omega

theorem startOf_le_reach (h : o ∈ occs) : base.startOf o ≤ base.reach occs := by
  induction occs with
  | nil => cases h
  | cons first occs ih =>
    rcases List.mem_cons.1 h with rfl | h
    · exact Nat.le_max_left _ _
    · exact Nat.le_trans (ih h) (Nat.le_max_right _ _)

/-- What some occurrences reach is the moment of one of them, or that of the schedule. -/
theorem exists_of_le_reach {m : Nat} (h : m ≤ base.reach occs) :
    m ≤ base.moment ∨ ∃ o ∈ occs, m ≤ base.startOf o := by
  induction occs with
  | nil => exact .inl h
  | cons first occs ih =>
    by_cases hfirst : m ≤ base.startOf first
    · exact .inr ⟨first, List.mem_cons_self, hfirst⟩
    · have hrest : m ≤ base.reach occs := by
        simp only [reach] at h
        omega
      rcases ih hrest with hbase | ⟨o, ho, hm⟩
      · exact .inl hbase
      · exact .inr ⟨o, List.mem_cons_of_mem first ho, hm⟩

/-- A series waits for an occurrence until it starts. -/
theorem momentAfter_delay {course : Course} (horigin : course.origin = base.wall)
    (hbase : course.base = base.moment) (o : Scope) :
    momentAfter course.base (course.delay o) = base.startOf o := by
  rw [startOf, Course.delay, horigin, hbase]
  cases o.startAt base.wall with
  | none =>
    have hnone : Scope.untilThen (base.wall.since base.wall) = .zero := by
      rw [Instant.since_self]
      rfl
    exact congrArg (momentAfter base.moment) hnone.symm
  | some t => rfl

end Reading

/-! ## 2. Time -/

namespace Undertaking

/-- Whether nothing about a job has anything left to do at a moment, and no run is in progress. -/
structure Rests (u : Undertaking) (m : Nat) : Prop where
  job : u.jobWakes m = false
  scopeEnd : u.isDue .scopeEnd m = false
  turn : ∀ started turn, u.job.task ≠ .inTurn started turn

/-- Whether the clock may go on from one moment to another: not at all, or from where all is at rest
to no further than the next timer. -/
def MayPass (u : Undertaking) (m n : Nat) : Prop :=
  n = m ∨ m < n ∧ u.Rests m ∧ ∀ strand due, u.due? strand = some due → n ≤ due

/-- Whether a step is no interrupt by a caller and makes no run fail. -/
def Smooth (u : Undertaking) (now : Reading) (st : Step) : Prop :=
  st ≠ .interrupt ∧ ∀ f, (u.step now st).outcome? ≠ some (.error f)

/-- What an undertaking can come to, and when, if its timers go off on time, its runs return at once
and with a result, and no caller interrupts it. What is due at one moment happens in any order. -/
inductive Punctual (u : Undertaking) (m : Nat) : Undertaking → Nat → Prop where
  | start : Punctual u m u m
  | step {v : Undertaking} {n : Nat} {now : Reading} {st : Step} (before : Punctual u m v n)
      (pass : v.MayPass n now.moment) (smooth : v.Smooth now st) :
      Punctual u m (v.step now st) now.moment

theorem Punctual.trans {u v w : Undertaking} {m n k : Nat} (h : Punctual u m v n)
    (g : Punctual v n w k) : Punctual u m w k := by
  induction g with
  | start => exact h
  | step before pass smooth ih => exact ih.step pass smooth

end Undertaking

/-! ## 3. Series on time -/

namespace Job

theorem handed_proceed (j : Job) (course : Course) : (j.proceed course).handed = j.handed := by
  unfold proceed
  split <;> rfl

theorem handed_openSeries (j : Job) (origin : Instant) (base : Nat) :
    (j.openSeries origin base).handed = j.handed := by
  unfold openSeries
  split
  · rfl
  · exact handed_proceed j _

theorem handed_conclude (j : Job) (now : Reading) (outcome : Outcome) :
    (j.conclude now outcome).handed = j.handed := by
  unfold conclude
  split
  · rfl
  · dsimp only
    split
    · rfl
    · exact handed_proceed _ _
  · rfl
  · rfl
  · rfl

end Job

section

variable {v : Service} {s : Specification} {base now : Reading} {E m : Nat} {j k : Job}
  {c : Chronicle} {occs after : List Scope}

namespace Chronicle

theorem Stage.of_opening (h : Stage s base c occs) {origin : Instant} {first : Nat}
    (htask : c.job.task = .opening origin first) :
    origin = base.wall ∧ first = base.moment := by
  cases h with
  | opening task =>
    cases htask.symm.trans task
    exact ⟨rfl, rfl⟩
  | awaiting task | inTurn task | completed task | failed task | broken task =>
    cases htask.symm.trans task

theorem Stage.of_awaiting (h : Stage s base c occs) {o : Scope} {due : Nat} {course : Course}
    (htask : c.job.task = .awaiting o due course) : Follows s base (occs ++ [o]) course := by
  cases h with
  | awaiting task underway settled follows =>
    cases htask.symm.trans task
    exact follows
  | opening task | inTurn task | completed task | failed task | broken task =>
    cases htask.symm.trans task

theorem Stage.of_inTurn (h : Stage s base c occs) {started : Instant} {turn : Turn}
    (htask : c.job.task = .inTurn started turn) : Follows s base occs turn.course := by
  cases h with
  | inTurn task underway settled hoccs begun due follows =>
    cases htask.symm.trans task
    exact hoccs ▸ follows
  | opening task | awaiting task | completed task | failed task | broken task =>
    cases htask.symm.trans task

theorem Stage.underway (h : Stage s base c occs) (htask : c.job.task ≠ .idle) : c.job.Underway := by
  cases h with
  | opening task underway => exact underway
  | awaiting task underway => exact underway
  | inTurn task underway => exact underway
  | completed task | failed task | broken task => exact absurd task htask

/-- What was handed over tells to which occurrences a series has come. -/
theorem Kept.eq_of_handed (h : Kept v s base c occs)
    (hhanded : c.job.handed = after.map s.forOccurrence) : after = occs := by
  have hinjective : ∀ a b, s.forOccurrence a = s.forOccurrence b → a = b := by
    intro a b hab
    exact congrArg (fun r : Specification => r.statement.scope) hab
  exact (List.map_inj_right hinjective).1 (hhanded.symm.trans h.handed)

end Chronicle

/-- Whether the watch for the end of the scope, at the moment `E`, has yet to go off, or goes off
now. -/
structure Watched (E m : Nat) (j : Job) : Prop where
  le : m ≤ E
  armed : j.interrupted = false → j.ends = some E
  rung : j.interrupted = true → m = E

/-- Whether a series has come to an occurrence that starts at the moment `E` or behind it, or the
next one does. -/
def CutShort (s : Specification) (base : Reading) (E : Nat) (occs : List Scope) : Prop :=
  E ≤ base.reach occs
    ∨ ∃ next, s.scope.BeginsWith base.wall (occs ++ [next]) ∧ E ≤ base.startOf next

/-- Where a series stands at a moment that was scheduled at `base`, whose scope ends at the moment
`E`, and that has come to some occurrences. -/
inductive OnTime (s : Specification) (base : Reading) (E m : Nat) (j : Job) (occs : List Scope) :
    Prop where
  | opening {origin : Instant} {first : Nat} (task : j.task = .opening origin first)
      (watched : Watched E m j) (now : m = base.moment) (none : occs = [])
  | awaiting {o : Scope} {due : Nat} {course : Course} (task : j.task = .awaiting o due course)
      (watched : Watched E m j) (counted : course.base = base.moment)
      (start : due = base.startOf o) (begun : base.reach occs ≤ m)
      (le : m ≤ max (base.reach occs) due)
  | inTurn {started : Instant} {turn : Turn} (task : j.task = .inTurn started turn)
      (watched : Watched E m j) (counted : turn.course.base = base.moment)
      (now : m = base.reach occs)
  | ended (task : j.task = .idle) (reached : base.reach occs ≤ E)
      (cause : s.scope.EndsAfter base.wall occs.length ∨ s.scope.BreaksAfter base.wall occs.length
        ∨ CutShort s base E occs)

/-- The run of an occurrence begins when the job wakes, unless the job was interrupted. -/
theorem Chronicle.Kept.wake_of_awaiting (haccepts : v.capability.accepts s = .ok ())
    (h : Kept v s base c occs) {o : Scope} {due : Nat} {course : Course}
    (htask : c.job.task = .awaiting o due course) (hinterrupted : c.job.interrupted = false)
    (now : Reading) : c.job.wake now = { c.job with
      progress := c.job.progress.transition .running
      task := .inTurn now.wall ⟨false, (course.length? o).map (Timers.fires now.moment), course⟩
      handed := c.job.handed ++ [s.forOccurrence o] } := by
  simp only [Job.wake, htask, hinterrupted, Bool.false_eq_true, if_false, Job.hand,
    h.specification, h.service, Specification.accepts_forOccurrence, haccepts]

theorem Job.wake_of_interrupted {o : Scope} {due : Nat} {course : Course}
    (htask : j.task = .awaiting o due course) (hinterrupted : j.interrupted = true)
    (now : Reading) : j.wake now = j.finish := by
  simp only [Job.wake, htask, hinterrupted, if_true]

namespace OnTime

open Chronicle (Follows Kept OfSeries Quiet)

/-- No run of a series on time begins behind the end of the scope. -/
theorem reach_le (h : OnTime s base E m j occs) : base.reach occs ≤ E := by
  cases h with
  | opening task watched now none =>
    subst none
    exact Nat.le_trans (Nat.le_of_eq now.symm) watched.le
  | awaiting task watched counted start begun => exact Nat.le_trans begun watched.le
  | inTurn task watched counted now => exact Nat.le_trans (Nat.le_of_eq now.symm) watched.le
  | ended task reached => exact reached

theorem watched (h : OnTime s base E m j occs) (htask : j.task ≠ .idle) : Watched E m j := by
  cases h with
  | opening task watched => exact watched
  | awaiting task watched => exact watched
  | inTurn task watched => exact watched
  | ended task => exact absurd task htask

/-- An action that leaves a series where it is leaves it on time, if it does so with the watch. -/
theorem of_quiet (h : OnTime s base E m j occs) (hquiet : Quiet j k)
    (hwatched : Watched E m j → Watched E m k) : OnTime s base E m k occs := by
  cases h with
  | opening task watched now none =>
    exact .opening (hquiet.task_eq task fun _ _ h => by cases h) (hwatched watched) now none
  | awaiting task watched counted start begun le =>
    exact .awaiting (hquiet.task_eq task fun _ _ h => by cases h) (hwatched watched) counted start
      begun le
  | inTurn task watched counted now =>
    rcases hquiet.task with hsame | ⟨started, turn, hturn, hraised⟩
    · exact .inTurn (hsame.trans task) (hwatched watched) counted now
    · rw [task] at hturn
      cases hturn
      exact .inTurn hraised (hwatched watched) counted now
  | ended task reached cause =>
    exact .ended (hquiet.task_eq task fun _ _ h => by cases h) reached cause

/-- Between two runs, a series is on time if the last run began when it had to. -/
theorem proceed {course : Course} (hwatched : Watched E m j) (hfollows : Follows s base occs course)
    (hcounted : course.base = base.moment) (hnow : m = base.reach occs) :
    OnTime s base E m (j.proceed course) occs := by
  have hreached : base.reach occs ≤ E := hnow ▸ hwatched.le
  obtain ⟨os, hos, hyields⟩ := hfollows.yields
  cases hnext : course.rest.next with
  | error e =>
    have hjob : j.proceed course = { j with task := .idle } := by rw [Job.proceed, hnext]
    rw [hjob]
    exact .ended rfl hreached (.inr (.inl (Scope.breaksAfter_of_yields hos hyields hnext)))
  | ok answer =>
    rcases answer with _ | ⟨o, rest⟩
    · have hjob : j.proceed course = j.finish := by rw [Job.proceed, hnext]
      rw [hjob]
      exact .ended rfl hreached (.inl ((Scope.endsAfter_iff_of_yields hos hyields).2 hnext))
    · have hjob : j.proceed course = { j with
          task := .awaiting o (momentAfter course.base (course.delay o))
            { course with rest := rest } } := by rw [Job.proceed, hnext]
      have hdue := Reading.momentAfter_delay hfollows.origin hcounted o
      rw [hjob]
      refine .awaiting rfl ⟨hwatched.le, hwatched.armed, hwatched.rung⟩ hcounted hdue ?_ ?_
      · exact Nat.le_of_eq hnow.symm
      · exact Nat.le_trans (Nat.le_of_eq hnow) (Nat.le_max_left _ _)

theorem openSeries (hwatched : Watched E m j) (hspecification : j.specification = s)
    (hnow : m = base.moment) : OnTime s base E m (j.openSeries base.wall base.moment) [] := by
  rw [Job.openSeries, hspecification]
  cases hos : Occurrences.ofScope s.scope base.wall with
  | error e =>
    have hreached : base.reach [] ≤ E := Nat.le_trans (Nat.le_of_eq hnow.symm) hwatched.le
    exact .ended rfl hreached (.inr (.inl (Scope.breaksAfter_of_ofScope hos 0)))
  | ok os => exact proceed hwatched ⟨rfl, os, hos, .nothing⟩ rfl hnow

/-- A job that wakes at its time stays on time. -/
theorem wakes (haccepts : v.capability.accepts s = .ok ()) (hseries : c.OfSeries v s base occs)
    (h : OnTime s base E now.moment c.job occs)
    (hdue : ∀ o due course, c.job.task = .awaiting o due course →
      c.job.interrupted = true ∨ due ≤ now.moment) :
    ∃ after, OnTime s base E now.moment (c.job.wake now) after
      ∧ (c.job.wake now).handed = after.map s.forOccurrence := by
  have hkept := hseries.kept
  have hsame : c.job.wake now = c.job →
      ∃ after, OnTime s base E now.moment (c.job.wake now) after
        ∧ (c.job.wake now).handed = after.map s.forOccurrence := by
    intro hjob
    rw [hjob]
    exact ⟨occs, h, hkept.handed⟩
  cases h with
  | opening task watched hnow none =>
    obtain ⟨rfl, rfl⟩ := hseries.stage.of_opening task
    subst none
    have hjob : c.job.wake now = c.job.openSeries base.wall base.moment := by
      simp only [Job.wake, task]
    rw [hjob, Job.handed_openSeries]
    exact ⟨[], openSeries watched hkept.specification hnow, hkept.handed⟩
  | @awaiting o due course task watched counted hstart begun le =>
    have hfollows := hseries.stage.of_awaiting task
    by_cases hinterrupted : c.job.interrupted = true
    · -- The watch went off while the series waited for an occurrence that starts at the end.
      have hcut : CutShort s base E occs := by
        have hnow := watched.rung hinterrupted
        by_cases hreach : E ≤ base.reach occs
        · exact .inl hreach
        · obtain ⟨os, hos, hyields⟩ := hfollows.yields
          exact .inr ⟨o, Scope.beginsWith_of_yields hos hyields, by omega⟩
      rw [Job.wake_of_interrupted task hinterrupted]
      exact ⟨occs, .ended rfl (Nat.le_trans begun watched.le) (.inr (.inr hcut)), hkept.handed⟩
    · -- The clock has gone no further than to the start of this occurrence or of one before it.
      have hcome : due ≤ now.moment := (hdue _ _ _ task).resolve_left hinterrupted
      have hnow : now.moment = base.reach (occs ++ [o]) := by
        rw [Reading.reach_concat]
        omega
      rw [hkept.wake_of_awaiting haccepts task (Bool.not_eq_true _ ▸ hinterrupted)]
      refine ⟨occs ++ [o], .inTurn rfl ⟨watched.le, watched.armed, watched.rung⟩ counted hnow, ?_⟩
      simp only [hkept.handed, List.map_append, List.map_singleton]
  | inTurn task => exact hsame (by simp only [Job.wake, task])
  | ended task => exact hsame (by simp only [Job.wake, task])

/-- A job whose run returned stays on time. -/
theorem returns (hseries : c.OfSeries v s base occs) (h : OnTime s base E m c.job occs)
    (now : Reading) (r : Result) :
    OnTime s base E m (c.job.conclude now (.ok r)) occs
      ∧ (c.job.conclude now (.ok r)).handed = occs.map s.forOccurrence := by
  have hkept := hseries.kept
  have hsame : c.job.conclude now (.ok r) = c.job →
      OnTime s base E m (c.job.conclude now (.ok r)) occs
        ∧ (c.job.conclude now (.ok r)).handed = occs.map s.forOccurrence := by
    intro hjob
    rw [hjob]
    exact ⟨h, hkept.handed⟩
  cases h with
  | @inTurn started turn task watched counted hnow =>
    by_cases hinterrupted : c.job.interrupted = true
    · simp only [Job.conclude, task, hinterrupted, if_true]
      have hcut : E ≤ base.reach occs := by
        rw [← hnow, watched.rung hinterrupted]
      exact ⟨.ended rfl (hnow ▸ watched.le) (.inr (.inr (.inl hcut))), hkept.handed⟩
    · have hjob : c.job.conclude now (.ok r) = ({ c.job with
          progress := c.job.progress.push (c.job.stamp started now r) } : Job).proceed
            turn.course := by
        simp only [Job.conclude, task]
        exact if_neg hinterrupted
      rw [hjob, Job.handed_proceed]
      refine ⟨proceed ⟨watched.le, watched.armed, watched.rung⟩ ?_ counted hnow, hkept.handed⟩
      exact hseries.stage.of_inTurn task
  | opening task => exact hsame (by simp only [Job.conclude, task])
  | awaiting task => exact hsame (by simp only [Job.conclude, task])
  | ended task => exact hsame (by simp only [Job.conclude, task])

end OnTime

/-! ## 4. Actions and time -/

/-- Whether an action comes at its time: no caller interrupts, neither the end of the scope nor the
start of an occurrence comes too soon, and runs return with a result. -/
def Timely (m : Nat) (j : Job) : Job.Action → Prop
  | .event .interrupt => False
  | .event .scopeEnds => j.isFinished = false ∧ ∃ due, j.ends = some due ∧ due ≤ m
  | .event .wakes => ∀ o due course, j.task = .awaiting o due course →
      j.interrupted = true ∨ due ≤ m
  | .event (.returns outcome) => ∃ r, outcome = .ok r
  | _ => True

theorem Chronicle.Succeeded.act (h : c.Succeeded) {a : Job.Action}
    (htimely : Timely now.moment c.job a) : (c.act now a).Succeeded := by
  have hsame : Chronicle.taken? c.job a = none → (c.act now a).Succeeded := by
    intro hnone p hp
    simp only [Chronicle.act, hnone] at hp
    exact h p hp
  by_cases hreturns : ∃ outcome, a = .event (.returns outcome)
  · obtain ⟨outcome, rfl⟩ := hreturns
    obtain ⟨r, rfl⟩ := htimely
    cases htaken : Chronicle.taken? c.job (.event (.returns (.ok r))) with
    | none => exact hsame htaken
    | some outcome =>
      have houtcome : outcome = .ok r := by
        rw [Chronicle.taken?] at htaken
        split at htaken
        · exact (Option.some.inj htaken).symm
        · exact (Option.some.inj htaken).symm
        · cases htaken
      intro p hp
      simp only [Chronicle.act, htaken] at hp
      rcases List.mem_append.1 hp with hp | hp
      · exact h p hp
      · rw [List.mem_singleton.1 hp]
        exact ⟨r, houtcome⟩
  · refine hsame ?_
    unfold Chronicle.taken?
    split
    · exact absurd ⟨_, rfl⟩ hreturns
    · rfl

/-- The watch goes off at the end of the scope and not before it. -/
theorem Watched.eq_of_ends (h : Watched E m j) (hends : ∃ due, j.ends = some due ∧ due ≤ m) :
    m = E := by
  by_cases hinterrupted : j.interrupted = true
  · exact h.rung hinterrupted
  · obtain ⟨due, hdue, hle⟩ := hends
    have harmed := h.armed (Bool.not_eq_true _ ▸ hinterrupted)
    cases hdue.symm.trans harmed
    exact Nat.le_antisymm h.le hle

namespace OnTime

open Chronicle (Follows Kept OfSeries Quiet)

/-- What is done at its time, except that the job wakes or its run returns, leaves the watch as it
should be. -/
theorem watched_act (hseries : c.OfSeries v s base occs) {a : Job.Action}
    (htimely : Timely now.moment c.job a) (hwakes : a ≠ .event .wakes)
    (hreturns : ∀ outcome, a ≠ .event (.returns outcome)) (h : Watched E now.moment c.job) :
    Watched E now.moment (c.job.act now a) := by
  cases a with
  | schedule =>
    rw [Job.act, Job.schedule, if_neg hseries.stage.ne_pending]
    exact h
  | event e =>
    cases e with
    | interrupt => exact absurd htimely id
    | scopeEnds =>
      obtain ⟨hfinished, hends⟩ := htimely
      have hnow := h.eq_of_ends hends
      have hjob : c.job.act now (.event .scopeEnds)
          = { c.job with interrupted := true, ends := none } := by
        simp only [Job.act, Job.handle, hfinished, Bool.false_eq_true, if_false]
      rw [hjob]
      exact ⟨h.le, fun hnot => (by cases hnot), fun _ => hnow⟩
    | turnEnds =>
      rw [Job.act, Job.handle]
      split
      · exact ⟨h.le, h.armed, h.rung⟩
      · exact h
    | wakes => exact absurd rfl hwakes
    | returns outcome => exact absurd rfl (hreturns outcome)
  | poll => exact ⟨h.le, h.armed, h.rung⟩
  | stray w =>
    rw [Job.act]
    split
    · exact ⟨h.le, h.armed, h.rung⟩
    · exact h

/-- What is done at its time keeps a series on time. -/
theorem act (haccepts : v.capability.accepts s = .ok ()) (hseries : c.OfSeries v s base occs)
    (h : OnTime s base E now.moment c.job occs) {a : Job.Action}
    (htimely : Timely now.moment c.job a) :
    ∃ after, (c.act now a).OfSeries v s base after
      ∧ OnTime s base E now.moment (c.act now a).job after := by
  obtain ⟨next, hnext, -⟩ := hseries.act haccepts now a
  have hafter : ∃ after, OnTime s base E now.moment (c.act now a).job after
      ∧ (c.act now a).job.handed = after.map s.forOccurrence := by
    by_cases hwakes : a = .event .wakes
    · subst hwakes
      exact h.wakes haccepts hseries htimely
    · by_cases hreturns : ∃ outcome, a = .event (.returns outcome)
      · obtain ⟨outcome, rfl⟩ := hreturns
        obtain ⟨r, rfl⟩ := htimely
        exact ⟨occs, h.returns hseries now r⟩
      · have hneither : ∀ outcome, a ≠ .event (.returns outcome) :=
          fun outcome ha => hreturns ⟨outcome, ha⟩
        have hquiet := hseries.quiet_act now hwakes hneither
        refine ⟨occs, h.of_quiet hquiet (watched_act hseries htimely hwakes hneither), ?_⟩
        exact hquiet.handed.trans hseries.kept.handed
  obtain ⟨after, hontime, hhanded⟩ := hafter
  rw [hnext.kept.eq_of_handed hhanded] at hontime
  exact ⟨next, hnext, hontime⟩

/-- A series stays on time while the clock waits for its timers. -/
theorem pass {u : Undertaking} {n : Nat} (hseries : c.OfSeries v s base occs)
    (hjob : c.job = u.job) (h : OnTime s base E m u.job occs) (hpass : u.MayPass m n) :
    OnTime s base E n u.job occs := by
  rcases hpass with rfl | ⟨hlt, hrests, htimers⟩
  · exact h
  · cases h with
    | opening task =>
      have hwakes := hrests.job
      simp only [Undertaking.jobWakes, task] at hwakes
      cases hwakes
    | @awaiting o due course task watched counted start begun le =>
      have hwakes := hrests.job
      simp only [Undertaking.jobWakes, task, Bool.or_eq_false_iff] at hwakes
      have hfinished : u.job.isFinished = false := by
        rw [← hjob]
        exact (hseries.stage.underway (by rw [hjob, task]; simp)).not_finished
      have harmed := watched.armed hwakes.2
      -- Neither of the two timers is missed: that of the job, and that of the watch.
      have hend : n ≤ E := htimers .scopeEnd E (by simp [Undertaking.due?, hfinished, harmed])
      have hstart : n ≤ due := htimers .job due (by simp only [Undertaking.due?, task])
      refine .awaiting task ⟨hend, watched.armed, fun hraised => ?_⟩ counted start ?_ ?_
      · rw [hwakes.2] at hraised
        cases hraised
      · omega
      · omega
    | inTurn task => exact absurd task (hrests.turn _ _)
    | ended task reached cause => exact .ended task reached cause

end OnTime

/-! ## 5. Runs of steps -/

namespace Undertaking

/-- Whether there is a run exactly if the job waits for one. -/
def Attended (u : Undertaking) : Prop :=
  u.activity.isSome = true ↔ ∃ started turn, u.job.task = .inTurn started turn

/-- Whether an undertaking is that of a series whose runs have all succeeded and which is on
time. -/
structure InTime (v : Service) (s : Specification) (base : Reading) (E : Nat) (u : Undertaking)
    (m : Nat) : Prop where
  series : ∃ (c : Chronicle) (occs : List Scope), c.job = u.job ∧ c.OfSeries v s base occs
    ∧ c.Succeeded ∧ OnTime s base E m u.job occs
  smooth : ∀ f, u.outcome? ≠ some (.error f)
  attended : u.Attended

/-- A job wakes for an occurrence when that starts, unless it was interrupted. -/
theorem due_of_jobWakes {u : Undertaking} (h : u.jobWakes m = true) {o : Scope} {due : Nat}
    {course : Course} (htask : u.job.task = .awaiting o due course) :
    u.job.interrupted = true ∨ due ≤ m := by
  simp only [jobWakes, isDue, due?, htask, Option.any_some, Bool.or_eq_true,
    decide_eq_true_eq] at h
  exact h.symm

/-- What a step does to the job comes at its time. -/
theorem timely_of_mem_actions {u : Undertaking} {st : Step} {a : Job.Action}
    (hsmooth : ∀ f, u.outcome? ≠ some (.error f)) (hst : st ≠ .interrupt)
    (ha : a ∈ u.actions now st) : Timely now.moment u.job a := by
  cases st with
  | watchScope =>
    rw [actions] at ha
    split at ha
    · rename_i hdue
      cases List.mem_singleton.1 ha
      rw [isDue, due?] at hdue
      split at hdue
      · cases hdue
      · rename_i hfinished
        cases hends : u.job.ends with
        | none =>
          rw [hends] at hdue
          cases hdue
        | some due =>
          rw [hends] at hdue
          exact ⟨Bool.not_eq_true _ ▸ hfinished, due, hends, of_decide_eq_true hdue⟩
    · cases ha
  | watchTurn =>
    rw [actions] at ha
    split at ha
    · cases List.mem_singleton.1 ha
      trivial
    · cases ha
  | collect =>
    rw [actions] at ha
    cases houtcome : u.outcome? with
    | none =>
      rw [houtcome] at ha
      cases ha
    | some outcome =>
      rw [houtcome] at ha
      cases List.mem_singleton.1 ha
      cases outcome with
      | error f => exact absurd houtcome (hsmooth f)
      | ok r => exact ⟨r, rfl⟩
  | wakeJob =>
    rw [actions] at ha
    split at ha
    · rename_i hwakes
      cases List.mem_singleton.1 ha
      intro o due course htask
      exact due_of_jobWakes hwakes htask
    · cases ha
  | interrupt => exact absurd rfl hst
  | goOnRun => cases ha
  | arrive outcome => cases ha
  | schedule | poll | stray w =>
    cases List.mem_singleton.1 ha
    trivial

theorem wakeJob_of_same {u : Undertaking} (hwakes : u.jobWakes now.moment = true)
    (hhanded : (u.job.wake now).handed = u.job.handed) :
    u.wakeJob now = ⟨u.job.wake now, u.activity⟩ := by
  have hdrop : (u.job.handle now .wakes).handed.drop u.job.handed.length = [] := by
    rw [Job.handle, hhanded, List.drop_length]
  simp only [wakeJob, hwakes, hdrop, if_true]
  rfl

/-- A specification that the job hands over when it wakes makes a run. -/
theorem wakeJob_of_handed {u : Undertaking} {r : Specification}
    (hwakes : u.jobWakes now.moment = true)
    (hhanded : (u.job.wake now).handed = u.job.handed ++ [r]) :
    u.wakeJob now = ⟨u.job.wake now, some (.handed r)⟩ := by
  have hdrop : (u.job.handle now .wakes).handed.drop u.job.handed.length = [r] := by
    rw [Job.handle, hhanded, List.drop_left]
  simp only [wakeJob, hwakes, hdrop, if_true]
  rfl

/-- While the job waits for no run, there is none. -/
theorem Attended.activity_eq_none {u : Undertaking} (h : u.Attended)
    (hnone : ∀ started turn, u.job.task ≠ .inTurn started turn) : u.activity = none := by
  rw [← Option.not_isSome_iff_eq_none]
  intro hsome
  obtain ⟨started, turn, hturn⟩ := h.1 hsome
  exact hnone started turn hturn

theorem jobWakes_of_idle {u : Undertaking} (h : u.job.task = .idle) (m : Nat) :
    u.jobWakes m = false := by
  simp only [jobWakes, isDue, due?, h]
  rfl

theorem attended_wakeJob {u : Undertaking} (haccepts : v.capability.accepts s = .ok ())
    (hseries : c.OfSeries v s base occs) (hjob : c.job = u.job) (h : u.Attended) (now : Reading) :
    (u.wakeJob now).Attended := by
  by_cases hwakes : u.jobWakes now.moment = true
  · have hnone : ∀ started turn, u.job.task ≠ .inTurn started turn := by
      intro started turn hturn
      simp only [jobWakes, isDue, due?, hturn] at hwakes
      cases hwakes
    have hactivity := h.activity_eq_none hnone
    -- A job that wakes without a run to begin leaves its undertaking without one.
    have hrest : (u.job.wake now).handed = u.job.handed →
        (∀ started turn, (u.job.wake now).task ≠ .inTurn started turn) →
        (u.wakeJob now).Attended := by
      intro hhanded htask
      rw [wakeJob_of_same hwakes hhanded, Attended, hactivity]
      constructor
      · intro hsome
        cases hsome
      · rintro ⟨started, turn, hturn⟩
        exact absurd hturn (htask started turn)
    cases hseries.stage with
    | opening task =>
      rw [hjob] at task
      have hopen : u.job.wake now = u.job.openSeries base.wall base.moment := by
        simp only [Job.wake, task]
      refine hrest (by rw [hopen, Job.handed_openSeries]) fun started turn hturn => ?_
      rw [hopen] at hturn
      rcases u.job.task_openSeries base.wall base.moment with
        hidle | ⟨_, _, _, _, -, -, hawaiting⟩
      · cases hidle.symm.trans hturn
      · cases hawaiting.symm.trans hturn
    | awaiting task =>
      by_cases hinterrupted : c.job.interrupted = true
      · rw [hjob] at task hinterrupted
        have hfinish := Job.wake_of_interrupted task hinterrupted now
        refine hrest (by rw [hfinish]; rfl) fun started turn hturn => ?_
        rw [hfinish] at hturn
        cases hturn
      · have hbegin := hseries.kept.wake_of_awaiting haccepts task
          (Bool.not_eq_true _ ▸ hinterrupted) now
        rw [hjob] at hbegin
        rw [wakeJob_of_handed hwakes (by rw [hbegin]), Attended, hbegin]
        exact ⟨fun _ => ⟨_, _, rfl⟩, fun _ => rfl⟩
    | inTurn task => exact absurd (hjob ▸ task) (hnone _ _)
    | completed task | failed task | broken task =>
      rw [jobWakes_of_idle (hjob ▸ task)] at hwakes
      cases hwakes
  · rw [wakeJob, if_neg hwakes]
    exact h

theorem attended_step {u : Undertaking} (haccepts : v.capability.accepts s = .ok ())
    (hseries : c.OfSeries v s base occs) (hjob : c.job = u.job) (h : u.Attended) (now : Reading)
    (st : Step) : (u.step now st).Attended := by
  -- What leaves a series where it is leaves it with its run.
  have hquiet : ∀ a : Job.Action, a ≠ .event .wakes → (∀ outcome, a ≠ .event (.returns outcome)) →
      Attended { u with job := u.job.act now a } := by
    intro a hwakes hreturns
    have hact := hseries.quiet_act now hwakes hreturns
    rw [hjob] at hact
    refine h.trans ?_
    rcases hact.task with hsame | ⟨started, turn, hbefore, hraised⟩
    · rw [hsame]
    · exact ⟨fun _ => ⟨_, _, hraised⟩, fun _ => ⟨_, _, hbefore⟩⟩
  cases st with
  | watchScope =>
    rw [step, watchScope]
    split
    · exact hquiet (.event .scopeEnds) (by simp) (by simp)
    · exact h
  | watchTurn =>
    rw [step, watchTurn_eq]
    split
    · exact hquiet (.event .turnEnds) (by simp) (by simp)
    · exact h
  | goOnRun =>
    rw [step, goOnRun]
    split
    · exact h
    · rename_i a ha
      rw [Attended, ha] at h
      exact h
  | arrive outcome =>
    rw [step, Attended, Option.isSome_map]
    exact h
  | collect =>
    rw [step, collect]
    split
    · constructor
      · intro hsome
        cases hsome
      · rintro ⟨started, turn, hturn⟩
        exact absurd hturn (u.job.task_conclude_ne now _)
    · exact h
  | wakeJob => exact attended_wakeJob haccepts hseries hjob h now
  | interrupt => exact hquiet (.event .interrupt) (by simp) (by simp)
  | schedule => exact hquiet .schedule (by simp) (by simp)
  | poll => exact hquiet .poll (by simp) (by simp)
  | stray w => exact hquiet (.stray w) (by simp) (by simp)

theorem InTime.pass {u : Undertaking} {n : Nat} (h : InTime v s base E u m)
    (hpass : u.MayPass m n) : InTime v s base E u n := by
  obtain ⟨c, occs, hjob, hseries, hsucceeded, hontime⟩ := h.series
  exact ⟨⟨c, occs, hjob, hseries, hsucceeded, hontime.pass hseries hjob hpass⟩, h.smooth,
    h.attended⟩

theorem InTime.step {u : Undertaking} {st : Step} (haccepts : v.capability.accepts s = .ok ())
    (h : InTime v s base E u now.moment) (hsmooth : u.Smooth now st) :
    InTime v s base E (u.step now st) now.moment := by
  obtain ⟨c, occs, hjob, hseries, hsucceeded, hontime⟩ := h.series
  refine ⟨?_, hsmooth.2, attended_step haccepts hseries hjob h.attended now st⟩
  have hstep := u.job_step now st
  rcases u.actions_eq now st with hnone | ⟨a, ha⟩
  · have hsame : (u.step now st).job = u.job := by
      rw [hstep, hnone]
      rfl
    rw [hsame]
    exact ⟨c, occs, hjob, hseries, hsucceeded, hontime⟩
  · have htimely : Timely now.moment u.job a :=
      timely_of_mem_actions h.smooth hsmooth.1 (ha ▸ List.mem_singleton.2 rfl)
    have hafter : (u.step now st).job = (c.act now a).job := by
      rw [hstep, ha, ← hjob]
      rfl
    rw [← hjob] at htimely hontime
    obtain ⟨after, hnext, hstays⟩ := hontime.act haccepts hseries htimely
    exact ⟨c.act now a, after, hafter.symm, hnext, hsucceeded.act htimely, hafter ▸ hstays⟩

/-- A series is in time whatever it comes to. -/
theorem InTime.punctual {u w : Undertaking} {n : Nat} (haccepts : v.capability.accepts s = .ok ())
    (h : InTime v s base E u m) (hpunctual : Punctual u m w n) : InTime v s base E w n := by
  induction hpunctual with
  | start => exact h
  | step before pass smooth ih => exact (ih.pass pass).step haccepts smooth

theorem inTime_scheduled {e : Instant} (hquery : s.statement.isQuery = false)
    (hrepeated : s.scope.isRepeated = true) (hlast : s.scope.lastAt base.wall = some e)
    (hopen : ¬ e < base.wall) :
    InTime v s base (base.endOf e) (scheduled v s base) base.moment := by
  obtain ⟨first, hdelays⟩ : ∃ first, s.scope.delays base.wall
      = (some first, some (Scope.untilThen (e.since base.wall))) := by
    simp only [Scope.delays, hrepeated, hlast, if_neg hopen, Bool.not_true, Bool.and_false,
      Bool.false_eq_true, if_false]
    exact ⟨_, rfl⟩
  have hexpired : s.scope.isExpired base.wall = false := by
    rw [Scope.isExpired, hdelays]
    rfl
  have hjob := Chronicle.schedule_eq (v := v) hquery hrepeated hexpired
  rw [hdelays] at hjob
  refine ⟨⟨_, [], rfl, Chronicle.ofSeries_schedule hquery hrepeated hexpired, ?_, ?_⟩, ?_, ?_⟩
  · exact fun p hp => absurd hp List.not_mem_nil
  · rw [scheduled, hjob]
    exact .opening rfl ⟨base.moment_le_endOf e, fun _ => rfl, fun h => (by cases h)⟩ rfl rfl
  · intro f h
    cases h
  · rw [scheduled, hjob]
    constructor
    · intro hsome
      cases hsome
    · rintro ⟨started, turn, hturn⟩
      cases hturn

end Undertaking

end

end Measurement
