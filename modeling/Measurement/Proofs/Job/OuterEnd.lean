/-
Occurrences at the end of a repeated scope.

A job whose series is on time can always go on to its end (`exists_over`), and by
then it has one result for every occurrence, but for those that start when the
watch for the end of the scope goes off, or later. An occurrence at that very
moment is run if the job looks first, and is lost if the watch does. Where no
leap second is involved, the only such occurrence is the last one (`startOf_ascending`).
-/
import Measurement.Proofs.Job.Punctual

set_option autoImplicit false

namespace Measurement

/-! ## 1. Starts -/

/-- Whether no leap second is involved in a schedule. -/
structure WithoutLeap (s : Scope) (base : Reading) : Prop where
  wall : base.wall.isLeap = false
  times : ∀ t ∈ s.times, t.isLeap = false

namespace Reading

variable {base : Reading} {s : Scope} {e u : Instant} {all : List Scope} {k : Nat}

theorem startOf_occurrence (inner : Inner) (hwall : base.wall.isLeap = false)
    (hu : u.isLeap = false) : base.startOf (Series.occurrence inner u) = base.moment
      + ((max 0 (u.nanos - base.wall.nanos) + (nanosPerMilli - 1)) / nanosPerMilli).toNat := by
  obtain ⟨-, hstart, -⟩ := Series.occurrence_spec inner u base.wall
  rw [startOf, hstart, Option.getD_some, momentAfter, Scope.nanos_untilThen,
    Instant.nanos_since hu hwall]

/-- One after the other, occurrences start at later moments. -/
theorem startOf_ascending (hplain : WithoutLeap s base) (hall : s.HasAll base.wall all)
    (hrepeated : s.isRepeated = true) (hlast : s.lastAt base.wall = some e) :
    all.Pairwise fun a b => base.startOf a < base.startOf b := by
  obtain ⟨inner, ticks, rfl, hapart, hticks⟩ :=
    Scope.exists_ticks_of_hasAll hall hrepeated hlast hplain.wall hplain.times
  rw [List.pairwise_map]
  refine hapart.imp_of_mem fun {a b} ha hb hab => ?_
  obtain ⟨haleap, -, hapast⟩ := hticks a ha
  obtain ⟨hbleap, -, -⟩ := hticks b hb
  rw [startOf_occurrence inner hplain.wall haleap, startOf_occurrence inner hplain.wall hbleap]
  simp only [nanosPerMilli] at *
  omega

theorem startOf_le_endOf (hplain : WithoutLeap s base) (hall : s.HasAll base.wall all)
    (hrepeated : s.isRepeated = true) (hlast : s.lastAt base.wall = some e) :
    ∀ o ∈ all, base.startOf o ≤ base.endOf e := by
  obtain ⟨inner, ticks, rfl, hapart, hticks⟩ :=
    Scope.exists_ticks_of_hasAll hall hrepeated hlast hplain.wall hplain.times
  intro o ho
  obtain ⟨a, ha, rfl⟩ := List.mem_map.1 ho
  obtain ⟨haleap, hle, -⟩ := hticks a ha
  have heleap := Scope.isLeap_of_lastAt hplain.wall hplain.times hlast
  have hnanos := (Instant.le_iff_nanos haleap heleap).1 hle
  rw [startOf_occurrence inner hplain.wall haleap, endOf, Timers.fires_eq, momentAfter,
    Scope.nanos_untilThen, Instant.nanos_since heleap hplain.wall]
  simp only [nanosPerMilli]
  omega

/-- An occurrence that starts at the end of its scope is the last one. -/
theorem last_of_endOf_le (hascending : all.Pairwise fun a b => base.startOf a < base.startOf b)
    (hstarts : ∀ o ∈ all, base.startOf o ≤ base.endOf e) (hk : k ≤ all.length) {o : Scope}
    (ho : o ∈ all.take (k + 1)) (hend : base.endOf e ≤ base.startOf o) :
    k = all.length
      ∨ k + 1 = all.length ∧ all.getLast? = some o ∧ base.startOf o = base.endOf e := by
  obtain ⟨i, hi, rfl⟩ := List.getElem_of_mem ho
  rw [List.length_take] at hi
  rw [List.getElem_take] at hend ⊢
  -- An occurrence behind this one would start later, but none starts behind the end.
  have hlast : all.length ≤ i + 1 := by
    refine Nat.not_lt.1 fun hnext => ?_
    have hlater := List.pairwise_iff_getElem.1 hascending i (i + 1) (by omega) hnext (by omega)
    have hbound := hstarts _ (List.getElem_mem hnext)
    omega
  by_cases hall : k = all.length
  · exact .inl hall
  · have hindex : i = all.length - 1 := by omega
    refine .inr ⟨by omega, ?_, ?_⟩
    · rw [List.getLast?_eq_getElem?, ← hindex]
      exact List.getElem?_eq_getElem (by omega)
    · exact Nat.le_antisymm (hstarts _ (List.getElem_mem _)) hend

end Reading

/-- Runs that have all succeeded have left one result each. -/
theorem Chronicle.Succeeded.length_results {v : Service} {s : Specification} {c : Chronicle}
    (h : c.Succeeded) (hlength : c.begun.length = c.returned.length) :
    (c.results v s).length = c.begun.length := by
  have hall : ∀ p ∈ c.begun.zip c.returned, ∃ r,
      p.2.2.toOption.map ((Job.make v s).stamp p.1.wall p.2.1) = some r := by
    intro p hp
    obtain ⟨r, hr⟩ := h p.2 (List.of_mem_zip hp).2
    exact ⟨_, by rw [hr]; rfl⟩
  rw [Chronicle.results, List.length_filterMap_eq_countP, List.countP_eq_length.2 ?_,
    List.length_zip, hlength, Nat.min_self]
  intro p hp
  obtain ⟨r, hr⟩ := hall p hp
  rw [hr]
  rfl

namespace Undertaking

variable {v : Service} {s : Specification} {base now : Reading} {E m : Nat} {all : List Scope}
  {u : Undertaking}

/-! ## 2. Smooth steps -/

theorem Punctual.of_step {st : Step} (hpass : u.MayPass m now.moment) (hsmooth : u.Smooth now st) :
    Punctual u m (u.step now st) now.moment :=
  .step .start hpass hsmooth

/-- What leaves the run as it is, or begins one, is smooth. -/
theorem smooth_wakeJob (h : ∀ f, u.outcome? ≠ some (.error f)) (now : Reading) :
    u.Smooth now .wakeJob := by
  refine ⟨by simp, fun f => ?_⟩
  rw [step, wakeJob]
  split
  · dsimp only
    split
    · intro hsome
      cases hsome
    · exact h f
  · exact h f

theorem smooth_watchScope (h : ∀ f, u.outcome? ≠ some (.error f)) (now : Reading) :
    u.Smooth now .watchScope := by
  refine ⟨by simp, fun f => ?_⟩
  rw [step, watchScope]
  split <;> exact h f

theorem smooth_collect (h : ∀ f, u.outcome? ≠ some (.error f)) (now : Reading) :
    u.Smooth now .collect := by
  refine ⟨by simp, fun f => ?_⟩
  rw [step, collect]
  split
  · intro hsome
    cases hsome
  · exact h f

/-- A run that returns a result is smooth. -/
theorem smooth_arrive (h : ∀ f, u.outcome? ≠ some (.error f)) (now : Reading) (r : Result) :
    u.Smooth now (.arrive (.ok r)) := by
  refine ⟨by simp, fun f hsome => ?_⟩
  rcases u with ⟨job, _ | a⟩
  · cases hsome
  · cases a with
    | finished outcome => exact h f hsome
    | handed | waiting | ticking => cases hsome

/-- Once a run has returned, its outcome is there. -/
theorem exists_outcome_of_arrive (hactivity : u.activity.isSome = true) (now : Reading)
    (r : Result) : (u.step now (.arrive (.ok r))).outcome?.isSome = true := by
  rcases u with ⟨job, _ | a⟩
  · cases hactivity
  · cases a <;> rfl

/-! ## 3. The way to the end -/

/-- A series comes to a place between two runs without delay, and without its interrupt. -/
theorem InTime.exists_between (h : InTime v s base E u m) :
    ∃ w, Punctual u m w m ∧ w.job.handed = u.job.handed
      ∧ w.job.interrupted = u.job.interrupted
      ∧ (w.job.task = .idle ∨ ∃ o due course, w.job.task = .awaiting o due course) := by
  obtain ⟨c, occs, hjob, hseries, -, hontime⟩ := h.series
  let now : Reading := ⟨m, base.wall⟩
  cases hontime with
  | @opening origin first task =>
    have hwakes : u.jobWakes m = true := by simp only [jobWakes, task]
    have hopen : u.job.wake now = u.job.openSeries origin first := by simp only [Job.wake, task]
    have hstep : u.step now .wakeJob = ⟨u.job.openSeries origin first, u.activity⟩ := by
      rw [← hopen]
      exact wakeJob_of_same hwakes (by rw [hopen, Job.handed_openSeries])
    refine ⟨_, .of_step (.inl rfl) (smooth_wakeJob h.smooth now), ?_⟩
    rw [hstep]
    refine ⟨Job.handed_openSeries _ _ _, hopen ▸ Job.interrupted_wake u.job now, ?_⟩
    rcases u.job.task_openSeries origin first with hidle | ⟨_, o, due, course, -, -, hawaiting⟩
    · exact .inl hidle
    · exact .inr ⟨o, due, course, hawaiting⟩
  | awaiting task => exact ⟨u, .start, rfl, rfl, .inr ⟨_, _, _, task⟩⟩
  | @inTurn started turn task =>
    -- The run returns, and the job takes its result.
    have hactivity := h.attended.2 ⟨started, turn, task⟩
    have hsmooth := smooth_arrive h.smooth now (.ofSpecification s)
    let w := u.step now (.arrive (.ok (.ofSpecification s)))
    obtain ⟨outcome, houtcome⟩ := Option.isSome_iff_exists.1
      (exists_outcome_of_arrive hactivity now (.ofSpecification s))
    have hcollect : (w.step now .collect).job = u.job.conclude now outcome :=
      (job_collect w now).trans (by rw [houtcome]; rfl)
    have hreturned : ∃ r, outcome = .ok r := by
      cases outcome with
      | ok r => exact ⟨r, rfl⟩
      | error f => exact absurd houtcome (hsmooth.2 f)
    obtain ⟨r, rfl⟩ := hreturned
    refine ⟨w.step now .collect,
      (Punctual.of_step (.inl rfl) hsmooth).step (.inl rfl) (smooth_collect hsmooth.2 now), ?_⟩
    rw [hcollect]
    refine ⟨Job.handed_conclude _ _ _, Job.interrupted_conclude _ _ _, ?_⟩
    rcases Job.task_conclude task now (.ok r) with hidle | ⟨-, -, o, due, rest, -, hawaiting⟩
    · exact .inl hidle
    · exact .inr ⟨o, due, _, hawaiting⟩
  | ended task => exact ⟨u, .start, rfl, rfl, .inl task⟩

/-- A series in time that is not over has not ended, and its end is watched. -/
theorem InTime.watched (h : InTime v s base E u m) (htask : u.job.task ≠ .idle) :
    u.job.isFinished = false ∧ Watched E m u.job := by
  obtain ⟨c, occs, hjob, hseries, -, hontime⟩ := h.series
  refine ⟨?_, hontime.watched htask⟩
  rw [← hjob] at htask ⊢
  exact (hseries.stage.underway htask).not_finished

/-- The clock may go on while a series waits, to the start of the occurrence or to the end of the
scope. -/
theorem InTime.mayPass {n : Nat} (h : InTime v s base E u m) {o : Scope} {due : Nat}
    {course : Course} (htask : u.job.task = .awaiting o due course)
    (hinterrupted : u.job.interrupted = false) (hle : m ≤ n) (hdue : n = m ∨ n ≤ due)
    (hend : n ≤ E) : u.MayPass m n := by
  by_cases hsame : n = m
  · exact .inl hsame
  · have hlater : n ≤ due := hdue.resolve_left hsame
    obtain ⟨hfinished, hwatched⟩ := h.watched (by rw [htask]; simp)
    have hscope : u.due? .scopeEnd = some E := by
      simp only [due?, hfinished, hwatched.armed hinterrupted, Bool.false_eq_true, if_false]
    have hstart : u.due? .job = some due := by simp only [due?, htask]
    have hnone : ∀ started turn, u.job.task ≠ .inTurn started turn := by
      intro started turn hturn
      cases htask.symm.trans hturn
    have hactivity := h.attended.activity_eq_none hnone
    refine .inr ⟨by omega, ⟨?_, ?_, hnone⟩, fun strand d hd => ?_⟩
    · simp only [jobWakes, htask, isDue, hstart, hinterrupted, Option.any_some, Bool.or_false,
        decide_eq_false_iff_not]
      omega
    · simp only [isDue, hscope, Option.any_some, decide_eq_false_iff_not]
      omega
    · cases strand with
      | scopeEnd =>
        cases hscope.symm.trans hd
        exact hend
      | job =>
        cases hstart.symm.trans hd
        exact hlater
      | turnEnd =>
        simp only [due?, htask] at hd
        cases hd
      | run =>
        simp only [due?, hactivity, Option.bind_none] at hd
        cases hd

/-- A job that was interrupted while it waited ends when it looks. -/
theorem exists_over_of_interrupted (hsmooth : ∀ f, u.outcome? ≠ some (.error f)) {o : Scope}
    {due : Nat} {course : Course} (htask : u.job.task = .awaiting o due course)
    (hinterrupted : u.job.interrupted = true) (m : Nat) : ∃ w, Punctual u m w m
      ∧ w.job.task = .idle ∧ w.job.handed = u.job.handed ∧ w.job.interrupted = true := by
  let now : Reading := ⟨m, .epoch⟩
  have hwakes : u.jobWakes m = true := by simp only [jobWakes, htask, hinterrupted, Bool.or_true]
  have hfinish := Job.wake_of_interrupted htask hinterrupted now
  have hstep : u.step now .wakeJob = ⟨u.job.finish, u.activity⟩ := by
    rw [← hfinish]
    exact wakeJob_of_same hwakes (by rw [hfinish]; rfl)
  refine ⟨_, .of_step (.inl rfl) (smooth_wakeJob hsmooth now), ?_⟩
  rw [hstep]
  exact ⟨rfl, rfl, hinterrupted⟩

/-- The watch that looks first ends a series that waits for an occurrence at the end of its scope,
or behind it. -/
theorem InTime.exists_over_of_watch (h : InTime v s base E u m) {o : Scope} {due : Nat}
    {course : Course} (htask : u.job.task = .awaiting o due course)
    (hinterrupted : u.job.interrupted = false) (hdue : E ≤ due) :
    ∃ w, Punctual u m w E ∧ w.job.task = .idle ∧ w.job.handed = u.job.handed := by
  obtain ⟨hfinished, hwatched⟩ := h.watched (by rw [htask]; simp)
  let now : Reading := ⟨E, .epoch⟩
  have hrings : u.isDue .scopeEnd E = true := by
    simp only [isDue, due?, hfinished, hwatched.armed hinterrupted, Bool.false_eq_true, if_false,
      Option.any_some, Nat.le_refl, decide_true]
  have hstep : u.step now .watchScope
      = ⟨{ u.job with interrupted := true, ends := none }, u.activity⟩ := by
    rw [Undertaking.step, watchScope, if_pos hrings]
    simp only [handle, Job.handle, hfinished, Bool.false_eq_true, if_false]
  have hpass : u.MayPass m now.moment :=
    h.mayPass htask hinterrupted hwatched.le (.inr hdue) (Nat.le_refl E)
  have hsmooth := smooth_watchScope h.smooth now
  have hthere : (u.step now .watchScope).job.task = .awaiting o due course := by
    rw [hstep]
    exact htask
  have hraised : (u.step now .watchScope).job.interrupted = true := by rw [hstep]
  obtain ⟨w, hw, hidle, hhanded, -⟩ := exists_over_of_interrupted hsmooth.2 hthere hraised E
  refine ⟨w, (Punctual.of_step hpass hsmooth).trans hw, hidle, ?_⟩
  rw [hhanded, hstep]

/-- The job that looks first begins the run of an occurrence that starts no later than its scope
ends. -/
theorem InTime.exists_begun (haccepts : v.capability.accepts s = .ok ())
    (h : InTime v s base E u m) {o : Scope} {due : Nat} {course : Course}
    (htask : u.job.task = .awaiting o due course) (hinterrupted : u.job.interrupted = false)
    (hdue : due ≤ E) :
    ∃ w, Punctual u m w (max m due) ∧ w.job.handed.length = u.job.handed.length + 1
      ∧ w.job.interrupted = false := by
  obtain ⟨c, occs, hjob, hseries, -, -⟩ := h.series
  have hle : m ≤ E := (h.watched (by rw [htask]; simp)).2.le
  let now : Reading := ⟨max m due, .epoch⟩
  have hwakes : u.jobWakes now.moment = true := by
    simp only [jobWakes, isDue, due?, htask, Option.any_some, Bool.or_eq_true, decide_eq_true_eq]
    exact .inl (Nat.le_max_right m due)
  have hbegin := hseries.kept.wake_of_awaiting haccepts (hjob ▸ htask) (hjob ▸ hinterrupted) now
  rw [hjob] at hbegin
  have hstep : u.step now .wakeJob
      = ⟨u.job.wake now, some (.handed (s.forOccurrence o))⟩ :=
    wakeJob_of_handed hwakes (by rw [hbegin])
  have hpass : u.MayPass m now.moment := by
    refine h.mayPass htask hinterrupted (Nat.le_max_left m due) ?_ (Nat.max_le.2 ⟨hle, hdue⟩)
    change max m due = m ∨ max m due ≤ due
    omega
  refine ⟨_, .of_step hpass (smooth_wakeJob h.smooth now), ?_⟩
  rw [hstep, hbegin]
  exact ⟨List.length_append, hinterrupted⟩

/-! ## 4. The occurrences of a series on time -/

/-- A series in time has come to the first of all occurrences. -/
theorem InTime.exists_occurrences (hall : s.scope.HasAll base.wall all)
    (h : InTime v s base E u m) : u.job.handed.length ≤ all.length
      ∧ u.job.handed = (all.take u.job.handed.length).map s.forOccurrence
      ∧ OnTime s base E m u.job (all.take u.job.handed.length) := by
  obtain ⟨c, occs, hjob, hseries, -, hontime⟩ := h.series
  have hhanded : u.job.handed = occs.map s.forOccurrence := hjob ▸ hseries.kept.handed
  have hlength : u.job.handed.length = occs.length := by rw [hhanded, List.length_map]
  rw [hlength]
  have heq := hall.eq_take hseries.kept.begins
  refine ⟨hall.length_le hseries.kept.begins, ?_, ?_⟩
  · rw [← heq]
    exact hhanded
  · rw [← heq]
    exact hontime

/-- The occurrence for which a series in time waits is the next one. -/
theorem InTime.next_of_awaiting (hall : s.scope.HasAll base.wall all) (h : InTime v s base E u m)
    {o : Scope} {due : Nat} {course : Course} (htask : u.job.task = .awaiting o due course) :
    due = base.startOf o ∧ all[u.job.handed.length]? = some o := by
  obtain ⟨c, occs, hjob, hseries, -, hontime⟩ := h.series
  constructor
  · cases hontime with
    | awaiting task watched counted start =>
      cases htask.symm.trans task
      exact start
    | opening task | inTurn task | ended task => cases htask.symm.trans task
  · obtain ⟨os, hos, hyields⟩ := (hseries.stage.of_awaiting (hjob ▸ htask)).yields
    have hnext := hall.eq_take (Scope.beginsWith_of_yields hos hyields)
    rw [List.length_append, List.length_singleton] at hnext
    rw [← hjob, hseries.kept.handed, List.length_map,
      ← List.getElem?_take_of_lt (Nat.lt_succ_self occs.length), ← hnext]
    exact List.getElem?_concat_length

/-- A series in time can always go on to its end, and if the watch has not gone off and no
occurrence starts behind the end of the scope, it can do so before the watch goes off. -/
theorem InTime.exists_over (haccepts : v.capability.accepts s = .ok ())
    (hall : s.scope.HasAll base.wall all) (h : InTime v s base E u m) :
    ∃ w n, Punctual u m w n ∧ w.job.task = .idle
      ∧ ((∀ o ∈ all, base.startOf o ≤ E) → w.job.interrupted = u.job.interrupted) := by
  -- Every run leaves fewer occurrences to come.
  generalize hleft : all.length - u.job.handed.length = left
  induction left using Nat.strongRecOn generalizing u m with
  | ind left ih =>
    obtain ⟨w, hw, hhanded, hsame, hidle | ⟨o, due, course, htask⟩⟩ := h.exists_between
    · exact ⟨w, m, hw, hidle, fun _ => hsame⟩
    · have hwait := h.punctual haccepts hw
      obtain ⟨hdue, hnext⟩ := hwait.next_of_awaiting hall htask
      by_cases hinterrupted : w.job.interrupted = true
      · obtain ⟨x, hx, hover, -, hraised⟩ :=
          exists_over_of_interrupted hwait.smooth htask hinterrupted m
        exact ⟨x, m, hw.trans hx, hover, fun _ => hraised.trans (hinterrupted.symm.trans hsame)⟩
      · have hnot : w.job.interrupted = false := Bool.not_eq_true _ ▸ hinterrupted
        by_cases hbehind : due ≤ E
        · obtain ⟨x, hx, hlength, hstill⟩ := hwait.exists_begun haccepts htask hnot hbehind
          have hfewer : all.length - x.job.handed.length < left := by
            have hmore := (List.getElem?_eq_some_iff.1 hnext).1
            rw [hhanded] at hmore hlength
            omega
          obtain ⟨y, n, hy, hover, hraised⟩ := ih _ hfewer (hwait.punctual haccepts hx) rfl
          refine ⟨y, n, (hw.trans hx).trans hy, hover, fun hstarts => ?_⟩
          rw [hraised hstarts, hstill, ← hnot, hsame]
        · obtain ⟨x, hx, hover, -⟩ := hwait.exists_over_of_watch htask hnot (by omega)
          refine ⟨x, E, hw.trans hx, hover, fun hstarts => ?_⟩
          have hstart := hstarts o (List.mem_of_getElem? hnext)
          omega

/-- A series in time that is over has completed, with one result for every occurrence to which it
has come. -/
theorem InTime.of_idle (hall : s.scope.HasAll base.wall all) (h : InTime v s base E u m)
    (hidle : u.job.task = .idle) : u.job.progress.state = .completed
      ∧ u.job.progress.results.length = u.job.handed.length
      ∧ (u.job.interrupted = true ∨ u.job.handed.length = all.length) := by
  obtain ⟨c, occs, hjob, hseries, hsucceeded, -⟩ := h.series
  have hlength : u.job.handed.length = occs.length := by
    rw [← hjob, hseries.kept.handed, List.length_map]
  have hle := hall.length_le hseries.kept.begins
  rw [hlength, ← hjob]
  rw [← hjob] at hidle
  cases hseries.stage with
  | completed task state settled cause =>
    refine ⟨state, ?_, cause.imp_right (hall.endsAfter_iff hle).1⟩
    have hresults := hsucceeded.length_results (v := v) (s := s)
      (hseries.kept.begun.trans settled.returned.symm)
    rw [hseries.kept.results, hresults, hseries.kept.begun]
  | @failed earlier e f task state returned last =>
    have hmem : (e, .error f) ∈ c.returned := last ▸ List.mem_append_right _ List.mem_cons_self
    exact absurd hmem (hsucceeded.not_mem e f)
  | broken task underway settled breaks => exact absurd breaks (hall.not_breaksAfter _)
  | opening task | awaiting task | inTurn task => cases hidle.symm.trans task

/-- A series in time with occurrences to come comes to wait for the next one, unless it was
interrupted. -/
theorem InTime.exists_awaiting (haccepts : v.capability.accepts s = .ok ())
    (hall : s.scope.HasAll base.wall all) (h : InTime v s base E u m)
    (hinterrupted : u.job.interrupted = false) (hmore : u.job.handed.length < all.length) :
    ∃ w, Punctual u m w m ∧ w.job.interrupted = false
      ∧ w.job.handed.length = u.job.handed.length
      ∧ ∃ o due course, w.job.task = .awaiting o due course := by
  obtain ⟨w, hw, hhanded, hsame, hplace⟩ := h.exists_between
  refine ⟨w, hw, hsame.trans hinterrupted, congrArg List.length hhanded, ?_⟩
  refine hplace.resolve_left fun hidle => ?_
  rcases ((h.punctual haccepts hw).of_idle hall hidle).2.2 with hraised | hnone
  · cases (hsame.trans hinterrupted).symm.trans hraised
  · rw [hhanded] at hnone
    omega

/-- If none of them starts behind the end of the scope, it can come to wait for each of the
occurrences to come. -/
theorem InTime.exists_awaiting_each (haccepts : v.capability.accepts s = .ok ())
    (hall : s.scope.HasAll base.wall all) (hstarts : ∀ o ∈ all, base.startOf o ≤ E)
    (h : InTime v s base E u m) (hinterrupted : u.job.interrupted = false) {k : Nat}
    (hfrom : u.job.handed.length ≤ k) (hk : k < all.length) :
    ∃ w n, Punctual u m w n ∧ w.job.interrupted = false ∧ w.job.handed.length = k
      ∧ ∃ o due course, w.job.task = .awaiting o due course := by
  generalize hleft : k - u.job.handed.length = left
  induction left generalizing u m with
  | zero =>
    obtain ⟨w, hw, hstill, hlength, hawaiting⟩ :=
      h.exists_awaiting haccepts hall hinterrupted (by omega)
    exact ⟨w, m, hw, hstill, by omega, hawaiting⟩
  | succ left ih =>
    obtain ⟨w, hw, hstill, hlength, o, due, course, htask⟩ :=
      h.exists_awaiting haccepts hall hinterrupted (by omega)
    have hwait := h.punctual haccepts hw
    obtain ⟨rfl, hnext⟩ := hwait.next_of_awaiting hall htask
    obtain ⟨x, hx, hbegun, hquiet⟩ :=
      hwait.exists_begun haccepts htask hstill (hstarts o (List.mem_of_getElem? hnext))
    obtain ⟨y, n, hy, hthere⟩ := ih (hwait.punctual haccepts hx) hquiet (by omega) (by omega)
    exact ⟨y, n, (hw.trans hx).trans hy, hthere⟩

/-- A series that was cut short has no more occurrences, or one has come, or is next, that starts at
the end of the scope or behind it. -/
theorem exists_mem_of_cutShort (hall : s.scope.HasAll base.wall all) {k : Nat}
    (hk : k ≤ all.length) (h : CutShort s base E (all.take k)) :
    k = all.length ∨ ∃ o ∈ all.take (k + 1), E ≤ base.startOf o := by
  by_cases hnone : k = all.length
  · exact .inl hnone
  · refine .inr ?_
    have hlt : k < all.length := by omega
    have hnext : all[k] ∈ all.take (k + 1) := by
      rw [List.take_succ_eq_append_getElem hlt]
      exact List.mem_append_right _ List.mem_cons_self
    rcases h with hplain | ⟨next, hbegins, hend⟩
    · rcases Reading.exists_of_le_reach hplain with hbase | ⟨o, ho, hend⟩
      · exact ⟨_, hnext, Nat.le_trans hbase (base.moment_le_startOf _)⟩
      · exact ⟨o, (List.take_prefix_take_left (Nat.le_succ k)).subset ho, hend⟩
    · have heq := hall.eq_take hbegins
      rw [List.length_append, List.length_take, List.length_singleton, Nat.min_eq_left hk] at heq
      refine ⟨next, ?_, hend⟩
      rw [← heq]
      exact List.mem_append_right _ List.mem_cons_self

/-- What is so at the moment `m` of a series that was scheduled at `base`, whose scope ends at `e`
and has these occurrences, if its timers go off on time. -/
structure RunsOnTime (s : Specification) (base : Reading) (e : Instant) (all : List Scope)
    (u : Undertaking) (m : Nat) : Prop where
  /-- What was handed to the service are the first occurrences, each in the place of the scope. -/
  handed : u.job.handed = (all.take u.job.handed.length).map s.forOccurrence
  /-- None of them starts behind the end of the scope. -/
  begun : ∀ o ∈ all.take u.job.handed.length, base.startOf o ≤ base.endOf e
  /-- Behind the end of the scope, the job is over. -/
  behind : base.endOf e < m → u.job.task = .idle
  /-- A job that is over has completed, with one result for each of these occurrences. There are no
  more, or one has come, or is next, that starts at the end of the scope or behind it. -/
  completed : u.job.task = .idle → u.job.progress.state = .completed
    ∧ u.job.progress.results.length = u.job.handed.length
    ∧ (u.job.handed.length = all.length
      ∨ ∃ o ∈ all.take (u.job.handed.length + 1), base.endOf e ≤ base.startOf o)
  /-- A job that is over lacks no result, or that of the last occurrence, which starts at the end of
  the scope. -/
  lacking : WithoutLeap s.scope base → u.job.task = .idle → u.job.handed.length = all.length
    ∨ ∃ o, all.getLast? = some o ∧ base.startOf o = base.endOf e
      ∧ u.job.handed.length + 1 = all.length
  /-- The job can go on until it is over. -/
  ends : ∃ w n, Punctual u m w n ∧ w.job.task = .idle
  /-- If the watch for the end of the scope has not gone off, the job can look before the watch
  does, and then it lacks no result. -/
  nothingLost : u.job.interrupted = false → WithoutLeap s.scope base →
    ∃ w n, Punctual u m w n ∧ w.job.task = .idle ∧ w.job.handed.length = all.length
  /-- Nor can the job help it if the watch looks first and the last occurrence, which has not come,
  starts at the end of the scope: then it lacks this one. -/
  lost : u.job.interrupted = false → WithoutLeap s.scope base →
    u.job.handed.length < all.length →
    (∀ o, all.getLast? = some o → base.startOf o = base.endOf e) →
    ∃ w n, Punctual u m w n ∧ w.job.task = .idle ∧ w.job.handed.length + 1 = all.length

theorem runsOnTime_of_inTime {e : Instant} (haccepts : v.capability.accepts s = .ok ())
    (hrepeated : s.scope.isRepeated = true) (hlast : s.scope.lastAt base.wall = some e)
    (hall : s.scope.HasAll base.wall all) (h : InTime v s base (base.endOf e) u m) :
    RunsOnTime s base e all u m := by
  obtain ⟨hle, hhanded, hontime⟩ := h.exists_occurrences hall
  have hlength : (all.take u.job.handed.length).length = u.job.handed.length := by
    rw [List.length_take]
    omega
  -- A cursor that has all these occurrences does not break off.
  have hcompleted : u.job.task = .idle → u.job.handed.length = all.length
      ∨ ∃ o ∈ all.take (u.job.handed.length + 1), base.endOf e ≤ base.startOf o := by
    intro hidle
    cases hontime with
    | ended task reached cause =>
      rw [hlength] at cause
      rcases cause with hends | hbreaks | hcut
      · exact .inl ((hall.endsAfter_iff hle).1 hends)
      · exact absurd hbreaks (hall.not_breaksAfter _)
      · exact exists_mem_of_cutShort hall hle hcut
    | opening task | awaiting task | inTurn task => cases hidle.symm.trans task
  constructor
  case handed => exact hhanded
  case begun =>
    intro o ho
    exact Nat.le_trans (Reading.startOf_le_reach ho) hontime.reach_le
  case behind =>
    intro hbehind
    cases hontime with
    | ended task => exact task
    | opening task watched | awaiting task watched | inTurn task watched =>
      exact absurd watched.le (by omega)
  case completed =>
    intro hidle
    obtain ⟨hstate, hresults, -⟩ := h.of_idle hall hidle
    exact ⟨hstate, hresults, hcompleted hidle⟩
  case lacking =>
    intro hplain hidle
    rcases hcompleted hidle with hnone | ⟨o, ho, hend⟩
    · exact .inl hnone
    · have hascending := Reading.startOf_ascending hplain hall hrepeated hlast
      have hstarts := Reading.startOf_le_endOf hplain hall hrepeated hlast
      rcases Reading.last_of_endOf_le hascending hstarts hle ho hend with hnone | ⟨hone, ho, hat⟩
      · exact .inl hnone
      · exact .inr ⟨o, ho, hat, hone⟩
  case ends =>
    obtain ⟨w, n, hw, hidle, -⟩ := h.exists_over haccepts hall
    exact ⟨w, n, hw, hidle⟩
  case nothingLost =>
    -- A series that is over without having been interrupted has no more occurrences.
    intro hnot hplain
    obtain ⟨w, n, hw, hidle, hsame⟩ := h.exists_over haccepts hall
    refine ⟨w, n, hw, hidle, ?_⟩
    have hquiet := hsame (Reading.startOf_le_endOf hplain hall hrepeated hlast)
    rcases ((h.punctual haccepts hw).of_idle hall hidle).2.2 with hraised | hnone
    · rw [hquiet, hnot] at hraised
      cases hraised
    · exact hnone
  case lost =>
    -- The series goes on to wait for the last occurrence, and then the watch looks first.
    intro hnot hplain hmore hlatest
    have hstarts := Reading.startOf_le_endOf hplain hall hrepeated hlast
    obtain ⟨w, n, hw, hstill, hlength, o, due, course, htask⟩ :=
      h.exists_awaiting_each haccepts hall hstarts hnot (k := all.length - 1) (by omega)
        (by omega)
    have hwait := h.punctual haccepts hw
    obtain ⟨hdue, hnext⟩ := hwait.next_of_awaiting hall htask
    have hend : base.startOf o = base.endOf e := by
      refine hlatest o ?_
      rw [List.getLast?_eq_getElem?, ← hlength]
      exact hnext
    obtain ⟨x, hx, hidle, hhanded⟩ := hwait.exists_over_of_watch htask hstill (by omega)
    refine ⟨x, _, hw.trans hx, hidle, ?_⟩
    rw [hhanded]
    omega

/-- The job of a repeated scope with an end completes with one result for every occurrence, but for
those that start when the watch for that end goes off, or later, in whatever order the timers go off
that are due at one moment. -/
theorem occurrences_are_run_up_to_the_end (hquery : s.statement.isQuery = false)
    (hrepeated : s.scope.isRepeated = true) {e : Instant}
    (hlast : s.scope.lastAt base.wall = some e) (hopen : ¬ e < base.wall)
    (haccepts : v.capability.accepts s = .ok ()) :
    (∃ n, s.scope.BreaksAfter base.wall n) ∨ ∃ all, s.scope.HasAll base.wall all
      ∧ ∀ u m, Punctual (scheduled v s base) base.moment u m → RunsOnTime s base e all u m := by
  rcases Scope.exists_hasAll hrepeated hlast with hbreaks | ⟨all, hall⟩
  · exact .inl hbreaks
  · refine .inr ⟨all, hall, fun u m hpunctual => ?_⟩
    have hstart := inTime_scheduled (v := v) hquery hrepeated hlast hopen
    exact runsOnTime_of_inTime haccepts hrepeated hlast hall (hstart.punctual haccepts hpunctual)

/-- The end of the example, two seconds after it was scheduled. -/
def twoSecondsLater : Reading := ⟨2000, .ofParts 0 2 0⟩

/-- A measurement in every second from the first to the end of the example. -/
def everySecondToEnd : Specification :=
  ⟨{ Statement.make Statement.measureVerb default with
    scope := ⟨.fixed .epoch, .through (.fixed twoSecondsLater.wall),
      .every (.ofSeconds 1) ⟨none, none⟩⟩ }⟩

/-- The job of the example is one of a repeated scope whose end is not past. -/
theorem everySecondToEnd_ends :
    everySecondToEnd.statement.isQuery = false ∧ everySecondToEnd.scope.isRepeated = true
      ∧ everySecondToEnd.scope.lastAt atFirst.wall = some twoSecondsLater.wall
      ∧ ¬ twoSecondsLater.wall < atFirst.wall
      ∧ Job.obliging.capability.accepts everySecondToEnd = .ok () :=
  ⟨by decide +kernel, by decide, by decide +kernel, by decide +kernel, accepts_withScope _⟩

theorem everySecondToEnd_withoutLeap : WithoutLeap everySecondToEnd.scope atFirst :=
  ⟨by decide, by decide⟩

/-- The occurrences of the example. -/
def seconds : List Scope :=
  [.epoch, secondLater.wall, twoSecondsLater.wall].map (Series.occurrence ⟨none, none⟩)

theorem hasAll_seconds : everySecondToEnd.scope.HasAll atFirst.wall seconds := by
  rw [Scope.HasAll]
  rfl

/-- A job that looks first has a result for the occurrence at the end of its scope. -/
theorem job_that_looks_first_loses_nothing :
    everySecondToEnd.statement.isQuery = false ∧ everySecondToEnd.scope.isRepeated = true
      ∧ everySecondToEnd.scope.lastAt atFirst.wall = some twoSecondsLater.wall
      ∧ ¬ twoSecondsLater.wall < atFirst.wall
      ∧ Job.obliging.capability.accepts everySecondToEnd = .ok ()
      ∧ ∃ u m, Punctual (scheduled Job.obliging everySecondToEnd atFirst) atFirst.moment u m
        ∧ u.job.progress.state = .completed ∧ u.job.progress.results.length = 3 := by
  obtain ⟨hquery, hrepeated, hlast, hopen, haccepts⟩ := everySecondToEnd_ends
  refine ⟨hquery, hrepeated, hlast, hopen, haccepts, ?_⟩
  rcases occurrences_are_run_up_to_the_end hquery hrepeated hlast hopen haccepts with
    ⟨n, hbreaks⟩ | ⟨all, hall, hruns⟩
  · exact absurd hbreaks (hasAll_seconds.not_breaksAfter n)
  · obtain rfl := hall.unique hasAll_seconds
    obtain ⟨u, m, hu, hidle, hlength⟩ :=
      (hruns _ _ .start).nothingLost (by decide +kernel) everySecondToEnd_withoutLeap
    obtain ⟨hstate, hresults, -⟩ := (hruns u m hu).completed hidle
    exact ⟨u, m, hu, hstate, hresults.trans hlength⟩

/-- A watch that looks first takes the occurrence at the end of the scope from its job. -/
theorem watch_that_looks_first_loses_one :
    everySecondToEnd.statement.isQuery = false ∧ everySecondToEnd.scope.isRepeated = true
      ∧ everySecondToEnd.scope.lastAt atFirst.wall = some twoSecondsLater.wall
      ∧ ¬ twoSecondsLater.wall < atFirst.wall
      ∧ Job.obliging.capability.accepts everySecondToEnd = .ok ()
      ∧ everySecondToEnd.scope.HasAll atFirst.wall seconds
      ∧ ∃ u m, Punctual (scheduled Job.obliging everySecondToEnd atFirst) atFirst.moment u m
        ∧ u.job.progress.state = .completed
        ∧ u.job.progress.results.length = 2 ∧ seconds.length = 3 := by
  obtain ⟨hquery, hrepeated, hlast, hopen, haccepts⟩ := everySecondToEnd_ends
  refine ⟨hquery, hrepeated, hlast, hopen, haccepts, hasAll_seconds, ?_⟩
  have hstart := inTime_scheduled (v := Job.obliging) hquery hrepeated hlast hopen
  have hruns : ∀ u m,
      Punctual (scheduled Job.obliging everySecondToEnd atFirst) atFirst.moment u m →
        RunsOnTime everySecondToEnd atFirst twoSecondsLater.wall seconds u m := fun u m hu =>
    runsOnTime_of_inTime haccepts hrepeated hlast hasAll_seconds (hstart.punctual haccepts hu)
  have hlatest : ∀ o, seconds.getLast? = some o →
      atFirst.startOf o = atFirst.endOf twoSecondsLater.wall := by
    rintro o ⟨⟩
    decide +kernel
  obtain ⟨u, m, hu, hidle, hlength⟩ :=
    (hruns _ _ .start).lost (by decide +kernel) everySecondToEnd_withoutLeap (by decide +kernel)
      hlatest
  obtain ⟨hstate, hresults, -⟩ := (hruns u m hu).completed hidle
  exact ⟨u, m, hu, hstate, hresults.trans (Nat.succ.inj hlength), rfl⟩

end Undertaking

end Measurement
