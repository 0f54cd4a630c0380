/-
The replies of a job only move forward, and its states but for one slip.

The writes of all who have hold of a job come in any order. For its replies that
does not matter: no task completes a job without a result unless it is a series,
and that alone is what the replies rest on (`Progress.forward_of_lawful`).

For its states it does. A call of `Job::schedule` looks whether the job is pending
and writes `Scheduled` later, in a critical section of its own, which looks again
only whether the job is at its end. If two calls overlap, the task of the first one
may be running by the time the second one writes, and then the state goes back
from running to scheduled, and a second task is spawned
(`overlapping_calls_set_back`). Nothing else sets a state back: where no two calls
overlap, states only move forward (`only_overlapping_calls_set_back`).
-/
import Mathlib.Data.List.Chain
import Measurement.Proofs.Job.Shared

set_option autoImplicit false

namespace Measurement.Job

open Progress (Lawful Allowed Write)

namespace Shared

/-! ## 1. What a step makes of the progress -/

/-- Whether a step is the second one of a call of `schedule` when a task is running already. -/
def IsLate (x : Shared) (st : Step) : Prop :=
  (∃ now, st = .arm now) ∧ x.calls ≠ 0 ∧ x.job.progress.state = .running

/-- A write that is made in some step: only a series is completed by it without a result, and only
a call that is late sets the state back with it. -/
structure MayWrite (x : Shared) (st : Step) (w : Write) : Prop where
  allowed : Allowed x.job.specification.scope.isRepeated x.job.progress w
  back : w.SetsBack x.job.progress → x.IsLate st ∧ w = .transition .scheduled

theorem mayWrite_of_ofTask {x : Shared} {w : Write}
    (h : OfTask x.job.specification.scope.isRepeated w) (st : Step) : x.MayWrite st w := by
  cases w with
  | transition state =>
    rcases h with rfl | ⟨rfl, hrepeated⟩
    · refine ⟨fun _ hcompleted => JobState.noConfusion hcompleted, ?_⟩
      rintro ⟨hf, hback⟩
      unfold Progress.isFinished at hf
      cases hstate : x.job.progress.state <;> rw [hstate] at hf hback
      · exact absurd hback (by decide)
      · exact absurd hback (by decide)
      · exact absurd hback (by decide)
      · cases hf
      · cases hf
    · refine ⟨fun _ _ => hrepeated, ?_⟩
      rintro ⟨-, hback⟩
      have hle : x.job.progress.state.stage ≤ JobState.completed.stage :=
        JobState.stage_le_of_isTerminal rfl
      omega
  | push r => exact ⟨trivial, False.elim⟩
  | complete r => exact ⟨trivial, False.elim⟩
  | fail token message => exact ⟨trivial, False.elim⟩

/-- A call that goes on sets the state back only if a task is running by then. -/
theorem mayWrite_scheduled {x : Shared} (hcalls : x.calls ≠ 0) (now : Reading) :
    x.MayWrite (.arm now) (.transition .scheduled) := by
  refine ⟨fun _ hcompleted => JobState.noConfusion hcompleted, ?_⟩
  rintro ⟨hf, hback⟩
  refine ⟨⟨⟨now, rfl⟩, hcalls, ?_⟩, rfl⟩
  unfold Progress.isFinished at hf
  cases hstate : x.job.progress.state <;> rw [hstate] at hf hback
  · exact absurd hback (by decide)
  · exact absurd hback (by decide)
  · cases hf
  · cases hf

/-- A step but a poll leaves the progress alone, or writes to it once. -/
theorem progress_step {x : Shared} (hx : x.Fits) {st : Step} (h : st ≠ .poll) :
    (x.step st).job.progress = x.job.progress
      ∨ ∃ w, (x.step st).job.progress = x.job.progress.write w ∧ x.MayWrite st w := by
  have hhappens := happens_step x st
  generalize x.step st = y at hhappens
  cases hhappens with
  | nothing | looked | attended | interrupted => exact Or.inl rfl
  | polled => exact absurd rfl h
  | armed now n called =>
    have hcalls : x.calls ≠ 0 := by omega
    have hprogress := progress_arm x.job now
    rcases armWrites_cases x.job now with hw | hw
    · rw [hw] at hprogress
      exact Or.inr ⟨.transition .scheduled, hprogress, mayWrite_scheduled hcalls now⟩
    · rw [hw] at hprogress
      exact Or.inr ⟨.fail x.job.token expiredText, hprogress, trivial, False.elim⟩
  | wrote i task w owed here =>
    have hw := (hx.errands _ (List.mem_of_getElem? here)).owed w List.mem_cons_self
    exact Or.inr ⟨w, rfl, mayWrite_of_ofTask hw _⟩

/-! ## 2. Replies -/

/-- What callers are told in the course of steps: the replies to their polls, each with whether the
job was at its end then. -/
def replies (x : Shared) : List Step → List (Bool × Message)
  | [] => []
  | .poll :: steps => (x.job.isFinished, x.job.reply) :: (x.step .poll).replies steps
  | st :: steps => (x.step st).replies steps

theorem replies_cons {x : Shared} {st : Step} (h : st ≠ .poll) (steps : List Step) :
    x.replies (st :: steps) = (x.step st).replies steps := by
  cases st with
  | poll => exact absurd rfl h
  | look | arm | attend | write | interrupt | stray => rfl

/-- What callers are told is told of a row of lawful writes with polls between them. -/
theorem exists_told {x : Shared} (hx : x.Fits) (steps : List Step) :
    ∃ ms, Lawful x.job.specification.scope.isRepeated x.job.progress (Progress.writes ms)
      ∧ x.replies steps
        = Progress.told x.job.receipt x.job.specification.scope.isRepeated x.job.progress ms := by
  induction steps generalizing x with
  | nil => exact ⟨[], trivial, rfl⟩
  | cons st steps ih =>
    obtain ⟨ms, hlawful, htold⟩ := ih (fits_step hx st)
    have hspec : (x.step st).job.specification = x.job.specification := (sameOrder_step x st).2
    rw [receipt, hspec] at htold
    rw [hspec] at hlawful
    by_cases hpoll : st = .poll
    · subst hpoll
      refine ⟨.poll :: ms, Progress.lawful_congr (Progress.state_poll _)
        (Progress.results_poll _) hlawful, ?_⟩
      rw [replies, htold]
      rfl
    · rw [replies_cons hpoll]
      rcases progress_step hx hpoll with hsame | ⟨w, hwritten, hw⟩
      · rw [hsame] at hlawful htold
        exact ⟨ms, hlawful, htold⟩
      · rw [hwritten] at hlawful htold
        exact ⟨.write w :: ms, ⟨hw.allowed, hlawful⟩, htold⟩

/-! ## 3. States -/

/-- The states that a job goes through in the course of steps, the first one included. -/
def states (x : Shared) : List Step → List JobState
  | [] => [x.job.progress.state]
  | st :: steps => x.job.progress.state :: (x.step st).states steps

/-- Only a call that is late sets the state back, and then it is scheduled again. -/
theorem precedes_step {x : Shared} (hx : x.Fits) (st : Step) :
    x.job.progress.state.Precedes (x.step st).job.progress.state
      ∨ (x.IsLate st ∧ (x.step st).job.progress.state = .scheduled) := by
  by_cases hpoll : st = .poll
  · subst hpoll
    exact Or.inl (JobState.Precedes.refl _)
  · rcases progress_step hx hpoll with hsame | ⟨w, hwritten, hw⟩
    · rw [hsame]
      exact Or.inl (JobState.Precedes.refl _)
    · rw [hwritten]
      by_cases hback : w.SetsBack x.job.progress
      · obtain ⟨hlate, rfl⟩ := hw.back hback
        refine Or.inr ⟨hlate, ?_⟩
        rw [Progress.write, Progress.transition, hback.1]
        rfl
      · exact Or.inl (Progress.precedes_write hback)

/-- A call that is between its two steps stands before a job that is pending still. -/
def Waits (x : Shared) : Prop := x.calls ≠ 0 → x.job.progress.state = .pending

theorem waits_step {x : Shared} (hx : x.Fits) (h : x.Waits) (hone : x.calls ≤ 1) (st : Step) :
    (x.step st).Waits := by
  have hhappens := happens_step x st
  generalize x.step st = y at hhappens
  cases hhappens with
  | nothing | attended | interrupted | polled => exact h
  | looked pending => exact fun _ => pending
  | armed now n called =>
    -- It was the only call, so none is left.
    intro hcalls
    have hleft : n ≠ 0 := hcalls
    omega
  | wrote i task w owed here =>
    intro hcalls
    rw [hx.unarmed (h hcalls)] at here
    cases here

instance precedesIsTrans : IsTrans JobState JobState.Precedes :=
  ⟨fun _ _ _ => JobState.Precedes.trans⟩

/-- Where no two calls overlap, states only move forward: a call that goes on finds the job pending,
and that is not late. -/
theorem states_isChain {x : Shared} (hx : x.Fits) (hwaits : x.Waits) {steps : List Step}
    (h : x.Alone steps) : (x.states steps).IsChain JobState.Precedes := by
  induction steps generalizing x with
  | nil => exact List.isChain_singleton _
  | cons st steps ih =>
    have hnext := ih (fits_step hx st) (waits_step hx hwaits h.1 st) h.2
    have hforward : x.job.progress.state.Precedes (x.step st).job.progress.state := by
      rcases precedes_step hx st with hforward | ⟨⟨-, hcalls, hrunning⟩, -⟩
      · exact hforward
      · rw [hwaits hcalls] at hrunning
        cases hrunning
    cases steps with
    | nil => exact List.isChain_pair.2 hforward
    | cons next steps => exact List.isChain_cons_cons.2 ⟨hforward, hnext⟩

/-! ## 4. What is so however steps interleave -/

/-- However calls of `schedule`, tasks, callers and late writes come in between each other: callers
get copies of the receipt, then, from a series, envelopes that grow at their end, and from the job's
end on one answer for good. No step sets the state of the job back but the second one of a call that
comes when a task is running already; then the job is scheduled again. If no two calls are between
their two steps at once, states only move forward. That is so of a job to which one action is done
after the other. -/
theorem only_overlapping_calls_set_back (v : Service) (s : Specification) (steps : List Step) :
    let x := make v s
    Progress.Forward (.ofSpecification s) s.scope.isRepeated (x.replies steps)
      ∧ (∀ st, (x.run steps).job.progress.state.Precedes
            ((x.run steps).step st).job.progress.state
          ∨ ((x.run steps).IsLate st
            ∧ ((x.run steps).step st).job.progress.state = .scheduled))
      ∧ (x.Alone steps → (x.states steps).Pairwise JobState.Precedes)
      ∧ ∀ acts, ∃ few, x.Alone few ∧ (x.run few).Is ((Job.make v s).run acts) := by
  intro x
  have hfits : x.Fits := fits_make v s
  refine ⟨?_, precedes_step (fits_run hfits steps), ?_, exists_steps_of_run v s⟩
  · obtain ⟨ms, hlawful, htold⟩ := exists_told hfits steps
    rw [htold]
    exact Progress.forward_of_lawful _ (Progress.sound_initial _) hlawful
  · intro halone
    have hwaits : x.Waits := fun hcalls => absurd rfl hcalls
    exact List.isChain_iff_pairwise.1 (states_isChain hfits hwaits halone)

end Shared

/-! ## 5. Samples -/

/-- A measurement at every second from the reference instant on. -/
def everySecond : Specification :=
  ⟨{ Statement.make Statement.measureVerb default with
    scope := ⟨.now, .through .future, .every (.ofSeconds 1) ⟨none, none⟩⟩ }⟩

/-- A measurement from the reference instant on. -/
def fromNow : Specification := ⟨Statement.make Statement.measureVerb default⟩

/-- A service that runs any measurement without parameters. -/
def obliging : Service := ⟨⟨Statement.make Statement.measureVerb default⟩, .succeed [], 0⟩

namespace Shared

/-- The beginning of the first day. -/
def first : Reading := ⟨0, .epoch⟩

/-- A series that is scheduled twice, one call after the other, is interrupted in its second run,
and is written to when it is over, with polls in between. -/
def twoRuns : List Step :=
  let result : Outcome := .ok (.ofSpecification everySecond)
  [.look, .arm first, .look, .poll, .attend 0 first .wakes, .attend 0 first .wakes, .write 0,
    .attend 0 first (.returns result), .write 0, .poll, .attend 0 first .wakes, .write 0,
    .interrupt, .attend 0 first (.returns result), .write 0, .poll, .write 0, .poll,
    .stray (.fail "" "late"), .poll]

theorem replies_of_two_runs : (make obliging everySecond).Alone twoRuns
    ∧ ((make obliging everySecond).states twoRuns).Pairwise JobState.Precedes
    ∧ Progress.Forward (.ofSpecification everySecond) true
      ((make obliging everySecond).replies twoRuns)
    ∧ ((make obliging everySecond).replies twoRuns).map (·.1)
      = [false, false, false, true, true] := by
  have halone : (make obliging everySecond).Alone twoRuns := by decide +kernel
  obtain ⟨hforward, -, hstates, -⟩ := only_overlapping_calls_set_back obliging everySecond twoRuns
  exact ⟨halone, hstates halone, hforward, by decide +kernel⟩

/-- Two calls that both find the job pending. The task of the first one is running when the second
one goes on. -/
def overlapping : List Step :=
  [.look, .look, .arm first, .attend 0 first .wakes, .write 0, .arm first]

/-- A job goes back from running to scheduled, and a second task is spawned for it. -/
theorem overlapping_calls_set_back :
    (make obliging fromNow).states overlapping
        = [.pending, .pending, .pending, .scheduled, .scheduled, .running, .scheduled]
      ∧ ¬ ((make obliging fromNow).states overlapping).Pairwise JobState.Precedes
      ∧ ((make obliging fromNow).run overlapping).errands.length = 2 := by
  have hstates : (make obliging fromNow).states overlapping
      = [.pending, .pending, .pending, .scheduled, .scheduled, .running, .scheduled] := by
    decide +kernel
  refine ⟨hstates, ?_, by decide +kernel⟩
  rw [hstates]
  intro hforward
  have hback : JobState.running.Precedes .scheduled := by
    simp only [List.pairwise_cons] at hforward
    exact hforward.2.2.2.2.2.1 _ List.mem_cons_self
  exact absurd hback.1 (by decide)

end Shared

end Measurement.Job
