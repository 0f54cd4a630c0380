/-
What a job answers.

The reply of a job (`Job::get_reply`) falls back to the receipt where it finds no
result, also at the end of the job. That it does not have to is a fact about what
is written: a job that is no series gets one result, and gets it together with its
end (`Single`). So the reply tells how far the job has come. It is the receipt, or
from a series the results so far, before the end; and at the end it is the
exception, the one result, or all results (`Answers`, `Job.answers_reply`).
-/
import Measurement.Proofs.Job.Ownership

set_option autoImplicit false

namespace Measurement

namespace Progress

/-! ## 1. One result -/

/-- Whether a progress has one result if it is completed, and none if it is not. -/
def Single (p : Progress) : Prop :=
  (p.state = .completed ∧ ∃ r, p.results = [r]) ∨ (p.state ≠ .completed ∧ p.results = [])

/-- Whether a write is none of a series: it adds a result only where it ends the job. -/
def Write.IsPlain : Write → Prop
  | .transition state => state ≠ .completed
  | .push _ => False
  | .complete _ | .fail _ _ => True

theorem single_initial : Single initial := Or.inr ⟨by decide, rfl⟩

theorem single_write {p : Progress} (h : Single p) {w : Write} (hw : w.IsPlain) :
    Single (p.write w) := by
  by_cases hf : p.isFinished = true
  · rw [write_of_isFinished hf]
    exact h
  · rw [Bool.not_eq_true] at hf
    -- Before the end there is no result.
    have hnone : p.results = [] := by
      obtain ⟨hstate, -⟩ | ⟨-, hnone⟩ := h
      · rw [isFinished, hstate] at hf
        cases hf
      · exact hnone
    cases w with
    | transition state =>
      apply Or.inr
      simp only [write, transition, hf, Bool.false_eq_true, if_false]
      exact ⟨hw, hnone⟩
    | push r => exact absurd hw id
    | complete r =>
      apply Or.inl
      simp [write, complete, hf, hnone]
    | fail token message =>
      apply Or.inr
      simp [write, fail, hf, hnone]

theorem single_written {p : Progress} (h : Single p) {ws : List Write}
    (hws : ∀ w ∈ ws, w.IsPlain) : Single (Job.written p ws) := by
  induction ws generalizing p with
  | nil => exact h
  | cons w ws ih =>
    apply ih (single_write h (hws w List.mem_cons_self))
    intro v hv
    exact hws v (List.mem_cons_of_mem w hv)

end Progress

namespace Job

open Progress (Write Single)

/-! ## 2. What a job writes that is no series -/

theorem TaskWrites.isPlain {j : Job} (hplain : Task.isSeries j.task = false) {w : Write}
    (h : j.TaskWrites w) : w.IsPlain := by
  cases h with
  | begins => exact JobState.noConfusion
  | ends series => exact absurd (series.symm.trans hplain) (by decide)
  | adds series => exact absurd (series.symm.trans hplain) (by decide)
  | completes | fails => trivial

theorem isPlain_scheduleWrites (j : Job) (now : Reading) :
    ∀ w ∈ j.scheduleWrites now, w.IsPlain := by
  intro w hw
  rcases scheduleWrites_cases hw with rfl | rfl
  · exact JobState.noConfusion
  · trivial

theorem single_act {j : Job} (hj : j.Sound) (hplain : j.specification.scope.isRepeated = false)
    (h : j.progress.Single) (now : Reading) (a : Action) : (j.act now a).progress.Single := by
  have htask : Task.isSeries j.task = false := by
    cases hseries : Task.isSeries j.task with
    | false => rfl
    | true => exact absurd ((hj hseries).symm.trans hplain) (by decide)
  cases a with
  | schedule =>
    rw [act, progress_schedule]
    exact Progress.single_written h (isPlain_scheduleWrites j now)
  | event e =>
    rw [act, progress_handle]
    apply Progress.single_written h
    intro w hw
    exact (taskWrites_event j now e w hw).isPlain htask
  | poll => exact h
  | stray w =>
    unfold act
    dsimp only
    split
    · rename_i hf
      rw [Progress.write_of_isFinished hf]
      exact h
    · exact h

/-- Whatever is done to a job that is no series, it has a result exactly if it is completed. -/
theorem single_run (v : Service) (s : Specification) (h : s.scope.isRepeated = false)
    (acts : List (Reading × Action)) : ((make v s).run acts).progress.Single := by
  have hact : ∀ (i : Job) now a, i.Sound ∧ i.specification = s ∧ i.progress.Single →
      (act i now a).Sound ∧ (act i now a).specification = s ∧ (act i now a).progress.Single := by
    rintro i now a ⟨hi, hs, hsingle⟩
    refine ⟨sound_act hi now a, (sameOrder_act i now a).2.trans hs, ?_⟩
    apply single_act hi _ hsingle
    rw [hs]
    exact h
  exact (run_invariant hact ⟨sound_make v s, rfl, Progress.single_initial⟩ acts).2.2

/-! ## 3. Replies -/

/-- The reply of a job says how far it has come. Before the end it is the receipt, or from a series
that has results these; at the end it is the exception with which the job failed, its result, or
from a series all its results. All of it is the job's own. -/
inductive Answers (j : Job) : Message → Prop where
  | receipt (waits : j.isFinished = false)
    (nothing : j.specification.scope.isRepeated = true → j.progress.results = [])
    (own : j.receipt.token = j.token) : Answers j (.receipt j.receipt)
  | partly (waits : j.isFinished = false) (series : j.specification.scope.isRepeated = true)
    (some : j.progress.results ≠ []) (own : ∀ r ∈ j.progress.results, r.Stamped j.token) :
    Answers j (Progress.enveloped j.progress.results)
  | failed (e : Exception) (ends : j.progress.state = .failed e) (own : e.Reports j.token) :
    Answers j (.exception e)
  | completed (r : Result) (ends : j.progress.state = .completed)
    (plain : j.specification.scope.isRepeated = false) (only : j.progress.results = [r])
    (own : r.Stamped j.token) : Answers j (.result r)
  | series (ends : j.progress.state = .completed)
    (series : j.specification.scope.isRepeated = true)
    (own : ∀ r ∈ j.progress.results, r.Stamped j.token) :
    Answers j (Progress.enveloped j.progress.results)

theorem answers_reply {j : Job} (h : j.Owned)
    (hsingle : j.specification.scope.isRepeated = false → j.progress.Single) :
    j.Answers j.reply := by
  cases hf : j.isFinished with
  | false =>
    cases hrepeated : j.specification.scope.isRepeated with
    | false =>
      have hreply : j.reply = .receipt j.receipt := by
        unfold reply
        rw [hrepeated]
        exact Progress.reply_of_waiting _ hf (Or.inl rfl)
      rw [hreply]
      apply Answers.receipt hf _ j.token_receipt
      intro hseries
      rw [hrepeated] at hseries
      cases hseries
    | true =>
      by_cases hnone : j.progress.results = []
      · have hreply : j.reply = .receipt j.receipt := Progress.reply_of_waiting _ hf (Or.inr hnone)
        rw [hreply]
        exact .receipt hf (fun _ => hnone) j.token_receipt
      · have hreply : j.reply = Progress.enveloped j.progress.results := by
          unfold reply
          rw [hrepeated]
          exact Progress.reply_of_series _ hf hnone
        rw [hreply]
        exact .partly hf hrepeated hnone h.results
  | true =>
    unfold isFinished Progress.isFinished at hf
    cases hstate : j.progress.state with
    | pending | scheduled | running =>
      rw [hstate] at hf
      cases hf
    | failed e =>
      have hreply : j.reply = .exception e := by
        unfold reply Progress.reply
        rw [hstate]
      rw [hreply]
      exact .failed e hstate (h.failure e hstate)
    | completed =>
      cases hrepeated : j.specification.scope.isRepeated with
      | true =>
        have hreply : j.reply = Progress.enveloped j.progress.results := by
          unfold reply Progress.reply
          rw [hstate, hrepeated]
          rfl
        rw [hreply]
        exact .series hstate hrepeated h.results
      | false =>
        -- The receipt would be the reply if a job could be completed without a result.
        obtain ⟨-, r, hresults⟩ | ⟨hnot, -⟩ := hsingle hrepeated
        · have hreply : j.reply = .result r := by
            unfold reply Progress.reply
            rw [hstate, hrepeated, hresults]
            rfl
          rw [hreply]
          apply Answers.completed r hstate hrepeated hresults
          apply h.results r
          rw [hresults]
          exact List.mem_cons_self
        · exact absurd hstate hnot

end Job

end Measurement
