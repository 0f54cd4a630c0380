/-
What a job reports is its own.

Whatever a service returns, the results that a job stores bear the token of the
job and a definite scope, and the exception of a failed job bears the token and
reads otherwise than the answer about a token without a job. A job is noted as
collected only when it is at its end. All this is said of single writes, and
every action of a job makes such writes only.

The second half is about the end of a job, from which on nothing changes but
what is noted about callers.
-/
import Measurement.Scheduler
import Measurement.Proofs.Job.Actions
import Measurement.Proofs.Statement.Settled

set_option autoImplicit false

namespace Measurement

/-! ## 1. Texts of failures -/

/-- Whether no text that begins so is the answer about a token without a job. -/
def TellsApart (s : String) : Prop := ∀ rest : String, s ++ rest ≠ Scheduler.unknownJobText

theorem tellsApart_of_opening {s : String} (h : ¬ s.toList <+: Scheduler.unknownJobText.toList) :
    TellsApart s := by
  intro rest he
  refine h ⟨rest.toList, ?_⟩
  rw [← String.toList_append, he]

theorem TellsApart.append {s : String} (h : TellsApart s) (t : String) : TellsApart (s ++ t) := by
  intro rest
  rw [String.append_assoc]
  exact h (t ++ rest)

theorem TellsApart.ne {s : String} (h : TellsApart s) : s ≠ Scheduler.unknownJobText := by
  have he := h ""
  rwa [String.append_empty] at he

theorem StatementFault.tellsApart_message (e : StatementFault) : TellsApart e.message := by
  cases e with
  | constraintViolation name value constraint =>
    have h : TellsApart "value " := tellsApart_of_opening (by decide)
    exact ((((h.append _).append _).append _).append _).append _
  | primitiveMismatch name value primitive =>
    have h : TellsApart "value " := tellsApart_of_opening (by decide)
    exact ((((h.append _).append _).append _).append _).append _
  | unknownParameter name =>
    have h : TellsApart "no parameter named " := tellsApart_of_opening (by decide)
    exact h.append _
  | rowOutOfRange name row limit =>
    have h : TellsApart "row " := tellsApart_of_opening (by decide)
    exact (((((h.append _).append _).append _).append _).append _).append _
  | unknownColumn name =>
    have h : TellsApart "no result column named " := tellsApart_of_opening (by decide)
    exact h.append _
  | capabilityValue name =>
    have h : TellsApart "capability parameter " := tellsApart_of_opening (by decide)
    exact (h.append _).append _
  | capabilityRows => exact tellsApart_of_opening (by decide)
  | missingValue name =>
    have h : TellsApart "parameter " := tellsApart_of_opening (by decide)
    exact (h.append _).append _
  | indefiniteScope scope =>
    have h : TellsApart "result temporal scope " := tellsApart_of_opening (by decide)
    exact (h.append _).append _

theorem ServiceFault.message_ne_unknownJobText (e : ServiceFault) :
    e.message ≠ Scheduler.unknownJobText := by
  refine TellsApart.ne ?_
  cases e with
  | mismatch name => exact (tellsApart_of_opening (by decide)).append _
  | invalid fault => exact fault.tellsApart_message
  | failed message => exact (tellsApart_of_opening (by decide)).append _
  | panicked message => exact (tellsApart_of_opening (by decide)).append _

theorem expiredText_ne_unknownJobText : Job.expiredText ≠ Scheduler.unknownJobText := by decide

/-! ## 2. Owned progress -/

/-- Whether a result is one that a job with the token reports. -/
def Result.Stamped (token : String) (r : Result) : Prop :=
  r.token = token ∧ r.statement.scope.isDefinite = true

/-- Whether an exception is one that a job with the token fails with. -/
def Exception.Reports (token : String) (e : Exception) : Prop :=
  e.token = some token ∧ e.message ≠ Scheduler.unknownJobText

namespace Progress

/-- A progress that a job with the token can have. -/
structure Owned (token : String) (p : Progress) : Prop where
  results : ∀ r ∈ p.results, r.Stamped token
  failure : ∀ e, p.state = .failed e → e.Reports token
  collected : p.collected = true → p.isFinished = true

/-- What a job with the token writes. Only a failure sets the state of a failed job. -/
def Write.Owned (token : String) : Write → Prop
  | .transition state => state.isFailed = false
  | .push r | .complete r => r.Stamped token
  | .fail t message => Exception.Reports token ⟨some t, message⟩

variable {token : String} {p : Progress}

theorem owned_initial (token : String) : Owned token initial :=
  ⟨fun _ h => absurd h List.not_mem_nil, fun _ h => JobState.noConfusion h,
    fun h => Bool.noConfusion h⟩

theorem collected_write (p : Progress) (w : Write) : (p.write w).collected = p.collected := by
  cases hf : p.isFinished
  · cases w <;> simp [write, transition, push, complete, fail, hf]
  · rw [write_of_isFinished hf]

theorem collected_written (p : Progress) (ws : List Write) :
    (Job.written p ws).collected = p.collected := by
  induction ws generalizing p with
  | nil => rfl
  | cons w ws ih => exact (ih (p.write w)).trans (collected_write p w)

theorem owned_write (h : Owned token p) {w : Write} (hw : w.Owned token) :
    Owned token (p.write w) := by
  by_cases hf : p.isFinished = true
  · rw [write_of_isFinished hf]
    exact h
  · -- No write notes a collection, so none was noted before the end.
    have hcollected : (p.write w).collected = true → (p.write w).isFinished = true := by
      intro hc
      rw [collected_write] at hc
      exact absurd (h.collected hc) hf
    rw [Bool.not_eq_true] at hf
    have hadded : ∀ {r : Result}, r.Stamped token → ∀ q ∈ p.results ++ [r], q.Stamped token := by
      intro r hr q hq
      rw [List.mem_append, List.mem_singleton] at hq
      rcases hq with hq | rfl
      · exact h.results q hq
      · exact hr
    cases w with
    | transition state =>
      have he : p.write (.transition state) = { p with state := state } := by
        simp [write, transition, hf]
      rw [he] at hcollected ⊢
      refine ⟨h.results, ?_, hcollected⟩
      rintro e rfl
      exact Bool.noConfusion hw
    | push r =>
      have he : p.write (.push r) = { p with results := p.results ++ [r] } := by
        simp [write, push, hf]
      rw [he] at hcollected ⊢
      exact ⟨hadded hw, h.failure, hcollected⟩
    | complete r =>
      have he : p.write (.complete r)
          = { p with results := p.results ++ [r], state := .completed } := by
        simp [write, complete, hf]
      rw [he]
      exact ⟨hadded hw, fun e h => JobState.noConfusion h, fun _ => rfl⟩
    | fail t message =>
      have he : p.write (.fail t message) = { p with state := .failed ⟨some t, message⟩ } := by
        simp [write, fail, hf]
      rw [he]
      refine ⟨h.results, ?_, fun _ => rfl⟩
      rintro e he
      rw [← JobState.failed.inj he]
      exact hw

theorem owned_written (h : Owned token p) {ws : List Write} (hws : ∀ w ∈ ws, w.Owned token) :
    Owned token (Job.written p ws) := by
  induction ws generalizing p with
  | nil => exact h
  | cons w ws ih =>
    exact ih (owned_write h (hws w List.mem_cons_self))
      fun v hv => hws v (List.mem_cons_of_mem _ hv)

theorem owned_poll (h : Owned token p) : Owned token p.poll := by
  refine ⟨h.results, h.failure, ?_⟩
  intro hc
  rw [poll, Bool.or_eq_true] at hc
  rcases hc with hc | hc
  · exact h.collected hc
  · exact hc

end Progress

/-! ## 3. A job writes what is its own -/

namespace Job

open Progress (Write)

/-- The progress of a job is one that a job with its token can have. -/
def Owned (j : Job) : Prop := j.progress.Owned j.token

theorem owned_make (v : Service) (s : Specification) : (make v s).Owned :=
  Progress.owned_initial _

/-- The receipt of a job bears its token. -/
theorem token_receipt (j : Job) : j.receipt.token = j.token := Statement.token_of_given rfl

/-- A definite scope of a service stays; otherwise the scope is that of the run, between two
instants. -/
theorem stamped_stamp (j : Job) (started : Instant) (now : Reading) (r : Result) :
    (j.stamp started now r).Stamped j.token := by
  unfold stamp
  dsimp only
  split
  · rename_i hdefinite
    exact ⟨Statement.token_of_given rfl, hdefinite⟩
  · exact ⟨Statement.token_of_given rfl, rfl⟩

theorem TaskWrites.owned {j : Job} {w : Write} (h : j.TaskWrites w) : w.Owned j.token := by
  cases h with
  | begins => exact rfl
  | ends => exact rfl
  | adds series started now r => exact stamped_stamp j started now r
  | completes started now r => exact stamped_stamp j started now r
  | fails e => exact ⟨rfl, e.message_ne_unknownJobText⟩

theorem owned_scheduleWrites (j : Job) (now : Reading) :
    ∀ w ∈ j.scheduleWrites now, w.Owned j.token := by
  intro w hw
  rcases scheduleWrites_cases hw with rfl | rfl
  · exact rfl
  · exact ⟨rfl, expiredText_ne_unknownJobText⟩

theorem token_act (j : Job) (now : Reading) (a : Action) : (j.act now a).token = j.token := by
  rw [token, token, (sameOrder_act j now a).2]

theorem owned_act {j : Job} (h : j.Owned) (now : Reading) (a : Action) : (j.act now a).Owned := by
  rw [Owned, token_act]
  cases a with
  | schedule =>
    rw [act, progress_schedule]
    exact Progress.owned_written h (owned_scheduleWrites j now)
  | event e =>
    rw [act, progress_handle]
    apply Progress.owned_written h
    intro w hw
    exact (taskWrites_event j now e w hw).owned
  | poll => exact Progress.owned_poll h
  | stray w =>
    rw [act]
    split
    · -- What comes late may be anything, and for that reason does nothing.
      rename_i hf
      dsimp only
      rw [Progress.write_of_isFinished hf]
      exact h
    · exact h

theorem owned_run {j : Job} (h : j.Owned) (acts : List (Reading × Action)) :
    (j.run acts).Owned := by
  have hact : ∀ i now a, Owned i → (act i now a).Owned := by
    intro i now a h
    exact owned_act h now a
  exact run_invariant hact h acts

/-! ## 4. The end of a job -/

theorem results_act (j : Job) (now : Reading) (a : Action) :
    j.progress.results <+: (j.act now a).progress.results := by
  rw [progress_act]
  exact Progress.results_after _ _

/-- After the end of a job only what is noted about callers changes. -/
theorem act_of_isFinished {j : Job} (h : j.isFinished = true) (now : Reading) (a : Action) :
    (j.act now a).isFinished = true ∧ (j.act now a).reply = j.reply := by
  obtain ⟨hstate, hresults⟩ := Progress.after_of_isFinished h (j.moments now a)
  rw [← progress_act] at hstate hresults
  have hspec := (sameOrder_act j now a).2
  constructor
  · rw [isFinished, Progress.isFinished, hstate]
    exact h
  · rw [reply, reply, receipt, receipt, hspec, Progress.reply, Progress.reply, hstate, hresults]

theorem run_of_isFinished {j : Job} (h : j.isFinished = true) (acts : List (Reading × Action)) :
    (j.run acts).isFinished = true ∧ (j.run acts).reply = j.reply := by
  have hact : ∀ i now a, isFinished i = true ∧ i.reply = j.reply →
      (act i now a).isFinished = true ∧ (act i now a).reply = j.reply := by
    rintro i now a ⟨hi, hreply⟩
    obtain ⟨hfinished, hsame⟩ := act_of_isFinished hi now a
    exact ⟨hfinished, hsame.trans hreply⟩
  exact run_invariant hact ⟨h, rfl⟩ acts

theorem results_run (j : Job) (acts : List (Reading × Action)) :
    j.progress.results <+: (j.run acts).progress.results := by
  have hact : ∀ i now a, j.progress.results <+: i.progress.results →
      j.progress.results <+: (act i now a).progress.results := by
    intro i now a h
    exact h.trans (results_act i now a)
  exact run_invariant hact List.prefix_rfl acts

theorem moments_of_ne_poll (j : Job) (now : Reading) {a : Action} (h : a ≠ .poll) :
    ∃ ws : List Write, j.moments now a = ws.map .write := by
  unfold moments
  split
  · exact ⟨_, rfl⟩
  · exact ⟨_, rfl⟩
  · exact absurd rfl h
  · rename_i w
    split
    · exact ⟨[w], rfl⟩
    · exact ⟨[], rfl⟩

theorem collected_act (j : Job) (now : Reading) {a : Action} (h : a ≠ .poll) :
    (j.act now a).progress.collected = j.progress.collected := by
  obtain ⟨ws, hws⟩ := moments_of_ne_poll j now h
  rw [progress_act, hws, after_map_write, Progress.collected_written]

/-- Only a poll notes that the outcome of a job was collected. -/
theorem collected_run {j : Job} {now : Reading} {acts : List Action}
    (h : (j.run (acts.map (now, ·))).progress.collected = true) :
    j.progress.collected = true ∨ .poll ∈ acts := by
  induction acts generalizing j with
  | nil => exact .inl h
  | cons a acts ih =>
    by_cases ha : a = .poll
    · exact .inr (ha ▸ List.mem_cons_self)
    · rcases ih (j := j.act now a) h with hc | hmem
      · rw [collected_act j now ha] at hc
        exact .inl hc
      · exact .inr (List.mem_cons_of_mem _ hmem)

end Job

end Measurement
