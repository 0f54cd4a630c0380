/-
A job that many have hold of.

The progress of a job stands behind a lock, which is held for one look or one
write at a time. So what is done to a job is not one action after the other. A
call of `Job::schedule` looks whether the job is pending in one critical section
and writes in another; the tasks that such calls spawn (`run_single`,
`run_series`) get on side by side and make their writes one by one (`transition`,
`push_result`, `complete`, `fail`); and callers ask for replies whenever they like
(`get_reply`). Here each of these is a step of its own, and a row of steps is any
interleaving of any number of calls, tasks and callers.

The steps are made of what is done to a job at once: of `Job.arm`, of `Job.handle`
and of the writes that are read off it. So a job to which one action is done after
the other is one for which nobody comes in between (`exists_steps_of_run`).
-/
import Mathlib.Data.List.Induction
import Measurement.Proofs.Job.Actions

set_option autoImplicit false

namespace Measurement.Job

/-- A task that a call of `schedule` spawned: what it is about to do, and the writes to the progress
that it makes before that. -/
structure Errand where
  task : Task
  owed : List Progress.Write

/-- Whether an errand attends to an event now. What it does itself it does one after the other, and
interrupts come at any time. -/
def Errand.attends (e : Errand) : Event → Bool
  | .wakes | .returns _ => e.owed.isEmpty
  | .interrupt | .scopeEnds | .turnEnds => true

/-- A job that many have hold of at once. -/
structure Shared where
  /-- What they share of the job. It has no task of its own. -/
  job : Job
  /-- The number of calls that found the job pending and have yet to arm its timers. -/
  calls : Nat
  /-- The tasks that were spawned, the oldest first. -/
  errands : List Errand

namespace Shared

/-- A new job. -/
def make (v : Service) (s : Specification) : Shared := ⟨Job.make v s, 0, []⟩

/-- The job as an errand has it. -/
def jobOf (x : Shared) (e : Errand) : Job := { x.job with task := e.task }

/-! ## 1. Steps -/

/-- What is done to a job in one go. -/
inductive Step where
  /-- A call of `schedule` looks whether the job is pending. -/
  | look
  /-- A call that found the job pending arms its timers and spawns a task. -/
  | arm (now : Reading)
  /-- An errand attends to an event. -/
  | attend (i : Nat) (now : Reading) (e : Event)
  /-- An errand makes the next of its writes. -/
  | write (i : Nat)
  /-- A timer or a caller raises the interrupt. -/
  | interrupt
  /-- A write that comes when the job is at its end. -/
  | stray (w : Progress.Write)
  /-- A caller asks for a reply. -/
  | poll

/-- The job after an errand attended to an event. What it writes comes later. -/
def attended (x : Shared) (i : Nat) (e : Errand) (now : Reading) (event : Event) : Shared :=
  let j := (x.jobOf e).handle now event
  { x with
    job := { j with progress := x.job.progress, task := x.job.task }
    errands := x.errands.set i ⟨j.task, e.owed ++ (x.jobOf e).eventWrites now event⟩ }

/-- The job after its progress was written to. -/
def wrote (x : Shared) (w : Progress.Write) : Shared :=
  { x with job := { x.job with progress := x.job.progress.write w } }

/-- The job after a step. -/
def step (x : Shared) : Step → Shared
  | .look => if x.job.progress.state = .pending then { x with calls := x.calls + 1 } else x
  | .arm now =>
    match x.calls with
    | 0 => x
    | n + 1 =>
      let j := x.job.arm now
      ⟨{ j with task := x.job.task }, n, x.errands ++ [⟨j.task, []⟩]⟩
  | .attend i now event =>
    match x.errands[i]? with
    | some e => if e.attends event then x.attended i e now event else x
    | none => x
  | .write i =>
    match x.errands[i]? with
    | some ⟨task, w :: owed⟩ => { x.wrote w with errands := x.errands.set i ⟨task, owed⟩ }
    | _ => x
  | .interrupt => { x with job := { x.job with interrupted := true } }
  | .stray w => if x.job.isFinished then x.wrote w else x
  | .poll => { x with job := x.job.poll }

/-- The job after steps. -/
def run (x : Shared) (steps : List Step) : Shared := steps.foldl step x

theorem run_cons (x : Shared) (st : Step) (steps : List Step) :
    x.run (st :: steps) = (x.step st).run steps := rfl

theorem run_append (x : Shared) (steps more : List Step) :
    x.run (steps ++ more) = (x.run steps).run more := List.foldl_append

/-- What a step can do. -/
inductive Happens (x : Shared) : Step → Shared → Prop where
  | nothing (st : Step) (silent : st ≠ .poll) : Happens x st x
  | looked (pending : x.job.progress.state = .pending) :
    Happens x .look { x with calls := x.calls + 1 }
  | armed (now : Reading) (n : Nat) (called : x.calls = n + 1) :
    Happens x (.arm now) ⟨{ x.job.arm now with task := x.job.task }, n,
      x.errands ++ [⟨(x.job.arm now).task, []⟩]⟩
  | attended (i : Nat) (now : Reading) (event : Event) (e : Errand)
    (here : x.errands[i]? = some e) (attends : e.attends event = true) :
    Happens x (.attend i now event) (x.attended i e now event)
  | wrote (i : Nat) (task : Task) (w : Progress.Write) (owed : List Progress.Write)
    (here : x.errands[i]? = some ⟨task, w :: owed⟩) :
    Happens x (.write i) { x.wrote w with errands := x.errands.set i ⟨task, owed⟩ }
  | interrupted : Happens x .interrupt { x with job := { x.job with interrupted := true } }
  | polled : Happens x .poll { x with job := x.job.poll }

/-- A stray write is none: it comes when nothing is written any more. -/
theorem wrote_of_isFinished {x : Shared} (h : x.job.isFinished = true) (w : Progress.Write) :
    x.wrote w = x := by
  unfold wrote
  rw [Progress.write_of_isFinished h]

theorem happens_step (x : Shared) (st : Step) : Happens x st (x.step st) := by
  cases st with
  | look =>
    rw [step]
    split
    · rename_i hpending
      exact .looked hpending
    · exact .nothing _ Step.noConfusion
  | arm now =>
    rw [step]
    split
    · exact .nothing _ Step.noConfusion
    · rename_i n hcalls
      exact .armed now n hcalls
  | attend i now event =>
    rw [step]
    split
    · rename_i e he
      split
      · rename_i hattends
        exact .attended i now event e he hattends
      · exact .nothing _ Step.noConfusion
    · exact .nothing _ Step.noConfusion
  | write i =>
    rw [step]
    split
    · rename_i task w owed he
      exact .wrote i task w owed he
    · exact .nothing _ Step.noConfusion
  | interrupt => exact .interrupted
  | stray w =>
    rw [step]
    split
    · rename_i hfinished
      rw [wrote_of_isFinished hfinished]
      exact .nothing _ Step.noConfusion
    · exact .nothing _ Step.noConfusion
  | poll => exact .polled

/-- No step changes what the job is for. -/
theorem sameOrder_step (x : Shared) (st : Step) : (x.step st).job.SameOrder x.job := by
  have h := happens_step x st
  generalize x.step st = y at h
  cases h with
  | armed now n called => exact sameOrder_arm x.job now
  | attended i now event e here attends => exact sameOrder_handle (x.jobOf e) now event
  | nothing | looked | wrote | interrupted | polled => exact ⟨rfl, rfl⟩

end Shared

/-! ## 2. What tasks write -/

/-- Whether a write is one of a task: it begins a run, adds a result, ends a series or ends the job
with a result or an exception. -/
def OfTask (repeated : Bool) : Progress.Write → Prop
  | .transition state => state = .running ∨ (state = .completed ∧ repeated = true)
  | .push _ | .complete _ | .fail _ _ => True

theorem TaskWrites.ofTask {j : Job} (hj : j.Sound) {w : Progress.Write} (h : j.TaskWrites w) :
    OfTask j.specification.scope.isRepeated w := by
  cases h with
  | begins => exact Or.inl rfl
  | ends series => exact Or.inr ⟨rfl, hj series⟩
  | adds | completes | fails => trivial

theorem ofTask_eventWrites {j : Job} (hj : j.Sound) (now : Reading) (e : Event) :
    ∀ w ∈ j.eventWrites now e, OfTask j.specification.scope.isRepeated w := by
  intro w hw
  exact (taskWrites_event j now e w hw).ofTask hj

/-- No write makes a job pending again. -/
theorem write_ne_pending {p : Progress} (h : p.state ≠ .pending) {w : Progress.Write}
    (hw : w ≠ .transition .pending) : (p.write w).state ≠ .pending := by
  by_cases hf : p.isFinished = true
  · rw [Progress.write_of_isFinished hf]
    exact h
  · rw [Bool.not_eq_true] at hf
    cases w with
    | transition state =>
      simp only [Progress.write, Progress.transition, hf]
      intro hstate
      apply hw
      rw [← hstate]
      rfl
    | push r =>
      simp only [Progress.write, Progress.push, hf]
      exact h
    | complete r => simp [Progress.write, Progress.complete, hf]
    | fail token message => simp [Progress.write, Progress.fail, hf]

theorem written_ne_pending {p : Progress} (h : p.state ≠ .pending) {ws : List Progress.Write}
    (hws : ∀ w ∈ ws, w ≠ .transition .pending) : (written p ws).state ≠ .pending := by
  induction ws generalizing p with
  | nil => exact h
  | cons w ws ih =>
    apply ih (write_ne_pending h (hws w List.mem_cons_self))
    intro v hv
    exact hws v (List.mem_cons_of_mem w hv)

theorem OfTask.ne_pending {repeated : Bool} {w : Progress.Write} (h : OfTask repeated w) :
    w ≠ .transition .pending := by
  rintro rfl
  rcases h with h | ⟨h, -⟩
  · cases h
  · cases h

/-- A job whose timers were armed is pending no more. -/
theorem arm_ne_pending (j : Job) (now : Reading) : (j.arm now).progress.state ≠ .pending := by
  rw [progress_arm]
  by_cases hpending : j.progress.state = .pending
  · have hf : j.progress.isFinished = false := by
      rw [Progress.isFinished, hpending]
      rfl
    rcases armWrites_cases j now with hw | hw
    · rw [hw]
      simp [written, Progress.write, Progress.transition, hf]
    · rw [hw]
      simp [written, Progress.write, Progress.fail, hf]
  · rcases armWrites_cases j now with hw | hw
    · have hscheduled : Progress.Write.transition .scheduled ≠ .transition .pending := by decide
      rw [hw]
      exact write_ne_pending hpending hscheduled
    · have hfails : Progress.Write.fail j.token expiredText ≠ .transition .pending :=
        Progress.Write.noConfusion
      rw [hw]
      exact write_ne_pending hpending hfails

/-! ## 3. What every step preserves -/

/-- What holds of every errand: a task that goes through occurrences is that of a series, and what
is left to write are writes of a task. -/
structure Errand.Fits (repeated : Bool) (e : Errand) : Prop where
  series : Task.isSeries e.task = true → repeated = true
  owed : ∀ w ∈ e.owed, OfTask repeated w

namespace Shared

/-- What holds of a job that many have hold of, whatever is done to it. No task is there before a
call has armed the timers. -/
structure Fits (x : Shared) : Prop where
  errands : ∀ e ∈ x.errands, e.Fits x.job.specification.scope.isRepeated
  unarmed : x.job.progress.state = .pending → x.errands = []

theorem fits_make (v : Service) (s : Specification) : (make v s).Fits :=
  ⟨List.forall_mem_nil _, fun _ => rfl⟩

theorem fits_step {x : Shared} (h : x.Fits) (st : Step) : (x.step st).Fits := by
  have hhappens := happens_step x st
  generalize x.step st = y at hhappens
  cases hhappens with
  | nothing | looked | interrupted | polled => exact ⟨h.errands, h.unarmed⟩
  | armed now n called =>
    have hspec : (x.job.arm now).specification = x.job.specification :=
      (sameOrder_arm x.job now).2
    refine ⟨?_, fun hpending => absurd hpending (arm_ne_pending x.job now)⟩
    intro e he
    rw [hspec]
    rcases List.mem_append.1 he with he | he
    · exact h.errands e he
    · rw [List.mem_singleton] at he
      subst he
      refine ⟨?_, List.forall_mem_nil _⟩
      intro hseries
      rw [← hspec]
      exact sound_arm x.job now hseries
  | attended i now event e here attends =>
    have hspec : ((x.jobOf e).handle now event).specification = x.job.specification :=
      (sameOrder_handle (x.jobOf e) now event).2
    have hfits := h.errands e (List.mem_of_getElem? here)
    have hsound : (x.jobOf e).Sound := hfits.series
    refine ⟨?_, ?_⟩
    · intro f hf
      change f.Fits ((x.jobOf e).handle now event).specification.scope.isRepeated
      rw [hspec]
      rcases List.mem_or_eq_of_mem_set hf with hf | rfl
      · exact h.errands f hf
      · refine ⟨?_, ?_⟩
        · intro hseries
          rw [← hspec]
          exact sound_handle hsound now event hseries
        · intro w hw
          rcases List.mem_append.1 hw with hw | hw
          · exact hfits.owed w hw
          · exact ofTask_eventWrites hsound now event w hw
    · intro hpending
      rw [h.unarmed hpending] at here
      cases here
  | wrote i task w owed here =>
    have hfits := h.errands _ (List.mem_of_getElem? here)
    refine ⟨?_, ?_⟩
    · intro f hf
      rcases List.mem_or_eq_of_mem_set hf with hf | rfl
      · exact h.errands f hf
      · exact ⟨hfits.series, fun w hw => hfits.owed w (List.mem_cons_of_mem _ hw)⟩
    · intro hpending
      -- An errand is there, so the job was not pending before.
      have harmed : x.job.progress.state ≠ .pending := by
        intro hbefore
        rw [h.unarmed hbefore] at here
        cases here
      have hw := (hfits.owed w List.mem_cons_self).ne_pending
      exact absurd hpending (write_ne_pending harmed hw)

theorem fits_run {x : Shared} (h : x.Fits) (steps : List Step) : (x.run steps).Fits := by
  induction steps generalizing x with
  | nil => exact h
  | cons st steps ih => exact ih (fits_step h st)

/-! ## 4. One action after the other -/

/-- Whether no two calls of `schedule` are between their two steps at once, in the course of some
steps. -/
def Alone (x : Shared) : List Step → Prop
  | [] => x.calls ≤ 1
  | st :: steps => x.calls ≤ 1 ∧ (x.step st).Alone steps

instance decidableAlone : (x : Shared) → (steps : List Step) → Decidable (x.Alone steps)
  | x, [] => inferInstanceAs (Decidable (x.calls ≤ 1))
  | x, st :: steps =>
    have := decidableAlone (x.step st) steps
    inferInstanceAs (Decidable (x.calls ≤ 1 ∧ (x.step st).Alone steps))

theorem alone_append {x : Shared} {steps more : List Step} (h : x.Alone steps)
    (hmore : (x.run steps).Alone more) : x.Alone (steps ++ more) := by
  induction steps generalizing x with
  | nil => exact hmore
  | cons st steps ih => exact ⟨h.1, ih h.2 hmore⟩

/-- Where no call looks, there is none that could go on. -/
theorem alone_of_no_look {x : Shared} (h : x.calls = 0) {steps : List Step}
    (hno : .look ∉ steps) : x.Alone steps ∧ (x.run steps).calls = 0 := by
  induction steps generalizing x with
  | nil => exact ⟨by rw [Alone, h]; decide, h⟩
  | cons st steps ih =>
    rw [List.mem_cons, not_or] at hno
    have hnext : (x.step st).calls = 0 := by
      have hhappens := happens_step x st
      generalize x.step st = y at hhappens
      cases hhappens with
      | nothing | attended | wrote | interrupted | polled => exact h
      | looked pending => exact absurd rfl hno.1
      | armed now n called =>
        rw [h] at called
        cases called
    obtain ⟨halone, hcalls⟩ := ih hnext hno.2
    exact ⟨⟨by rw [h]; decide, halone⟩, hcalls⟩

/-- Whether nobody is in the middle of anything, and the job stands as `j` does, which does one
thing after the other. -/
structure Is (x : Shared) (j : Job) : Prop where
  job : x.job = { j with task := .idle }
  calls : x.calls = 0
  errands : x.errands = if j.progress.state = .pending then [] else [⟨j.task, []⟩]
  fresh : j.progress.state = .pending → j.task = .idle ∧ j.ends = none

theorem is_make (v : Service) (s : Specification) : (make v s).Is (Job.make v s) :=
  ⟨rfl, rfl, rfl, fun _ => ⟨rfl, rfl⟩⟩

/-- An errand that nobody comes in between makes its writes one after the other. -/
theorem run_writes {x : Shared} {task : Task} {ws : List Progress.Write}
    (h : x.errands = [⟨task, ws⟩]) :
    x.run (List.replicate ws.length (.write 0))
      = ⟨{ x.job with progress := written x.job.progress ws }, x.calls, [⟨task, []⟩]⟩ := by
  induction ws generalizing x with
  | nil =>
    obtain ⟨job, calls, errands⟩ := x
    obtain rfl : errands = _ := h
    rfl
  | cons w ws ih =>
    have hstep : x.step (.write 0) = { x.wrote w with errands := [⟨task, ws⟩] } := by
      rw [step, h]
      rfl
    rw [List.length_cons, List.replicate_succ, run_cons, hstep, ih rfl]
    rfl

/-- An event of a job that is not pending: its task attends to it and makes its writes. -/
theorem exists_steps_of_handle {x : Shared} {j : Job} (h : x.Is j) (hj : j.Sound)
    (harmed : j.progress.state ≠ .pending) (now : Reading) (e : Event) :
    ∃ steps, x.Alone steps ∧ (x.run steps).Is (j.handle now e) := by
  let ws := j.eventWrites now e
  have herrands : x.errands = [⟨j.task, []⟩] := by
    rw [h.errands, if_neg harmed]
  have hjob : x.jobOf ⟨j.task, []⟩ = j := by
    rw [jobOf, h.job]
  have hattends : Errand.attends ⟨j.task, []⟩ e = true := by
    cases e <;> rfl
  have hstep : x.step (.attend 0 now e) = ⟨{ j.handle now e with
      progress := j.progress, task := .idle }, 0, [⟨(j.handle now e).task, ws⟩]⟩ := by
    rw [step, herrands]
    dsimp only [List.getElem?_cons_zero]
    rw [if_pos hattends, attended, hjob, herrands, h.job, h.calls]
    rfl
  have hafter : (j.handle now e).progress.state ≠ .pending := by
    have hwrites : ∀ w ∈ ws, w ≠ .transition .pending :=
      fun w hw => (ofTask_eventWrites hj now e w hw).ne_pending
    rw [progress_handle]
    exact written_ne_pending harmed hwrites
  refine ⟨.attend 0 now e :: List.replicate ws.length (.write 0), ?_, ?_⟩
  · apply (alone_of_no_look h.calls _).1
    intro hlook
    rcases List.mem_cons.1 hlook with hlook | hlook
    · cases hlook
    · cases List.eq_of_mem_replicate hlook
  · rw [run_cons, hstep, run_writes rfl]
    refine ⟨?_, rfl, ?_, fun hpending => absurd hpending hafter⟩
    · have hwritten : written j.progress ws = (j.handle now e).progress :=
        (progress_handle j now e).symm
      dsimp only
      rw [hwritten]
    · dsimp only
      rw [if_neg hafter]

/-- An event of a pending job. It has no task, so all that can come of it is an interrupt. -/
theorem exists_steps_of_pending {x : Shared} {j : Job} (h : x.Is j)
    (hpending : j.progress.state = .pending) (now : Reading) (e : Event) :
    ∃ steps, x.Alone steps ∧ (x.run steps).Is (j.handle now e) := by
  obtain ⟨htask, hends⟩ := h.fresh hpending
  have hnothing : j.handle now e = j ∨ j.handle now e = { j with interrupted := true } := by
    cases e with
    | interrupt => exact Or.inr rfl
    | scopeEnds =>
      have hf : j.isFinished = false := by
        rw [isFinished, Progress.isFinished, hpending]
        rfl
      apply Or.inr
      rw [handle, hf, ← hends]
      rfl
    | turnEnds =>
      apply Or.inl
      rw [handle, htask]
    | wakes =>
      apply Or.inl
      rw [handle, wake, htask]
    | returns outcome =>
      apply Or.inl
      unfold handle conclude
      rw [htask]
  rcases hnothing with hsame | hraised
  · rw [hsame]
    exact ⟨[], (alone_of_no_look h.calls List.not_mem_nil).1, h⟩
  · rw [hraised]
    refine ⟨[.interrupt], (alone_of_no_look h.calls ?_).1, ?_⟩
    · rw [List.mem_singleton]
      exact Step.noConfusion
    · refine ⟨?_, h.calls, h.errands, h.fresh⟩
      change ({ x.job with interrupted := true } : Job) = _
      rw [h.job]

theorem exists_steps_of_schedule {x : Shared} {j : Job} (h : x.Is j) (now : Reading) :
    ∃ steps, x.Alone steps ∧ (x.run steps).Is (j.schedule now) := by
  unfold schedule
  split
  · rename_i hpending
    have hjob : x.job = j := by
      rw [h.job, ← (h.fresh hpending).1]
    have herrands : x.errands = [] := by
      rw [h.errands, if_pos hpending]
    have hlook : x.step .look = ⟨j, 1, []⟩ := by
      rw [step, hjob, if_pos hpending, h.calls, herrands]
    have harm : (⟨j, 1, []⟩ : Shared).step (.arm now)
        = ⟨{ j.arm now with task := .idle }, 0, [⟨(j.arm now).task, []⟩]⟩ := by
      rw [step, (h.fresh hpending).1]
      rfl
    have hone : (⟨j, 1, []⟩ : Shared).calls ≤ 1 := Nat.le_refl 1
    refine ⟨[.look, .arm now], ⟨by rw [h.calls]; decide, ?_⟩, ?_⟩
    · rw [hlook]
      refine ⟨hone, ?_⟩
      rw [harm]
      exact Nat.zero_le 1
    · rw [run_cons, hlook, run_cons, harm]
      have hafter := arm_ne_pending j now
      refine ⟨rfl, rfl, ?_, fun hagain => absurd hagain hafter⟩
      change [_] = if (j.arm now).progress.state = .pending then _ else _
      rw [if_neg hafter]
  · exact ⟨[], (alone_of_no_look h.calls List.not_mem_nil).1, h⟩

theorem exists_steps_of_act {x : Shared} {j : Job} (h : x.Is j) (hj : j.Sound) (now : Reading)
    (a : Action) : ∃ steps, x.Alone steps ∧ (x.run steps).Is (j.act now a) := by
  cases a with
  | schedule => exact exists_steps_of_schedule h now
  | event e =>
    by_cases hpending : j.progress.state = .pending
    · exact exists_steps_of_pending h hpending now e
    · exact exists_steps_of_handle h hj hpending now e
  | poll =>
    refine ⟨[.poll], (alone_of_no_look h.calls ?_).1, ?_⟩
    · rw [List.mem_singleton]
      exact Step.noConfusion
    · refine ⟨?_, h.calls, h.errands, h.fresh⟩
      change x.job.poll = _
      rw [h.job]
      rfl
  | stray w =>
    -- At the end nothing is written any more, so the job is as it was.
    have hsame : j.act now (.stray w) = j := by
      rw [act]
      split
      · rename_i hf
        rw [Progress.write_of_isFinished hf]
      · rfl
    rw [hsame]
    exact ⟨[], (alone_of_no_look h.calls List.not_mem_nil).1, h⟩

/-- What is done to a job one action after the other is done to it by steps in which no two calls
of `schedule` overlap. -/
theorem exists_steps_of_run (v : Service) (s : Specification) (acts : List (Reading × Action)) :
    ∃ steps, (make v s).Alone steps ∧ ((make v s).run steps).Is ((Job.make v s).run acts) := by
  induction acts using List.reverseRecOn with
  | nil => exact ⟨[], Nat.zero_le 1, is_make v s⟩
  | append_singleton acts a ih =>
    obtain ⟨steps, halone, his⟩ := ih
    obtain ⟨more, hmore, hnext⟩ :=
      exists_steps_of_act his (sound_run (sound_make v s) acts) a.1 a.2
    refine ⟨steps ++ more, alone_append halone hmore, ?_⟩
    rw [run_append, Job.run_append]
    exact hnext

end Shared

end Measurement.Job
