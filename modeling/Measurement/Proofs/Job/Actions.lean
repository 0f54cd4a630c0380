/-
What is done to a job, and which writes to its progress that makes.

Callers schedule a job, raise its interrupt and ask for replies; its timers go
off and its runs return; and calls can come late, when the job is at its end.
Each of these is an action. The job that is left after an action is the job of
the state machine (`act`), and the writes that an action makes, one after the
other, are read off the same functions (`moments`); `progress_act` says that
the two agree, so what is proved of writes is proved of jobs. What the task of
a job can write at all is said once (`TaskWrites`), and each property of its
writes is a case analysis of that.

Nothing that is done to a job changes its service or its specification.
-/
import Measurement.Job.Basic
import Measurement.Proofs.Progress
import Measurement.Proofs.Time.Timers

set_option autoImplicit false

namespace Measurement

namespace Job

/-! ## 1. Actions -/

/-- What is done to a job. -/
inductive Action where
  /-- It is scheduled, for the first time or again. -/
  | schedule
  /-- Something happens to it. -/
  | event (e : Event)
  /-- A caller asks for a reply. -/
  | poll
  /-- A write that comes when the job is at its end; before that there is no such thing. -/
  | stray (w : Progress.Write)

/-- The job after an action. -/
def act (j : Job) (now : Reading) : Action → Job
  | .schedule => j.schedule now
  | .event e => j.handle now e
  | .poll => j.poll
  | .stray w => if j.isFinished then { j with progress := j.progress.write w } else j

/-- The job after actions, each with what the clocks show then. -/
def run (j : Job) (acts : List (Reading × Action)) : Job :=
  acts.foldl (fun j a => j.act a.1 a.2) j

theorem run_append (j : Job) (acts more : List (Reading × Action)) :
    j.run (acts ++ more) = (j.run acts).run more := List.foldl_append

/-- What every action preserves holds after any actions if it holds before them. -/
theorem run_invariant {invariant : Job → Prop}
    (hact : ∀ j now a, invariant j → invariant (j.act now a)) {j : Job} (hj : invariant j)
    (acts : List (Reading × Action)) : invariant (j.run acts) := by
  induction acts generalizing j with
  | nil => exact hj
  | cons a acts ih => exact ih (hact j a.1 a.2 hj)

/-! ## 2. What an action leaves alone -/

/-- Two jobs are of one order when they run the same specification against the same service. -/
def SameOrder (j k : Job) : Prop := j.service = k.service ∧ j.specification = k.specification

theorem SameOrder.trans {j k l : Job} (h : j.SameOrder k) (g : k.SameOrder l) : j.SameOrder l :=
  ⟨h.1.trans g.1, h.2.trans g.2⟩

theorem sameOrder_hand (j : Job) (s : Specification) (task : Task) :
    (j.hand s task).SameOrder j := by
  unfold hand
  split <;> exact ⟨rfl, rfl⟩

theorem sameOrder_proceed (j : Job) (c : Course) : (j.proceed c).SameOrder j := by
  unfold proceed
  split <;> exact ⟨rfl, rfl⟩

theorem sameOrder_openSeries (j : Job) (origin : Instant) (base : Nat) :
    (j.openSeries origin base).SameOrder j := by
  unfold openSeries
  split
  · exact ⟨rfl, rfl⟩
  · exact sameOrder_proceed j _

theorem sameOrder_arm (j : Job) (now : Reading) : (j.arm now).SameOrder j := by
  unfold arm
  dsimp only
  split
  · exact ⟨rfl, rfl⟩
  · split <;> exact ⟨rfl, rfl⟩

theorem sameOrder_schedule (j : Job) (now : Reading) : (j.schedule now).SameOrder j := by
  unfold schedule
  split
  · exact sameOrder_arm j now
  · exact ⟨rfl, rfl⟩

theorem sameOrder_wake (j : Job) (now : Reading) : (j.wake now).SameOrder j := by
  unfold wake
  split
  · exact sameOrder_hand j _ _
  · exact sameOrder_openSeries j _ _
  · split
    · exact ⟨rfl, rfl⟩
    · exact sameOrder_hand j _ _
  · exact ⟨rfl, rfl⟩

theorem sameOrder_conclude (j : Job) (now : Reading) (outcome : Outcome) :
    (j.conclude now outcome).SameOrder j := by
  unfold conclude
  split
  · exact ⟨rfl, rfl⟩
  · dsimp only
    split
    · exact ⟨rfl, rfl⟩
    · exact (sameOrder_proceed _ _).trans ⟨rfl, rfl⟩
  · exact ⟨rfl, rfl⟩
  · exact ⟨rfl, rfl⟩
  · exact ⟨rfl, rfl⟩

theorem sameOrder_handle (j : Job) (now : Reading) (e : Event) : (j.handle now e).SameOrder j := by
  cases e with
  | interrupt => exact ⟨rfl, rfl⟩
  | scopeEnds =>
    unfold handle
    dsimp only
    split <;> exact ⟨rfl, rfl⟩
  | turnEnds =>
    unfold handle
    dsimp only
    split <;> exact ⟨rfl, rfl⟩
  | wakes => exact sameOrder_wake j now
  | returns outcome => exact sameOrder_conclude j now outcome

theorem sameOrder_act (j : Job) (now : Reading) (a : Action) : (j.act now a).SameOrder j := by
  cases a with
  | schedule => exact sameOrder_schedule j now
  | event e => exact sameOrder_handle j now e
  | poll => exact ⟨rfl, rfl⟩
  | stray w =>
    unfold act
    dsimp only
    split <;> exact ⟨rfl, rfl⟩

theorem sameOrder_run (j : Job) (acts : List (Reading × Action)) : (j.run acts).SameOrder j := by
  have hact : ∀ i now a, SameOrder i j → (act i now a).SameOrder j := by
    intro i now a h
    exact (sameOrder_act i now a).trans h
  exact run_invariant hact ⟨rfl, rfl⟩ acts

/-- A job keeps its receipt, whatever is done to it. -/
theorem receipt_run (j : Job) (acts : List (Reading × Action)) :
    (j.run acts).receipt = j.receipt := by
  rw [receipt, receipt, (sameOrder_run j acts).2]

/-! ## 3. Writes -/

/-- What handing a specification to the service writes. -/
def handWrites (j : Job) (s : Specification) : List Progress.Write :=
  match j.service.capability.accepts s with
  | .error e => [.fail j.token e.message]
  | .ok _ => [.transition .running]

/-- What going on to the next occurrence writes. -/
def proceedWrites (c : Course) : List Progress.Write :=
  match c.rest.next with
  | .ok none => [.transition .completed]
  | _ => []

/-- What beginning a series writes. -/
def openWrites (j : Job) (origin : Instant) (base : Nat) : List Progress.Write :=
  match Occurrences.ofScope j.specification.scope origin with
  | .error _ => []
  | .ok occurrences => proceedWrites ⟨origin, base, occurrences⟩

/-- What arming the timers writes. -/
def armWrites (j : Job) (now : Reading) : List Progress.Write :=
  if j.specification.statement.isQuery then [.transition .scheduled]
  else match j.specification.scope.delays now.wall with
    | (none, _) => [.fail j.token expiredText]
    | (some _, _) => [.transition .scheduled]

/-- Arming the timers is one write. -/
theorem armWrites_cases (j : Job) (now : Reading) :
    j.armWrites now = [.transition .scheduled] ∨ j.armWrites now = [.fail j.token expiredText] := by
  unfold armWrites
  split
  · exact Or.inl rfl
  · split
    · exact Or.inr rfl
    · exact Or.inl rfl

/-- What scheduling writes. -/
def scheduleWrites (j : Job) (now : Reading) : List Progress.Write :=
  if j.progress.state = .pending then j.armWrites now else []

/-- What the end of a wait writes. -/
def wakeWrites (j : Job) : List Progress.Write :=
  match j.task with
  | .starting _ => j.handWrites j.specification
  | .opening origin base => j.openWrites origin base
  | .awaiting occurrence _ _ =>
    if j.interrupted then [.transition .completed]
    else j.handWrites (j.specification.forOccurrence occurrence)
  | _ => []

/-- What the return of a run writes. In a series the result is there before the series ends. -/
def concludeWrites (j : Job) (now : Reading) (outcome : Outcome) : List Progress.Write :=
  match j.task, outcome with
  | .running started, .ok r => [.complete (j.stamp started now r)]
  | .inTurn started turn, .ok r =>
    .push (j.stamp started now r) ::
      if j.interrupted then [.transition .completed] else proceedWrites turn.course
  | .running _, .error e | .inTurn _ _, .error e => [.fail j.token e.message]
  | _, _ => []

/-- What an event writes. -/
def eventWrites (j : Job) (now : Reading) : Event → List Progress.Write
  | .wakes => j.wakeWrites
  | .returns outcome => j.concludeWrites now outcome
  | .interrupt | .scopeEnds | .turnEnds => []

/-- What an action does to the progress of a job, one thing after the other. -/
def moments (j : Job) (now : Reading) : Action → List Progress.Moment
  | .schedule => (j.scheduleWrites now).map .write
  | .event e => (j.eventWrites now e).map .write
  | .poll => [.poll]
  | .stray w => if j.isFinished then [.write w] else []

/-! ## 4. The writes are what changes the progress -/

/-- The progress after some writes. -/
def written (p : Progress) (ws : List Progress.Write) : Progress := ws.foldl Progress.write p

theorem after_map_write (p : Progress) (ws : List Progress.Write) :
    p.after (ws.map .write) = written p ws := by
  rw [Progress.after, List.foldl_map]
  rfl

theorem progress_hand (j : Job) (s : Specification) (task : Task) :
    (j.hand s task).progress = written j.progress (j.handWrites s) := by
  unfold hand handWrites
  cases j.service.capability.accepts s with
  | error e => rfl
  | ok u => rfl

theorem progress_proceed (j : Job) (c : Course) :
    (j.proceed c).progress = written j.progress (proceedWrites c) := by
  unfold proceed proceedWrites
  cases c.rest.next with
  | error e => rfl
  | ok n => cases n <;> rfl

theorem progress_openSeries (j : Job) (origin : Instant) (base : Nat) :
    (j.openSeries origin base).progress = written j.progress (j.openWrites origin base) := by
  unfold openSeries openWrites
  cases Occurrences.ofScope j.specification.scope origin with
  | error e => rfl
  | ok occurrences => exact progress_proceed j _

theorem progress_arm (j : Job) (now : Reading) :
    (j.arm now).progress = written j.progress (j.armWrites now) := by
  unfold arm armWrites
  dsimp only
  by_cases hquery : j.specification.statement.isQuery = true
  · rw [if_pos hquery, if_pos hquery]
    rfl
  · rw [if_neg hquery, if_neg hquery]
    rcases j.specification.scope.delays now.wall with ⟨first, last⟩
    cases first <;> rfl

theorem progress_schedule (j : Job) (now : Reading) :
    (j.schedule now).progress = written j.progress (j.scheduleWrites now) := by
  unfold schedule scheduleWrites
  by_cases hpending : j.progress.state = .pending
  · rw [if_pos hpending, if_pos hpending]
    exact progress_arm j now
  · rw [if_neg hpending, if_neg hpending]
    rfl

theorem progress_wake (j : Job) (now : Reading) :
    (j.wake now).progress = written j.progress j.wakeWrites := by
  unfold wake wakeWrites
  cases j.task with
  | idle => rfl
  | starting due => exact progress_hand j _ _
  | running started => rfl
  | opening origin base => exact progress_openSeries j _ _
  | awaiting occurrence due course =>
    dsimp only
    by_cases hi : j.interrupted = true
    · rw [if_pos hi, if_pos hi]
      rfl
    · rw [if_neg hi, if_neg hi]
      exact progress_hand j _ _
  | inTurn started turn => rfl

theorem progress_conclude (j : Job) (now : Reading) (outcome : Outcome) :
    (j.conclude now outcome).progress = written j.progress (j.concludeWrites now outcome) := by
  unfold conclude concludeWrites
  cases j.task with
  | idle => rfl
  | starting due => rfl
  | running started => cases outcome <;> rfl
  | opening origin base => rfl
  | awaiting occurrence due course => rfl
  | inTurn started turn =>
    cases outcome with
    | error e => rfl
    | ok r =>
      dsimp only
      by_cases hi : j.interrupted = true
      · rw [if_pos hi, if_pos hi]
        rfl
      · rw [if_neg hi, if_neg hi, progress_proceed]
        rfl

theorem progress_handle (j : Job) (now : Reading) (e : Event) :
    (j.handle now e).progress = written j.progress (j.eventWrites now e) := by
  cases e with
  | interrupt => rfl
  | scopeEnds =>
    unfold handle
    dsimp only
    split <;> rfl
  | turnEnds =>
    unfold handle
    cases j.task <;> rfl
  | wakes => exact progress_wake j now
  | returns outcome => exact progress_conclude j now outcome

theorem progress_act (j : Job) (now : Reading) (a : Action) :
    (j.act now a).progress = j.progress.after (j.moments now a) := by
  cases a with
  | schedule => exact (progress_schedule j now).trans (after_map_write _ _).symm
  | event e => exact (progress_handle j now e).trans (after_map_write _ _).symm
  | poll => rfl
  | stray w =>
    unfold act moments
    dsimp only
    cases j.isFinished <;> rfl

/-! ## 5. What is written -/

/-- Whether a task belongs to a series. -/
def Task.isSeries : Task → Bool
  | .opening _ _ | .awaiting _ _ _ | .inTurn _ _ => true
  | .idle | .starting _ | .running _ => false

/-- The writes that an event of a job can make. -/
inductive TaskWrites (j : Job) : Progress.Write → Prop where
  /-- A run begins. -/
  | begins : TaskWrites j (.transition .running)
  /-- A series is over. -/
  | ends (series : Task.isSeries j.task = true) : TaskWrites j (.transition .completed)
  /-- A series has one more result. -/
  | adds (series : Task.isSeries j.task = true) (started : Instant) (now : Reading) (r : Result) :
    TaskWrites j (.push (j.stamp started now r))
  /-- The run of a job that is no series gives its result. -/
  | completes (started : Instant) (now : Reading) (r : Result) :
    TaskWrites j (.complete (j.stamp started now r))
  /-- The service refuses the specification, or its run fails. -/
  | fails (e : ServiceFault) : TaskWrites j (.fail j.token e.message)

theorem taskWrites_hand (j : Job) (s : Specification) : ∀ w ∈ j.handWrites s, j.TaskWrites w := by
  unfold handWrites
  split
  · rw [List.forall_mem_singleton]
    exact .fails _
  · rw [List.forall_mem_singleton]
    exact .begins

theorem taskWrites_proceed {j : Job} (h : Task.isSeries j.task = true) (c : Course) :
    ∀ w ∈ proceedWrites c, j.TaskWrites w := by
  unfold proceedWrites
  split
  · rw [List.forall_mem_singleton]
    exact .ends h
  · exact List.forall_mem_nil _

theorem taskWrites_open {j : Job} (h : Task.isSeries j.task = true) (origin : Instant)
    (base : Nat) : ∀ w ∈ j.openWrites origin base, j.TaskWrites w := by
  unfold openWrites
  split
  · exact List.forall_mem_nil _
  · exact taskWrites_proceed h _

theorem taskWrites_wake (j : Job) : ∀ w ∈ j.wakeWrites, j.TaskWrites w := by
  unfold wakeWrites
  split
  · exact taskWrites_hand j _
  · rename_i htask
    exact taskWrites_open (by rw [htask]; rfl) _ _
  · rename_i htask
    split
    · rw [List.forall_mem_singleton]
      exact .ends (by rw [htask]; rfl)
    · exact taskWrites_hand j _
  · exact List.forall_mem_nil _

theorem taskWrites_conclude (j : Job) (now : Reading) (outcome : Outcome) :
    ∀ w ∈ j.concludeWrites now outcome, j.TaskWrites w := by
  unfold concludeWrites
  split
  · rw [List.forall_mem_singleton]
    exact .completes _ _ _
  · rename_i htask
    have hseries : Task.isSeries j.task = true := by rw [htask]; rfl
    rw [List.forall_mem_cons]
    refine ⟨.adds hseries _ _ _, ?_⟩
    split
    · rw [List.forall_mem_singleton]
      exact .ends hseries
    · exact taskWrites_proceed hseries _
  · rw [List.forall_mem_singleton]
    exact .fails _
  · rw [List.forall_mem_singleton]
    exact .fails _
  · exact List.forall_mem_nil _

theorem taskWrites_event (j : Job) (now : Reading) (e : Event) :
    ∀ w ∈ j.eventWrites now e, j.TaskWrites w := by
  cases e with
  | wakes => exact taskWrites_wake j
  | returns outcome => exact taskWrites_conclude j now outcome
  | interrupt | scopeEnds | turnEnds => exact List.forall_mem_nil _

/-- Scheduling writes that the job is scheduled, or that it came too late. -/
theorem scheduleWrites_cases {j : Job} {now : Reading} {w : Progress.Write}
    (h : w ∈ j.scheduleWrites now) :
    w = .transition .scheduled ∨ w = .fail j.token expiredText := by
  unfold scheduleWrites at h
  split at h
  · rcases armWrites_cases j now with hw | hw
    · rw [hw] at h
      exact Or.inl (List.mem_singleton.1 h)
    · rw [hw] at h
      exact Or.inr (List.mem_singleton.1 h)
  · cases h

/-! ## 6. Series -/

/-- What every job satisfies: only one with a repeated scope goes through a series. -/
def Sound (j : Job) : Prop := Task.isSeries j.task = true → j.specification.scope.isRepeated = true

theorem sound_make (v : Service) (s : Specification) : (make v s).Sound :=
  fun h => Bool.noConfusion h

/-- A job of the same order with another task is sound if that task is. -/
theorem Sound.of_task {j k : Job} (ho : k.SameOrder j)
    (h : Task.isSeries k.task = true → j.specification.scope.isRepeated = true) : k.Sound := by
  intro hk
  rw [ho.2]
  exact h hk

theorem isSeries_hand {j : Job} {s : Specification} {task : Task}
    (h : Task.isSeries (j.hand s task).task = true) : Task.isSeries task = true := by
  unfold hand at h
  split at h
  · exact Bool.noConfusion h
  · exact h

theorem sound_arm (j : Job) (now : Reading) : (j.arm now).Sound := by
  refine Sound.of_task (sameOrder_arm j now) ?_
  unfold arm
  dsimp only
  split
  · exact fun h => Bool.noConfusion h
  · split
    · exact fun h => Bool.noConfusion h
    · dsimp only
      split
      · -- A series is opened for a repeated scope only.
        rename_i hrep
        exact fun _ => hrep
      · exact fun h => Bool.noConfusion h

theorem sound_schedule {j : Job} (hj : j.Sound) (now : Reading) : (j.schedule now).Sound := by
  unfold schedule
  split
  · exact sound_arm j now
  · exact hj

theorem sound_wake {j : Job} (hj : j.Sound) (now : Reading) : (j.wake now).Sound := by
  refine Sound.of_task (sameOrder_wake j now) ?_
  unfold wake
  split
  · exact fun h => Bool.noConfusion (isSeries_hand h)
  -- What a series goes on to was a series before, whichever task comes next.
  · rename_i htask
    exact fun _ => hj (by rw [htask]; rfl)
  · rename_i htask
    exact fun _ => hj (by rw [htask]; rfl)
  · exact hj

theorem sound_conclude {j : Job} (hj : j.Sound) (now : Reading) (outcome : Outcome) :
    (j.conclude now outcome).Sound := by
  refine Sound.of_task (sameOrder_conclude j now outcome) ?_
  unfold conclude
  split
  · exact fun h => Bool.noConfusion h
  · rename_i htask
    exact fun _ => hj (by rw [htask]; rfl)
  · exact fun h => Bool.noConfusion h
  · exact fun h => Bool.noConfusion h
  · exact hj

theorem sound_handle {j : Job} (hj : j.Sound) (now : Reading) (e : Event) :
    (j.handle now e).Sound := by
  cases e with
  | interrupt => exact hj
  | scopeEnds =>
    unfold handle
    dsimp only
    split <;> exact hj
  | turnEnds =>
    refine Sound.of_task (sameOrder_handle j now .turnEnds) ?_
    unfold handle
    dsimp only
    split
    · rename_i htask
      exact fun _ => hj (by rw [htask]; rfl)
    · exact hj
  | wakes => exact sound_wake hj now
  | returns outcome => exact sound_conclude hj now outcome

theorem sound_act {j : Job} (hj : j.Sound) (now : Reading) (a : Action) : (j.act now a).Sound := by
  cases a with
  | schedule => exact sound_schedule hj now
  | event e => exact sound_handle hj now e
  | poll => exact hj
  | stray w =>
    unfold act
    dsimp only
    split <;> exact hj

theorem sound_run {j : Job} (hj : j.Sound) (acts : List (Reading × Action)) :
    (j.run acts).Sound := by
  have hact : ∀ i now a, Sound i → (act i now a).Sound := by
    intro i now a h
    exact sound_act h now a
  exact run_invariant hact hj acts

end Job

end Measurement
