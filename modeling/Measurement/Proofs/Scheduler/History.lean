/-
What is done to a scheduler, and what becomes of its jobs.

Services come and go, messages arrive, jobs get on, all jobs are interrupted,
and finished ones are pruned. A history is a row of such actions, each with
what the clocks show then, and a state of a scheduler is reachable when it is
what a history leaves of the scheduler without services and jobs.

One lemma, `fate`, says all that an action can do to the job under a token: it
is admitted, it gets on, or it is pruned. What is proved of jobs in a history
follows from it alone, first of all where a job comes from (`origin_of_get?`).
-/
import Mathlib.Data.List.Induction
import Measurement.Scheduler
import Measurement.Proofs.Table
import Measurement.Proofs.Job.Ownership

set_option autoImplicit false

namespace Measurement

/-- The token of the job whose reply a message asks for. -/
def Message.asks? : Message → Option String
  | .redemption r => some r.token
  | .interrupt i => some i.token
  | _ => none

namespace Scheduler

/-! ## 1. Submissions -/

/-- The conditions on which a scheduler admits a specification for a service. -/
structure Admits (x : Scheduler) (now : Reading) (identity : String) (s : Specification)
    (v : Service) : Prop where
  routed : x.route s now.wall = some v
  allowed : x.authorizer.allows v.capability.knownAs identity = true
  accepted : v.capability.accepts s = .ok ()
  timely : s.statement.isQuery = true ∨ s.scope.isExpired now.wall = false

/-- The scheduler after its authorizer was asked. -/
def noted (x : Scheduler) (v : Service) (identity : String) : Scheduler :=
  { x with asked := x.asked ++ [(v.capability.knownAs, identity)] }

theorem submit_of_admits {x : Scheduler} {now : Reading} {identity : String} {s : Specification}
    {v : Service} (h : x.Admits now identity s v) (armed : Reading) :
    x.submit now armed identity s = (x.noted v identity).join armed v (pinned s now.wall) := by
  have htime : (!s.statement.isQuery && s.scope.isExpired now.wall) = false := by
    rcases h.timely with hq | he
    · rw [hq]
      rfl
    · rw [he, Bool.and_false]
  simp only [submit, h.routed, h.allowed, h.accepted, htime]
  rfl

theorem submit_of_not_admits {x : Scheduler} {now : Reading} {identity : String}
    {s : Specification} (h : ∀ v, ¬ x.Admits now identity s v) (armed : Reading) :
    ∃ (message : String) (asked : List (String × String)),
      x.submit now armed identity s = (reject s message, { x with asked := asked }) := by
  unfold submit
  split
  · exact ⟨_, x.asked, rfl⟩
  · rename_i v hrouted
    dsimp only
    split
    · exact ⟨_, _, rfl⟩
    · rename_i hallowed
      rw [Bool.not_eq_true', Bool.not_eq_false] at hallowed
      split
      · exact ⟨_, _, rfl⟩
      · rename_i u haccepted
        split
        · exact ⟨_, _, rfl⟩
        · rename_i htime
          refine absurd ⟨hrouted, hallowed, haccepted, ?_⟩ (h v)
          rw [Bool.and_eq_true, Bool.not_eq_true', not_and_or, Bool.not_eq_false,
            Bool.not_eq_true] at htime
          exact htime

/-! ## 2. Actions -/

/-- What is done to a scheduler. -/
inductive Action where
  /-- A service is registered, if its capability is valid and new. -/
  | register (v : Service)
  /-- The capability with a token is taken back, if there is one. -/
  | withdraw (token : String)
  /-- A message arrives from someone; the timers of a job that it makes are armed at a reading of
  the clocks of its own. -/
  | receive (armed : Reading) (identity : String) (m : Message)
  /-- Something is done to the job with a token, if there is one. -/
  | job (token : String) (a : Job.Action)
  /-- Every job that is not at its end is interrupted. -/
  | interruptAll
  /-- The jobs whose outcome has been collected are dropped. -/
  | prune

/-- The scheduler after an action. -/
def act (x : Scheduler) (now : Reading) : Action → Scheduler
  | .register v =>
    match x.addService v with
    | .ok y => y
    | .error _ => x
  | .withdraw token =>
    match x.withdraw token with
    | some (_, y) => y
    | none => x
  | .receive armed identity m => (x.receive now armed identity m).2
  | .job token a => x.changeJob token fun j => j.act now a
  | .interruptAll => (x.interruptAll now).2
  | .prune => x.prune.2

/-- The scheduler after actions, each with what the clocks show then. -/
def run (x : Scheduler) (acts : List (Reading × Action)) : Scheduler :=
  acts.foldl (fun x a => x.act a.1 a.2) x

theorem run_concat (x : Scheduler) (acts : List (Reading × Action)) (a : Reading × Action) :
    x.run (acts ++ [a]) = (x.run acts).act a.1 a.2 := by
  rw [run, run, List.foldl_append]
  rfl

/-- The token of the job whose reply an action asks for. -/
def Action.asks? : Action → Option String
  | .receive _ _ m => m.asks?
  | .job token .poll => some token
  | _ => none

/-- What is answered to an action, if anything. -/
def answer? (x : Scheduler) (now : Reading) : Action → Option Message
  | .receive armed identity m => some (x.receive now armed identity m).1
  | .job token .poll => some (x.poll token).1
  | _ => none

/-! ## 3. The fate of a job -/

/-- What an action does to the job under a token: the one before it and the one after it. -/
inductive Fate (x : Scheduler) (now : Reading) (a : Action) (k : String) :
    Option Job → Option Job → Prop where
  | absent : Fate x now a k none none
  /-- A specification is admitted under a token that has no job. -/
  | admitted (armed : Reading) (identity : String) (s : Specification) (v : Service)
    (arrives : a = .receive armed identity (.specification s)) (admits : x.Admits now identity s v)
    (key : k = (pinned s now.wall).token) :
    Fate x now a k none (some ((Job.make v (pinned s now.wall)).schedule armed))
  /-- The job gets on. It is asked for its reply only by an action that is answered with it, and
  that does not end the job. -/
  | kept (j : Job) (acts : List Job.Action)
    (asked : .poll ∈ acts → a.asks? = some k ∧ x.answer? now a = some j.reply ∧
      (j.run (acts.map (now, ·))).isFinished = j.isFinished) :
    Fate x now a k (some j) (some (j.run (acts.map (now, ·))))
  /-- The job is at its end and was collected. -/
  | pruned (j : Job) (prunes : a = .prune) (spent : isSpent j = true) :
    Fate x now a k (some j) none

section Fate

variable (x : Scheduler) (now : Reading) (k : String)

/-- An action that leaves the table alone. -/
theorem fate_same (a : Action) (o : Option Job) : Fate x now a k o o := by
  cases o with
  | none => exact .absent
  | some j => exact .kept j [] fun h => absurd h List.not_mem_nil

theorem get?_changeJob (token : String) (f : Job → Job) :
    (x.changeJob token f).jobs.get? k =
      if k = token then (x.jobs.get? k).map f else x.jobs.get? k := by
  unfold changeJob
  split
  · rename_i j hj
    rw [Table.get?_insert]
    by_cases hk : k = token
    · rw [if_pos hk, if_pos hk, hk, hj]
      rfl
    · rw [if_neg hk, if_neg hk]
  · rename_i hj
    by_cases hk : k = token
    · rw [if_pos hk, hk, hj]
      rfl
    · rw [if_neg hk]

theorem poll_fst {x : Scheduler} {k : String} {j : Job} (h : x.jobs.get? k = some j) :
    (x.poll k).1 = j.reply := by
  rw [poll, h]

theorem poll_snd (token : String) : (x.poll token).2 = x.changeJob token Job.poll := by
  unfold poll
  split
  · rfl
  · rename_i hnone
    rw [changeJob, hnone]

theorem jobs_register (v : Service) : (x.act now (.register v)).jobs = x.jobs := by
  rw [act, addService]
  cases v.capability.validate with
  | error e => rfl
  | ok u =>
    dsimp only [Except.mapError, bind, Except.bind]
    by_cases hdup : x.catalog.contains v.capability.token = true
    · rw [if_pos hdup]
    · rw [if_neg hdup]

theorem jobs_withdraw (token : String) : (x.act now (.withdraw token)).jobs = x.jobs := by
  rw [act, withdraw]
  cases x.catalog.get? token <;> rfl

/-- An action that does something to the job under one token only. -/
theorem fate_of_get? {y : Scheduler} {a : Action} (token : String) (f : Job → Job)
    (acts : List Job.Action)
    (hy : y.jobs.get? k = if k = token then (x.jobs.get? k).map f else x.jobs.get? k)
    (hf : ∀ j : Job, f j = j.run (acts.map (now, ·)))
    (asked : ∀ j, x.jobs.get? token = some j → .poll ∈ acts →
      a.asks? = some token ∧ x.answer? now a = some j.reply ∧
        (j.run (acts.map (now, ·))).isFinished = j.isFinished) :
    Fate x now a k (x.jobs.get? k) (y.jobs.get? k) := by
  rw [hy]
  by_cases hk : k = token
  · rw [if_pos hk]
    subst hk
    cases hj : x.jobs.get? k with
    | none => exact .absent
    | some j =>
      rw [Option.map_some, hf]
      exact .kept j acts (asked j hj)
  · rw [if_neg hk]
    exact fate_same x now k a _

theorem fate_submit (armed : Reading) (identity : String) (s : Specification) :
    Fate x now (.receive armed identity (.specification s)) k (x.jobs.get? k)
      ((x.submit now armed identity s).2.jobs.get? k) := by
  by_cases hv : ∃ v, x.Admits now identity s v
  · obtain ⟨v, hadmits⟩ := hv
    rw [submit_of_admits hadmits, join]
    split
    · exact fate_same x now k _ _
    · rename_i hnone
      dsimp only
      rw [Table.get?_insert]
      by_cases hk : k = (pinned s now.wall).token
      · rw [if_pos hk, hk]
        have hnone : x.jobs.get? (pinned s now.wall).token = none := hnone
        rw [hnone]
        exact .admitted armed identity s v rfl hadmits rfl
      · rw [if_neg hk]
        exact fate_same x now k _ _
  · obtain ⟨message, asked, he⟩ := submit_of_not_admits (fun v h => hv ⟨v, h⟩) armed
    rw [he]
    exact fate_same x now k _ _

theorem fate_job (token : String) (a : Job.Action) :
    Fate x now (.job token a) k (x.jobs.get? k) ((x.act now (.job token a)).jobs.get? k) := by
  refine fate_of_get? x now k token (fun j => j.act now a) [a] (get?_changeJob x k token _)
    (fun j => rfl) ?_
  intro j hj hpoll
  rw [List.mem_singleton] at hpoll
  rw [← hpoll]
  exact ⟨rfl, congrArg some (poll_fst hj), rfl⟩

theorem fate_receive (armed : Reading) (identity : String) (m : Message) :
    Fate x now (.receive armed identity m) k (x.jobs.get? k)
      ((x.receive now armed identity m).2.jobs.get? k) := by
  cases m with
  | specification s => exact fate_submit x now k armed identity s
  | redemption r =>
    refine fate_of_get? x now k r.token Job.poll [.poll] ?_ (fun j => rfl) ?_
    · rw [receive, poll_snd]
      exact get?_changeJob x k r.token _
    · intro j hj _
      exact ⟨rfl, congrArg some (poll_fst hj), rfl⟩
  | interrupt i =>
    refine fate_of_get? x now k i.token (fun j => (j.handle now .interrupt).poll)
      [.event .interrupt, .poll] ?_ (fun j => rfl) ?_
    · rw [receive, poll_snd, get?_changeJob, handle, get?_changeJob]
      by_cases hk : k = i.token
      · rw [if_pos hk, if_pos hk, if_pos hk, Option.map_map]
        rfl
      · rw [if_neg hk, if_neg hk, if_neg hk]
    · intro j hj _
      -- The reply is that of the interrupted job, which is the reply it had before.
      have hinterrupted : (x.handle now i.token .interrupt).jobs.get? i.token
          = some (j.handle now .interrupt) := by
        rw [handle, get?_changeJob, if_pos rfl, hj]
        rfl
      have hreply : (j.handle now .interrupt).reply = j.reply := rfl
      exact ⟨rfl, congrArg some ((poll_fst hinterrupted).trans hreply), rfl⟩
  | capability c => exact fate_same x now k _ _
  | result r => exact fate_same x now k _ _
  | receipt r => exact fate_same x now k _ _
  | withdrawal w => exact fate_same x now k _ _
  | exception e => exact fate_same x now k _ _
  | envelope kind contents => exact fate_same x now k _ _

theorem fate_interruptAll :
    Fate x now .interruptAll k (x.jobs.get? k) ((x.interruptAll now).2.jobs.get? k) := by
  have hget : (x.interruptAll now).2.jobs.get? k = (x.jobs.get? k).map fun j =>
      if j.isFinished then j else j.handle now .interrupt := Table.get?_map _ _ _
  rw [hget]
  cases x.jobs.get? k with
  | none => exact .absent
  | some j =>
    rw [Option.map_some]
    split
    · exact fate_same x now k _ (some j)
    · exact .kept j [.event .interrupt] fun h => Job.Action.noConfusion (List.mem_singleton.1 h)

theorem fate_prune : Fate x now .prune k (x.jobs.get? k) (x.prune.2.jobs.get? k) := by
  have hget : x.prune.2.jobs.get? k = (x.jobs.get? k).filter fun j => !isSpent j :=
    Table.get?_filter _ _ _
  rw [hget]
  cases x.jobs.get? k with
  | none => exact .absent
  | some j =>
    cases hspent : isSpent j
    · rw [Option.filter_some_pos (by rw [hspent]; rfl)]
      exact fate_same x now k _ (some j)
    · rw [Option.filter_some_neg (by rw [hspent]; decide)]
      exact .pruned j rfl hspent

/-- What an action can do to the job under a token. -/
theorem fate (a : Action) : Fate x now a k (x.jobs.get? k) ((x.act now a).jobs.get? k) := by
  cases a with
  | register v =>
    rw [jobs_register]
    exact fate_same x now k _ _
  | withdraw token =>
    rw [jobs_withdraw]
    exact fate_same x now k _ _
  | receive armed identity m => exact fate_receive x now k armed identity m
  | job token a => exact fate_job x now k token a
  | interruptAll => exact fate_interruptAll x now k
  | prune => exact fate_prune x now k

end Fate

/-! ## 4. Where a job comes from -/

/-- The job that a history has brought about: it was admitted by the scheduler that there was then,
and things were done to it since. -/
structure Origin (a : Authorizer) (h : List (Reading × Action)) (j : Job) where
  before : List (Reading × Action)
  now : Reading
  armed : Reading
  identity : String
  specification : Specification
  later : List (Reading × Action)
  split : h = before ++ (now, .receive armed identity (.specification specification)) :: later
  service : Service
  admits : ((empty a).run before).Admits now identity specification service
  acts : List (Reading × Job.Action)
  eq : j = ((Job.make service (pinned specification now.wall)).schedule armed).run acts

/-- Every job in the table was admitted under its key, and the key is the token of the
specification as it is kept. -/
theorem origin_of_get? (a : Authorizer) (h : List (Reading × Action)) {k : String} {j : Job}
    (hj : ((empty a).run h).jobs.get? k = some j) :
    ∃ o : Origin a h j, k = (pinned o.specification o.now.wall).token := by
  induction h using List.reverseRecOn generalizing j with
  | nil =>
    rw [run, List.foldl_nil, empty, Table.get?_empty] at hj
    cases hj
  | append_singleton h e ih =>
    rw [run_concat] at hj
    have hfate := fate ((empty a).run h) e.1 k e.2
    rw [hj] at hfate
    generalize hbefore : ((empty a).run h).jobs.get? k = o at hfate ih
    cases hfate with
    | admitted armed identity s v arrives admits key =>
      refine ⟨⟨h, e.1, armed, identity, s, [], ?_, v, admits, [], rfl⟩, key⟩
      rw [← arrives]
    | kept i acts asked =>
      obtain ⟨o, hk⟩ := ih rfl
      refine ⟨⟨o.before, o.now, o.armed, o.identity, o.specification, o.later ++ [e], ?_, o.service,
        o.admits, o.acts ++ acts.map (e.1, ·), ?_⟩, hk⟩
      · conv_lhs => rw [o.split]
        rw [List.append_assoc, List.cons_append]
      · rw [Job.run_append, ← o.eq]

theorem Origin.specification_eq {a : Authorizer} {h : List (Reading × Action)} {j : Job}
    (o : Origin a h j) : j.specification = pinned o.specification o.now.wall := by
  have hspec := congrArg Job.specification o.eq
  rwa [(Job.sameOrder_run _ _).2, (Job.sameOrder_schedule _ _).2] at hspec

theorem Origin.service_eq {a : Authorizer} {h : List (Reading × Action)} {j : Job}
    (o : Origin a h j) : j.service = o.service := by
  have hservice := congrArg Job.service o.eq
  rwa [(Job.sameOrder_run _ _).1, (Job.sameOrder_schedule _ _).1] at hservice

theorem Origin.owned {a : Authorizer} {h : List (Reading × Action)} {j : Job} (o : Origin a h j) :
    j.Owned := by
  rw [o.eq]
  exact Job.owned_run (Job.owned_act (Job.owned_make _ _) o.armed .schedule) _

/-- A job stands under its own token. -/
theorem token_of_get? (a : Authorizer) (h : List (Reading × Action)) {k : String} {j : Job}
    (hj : ((empty a).run h).jobs.get? k = some j) : j.token = k := by
  obtain ⟨o, hk⟩ := origin_of_get? a h hj
  rw [Job.token, o.specification_eq, hk]

/-- The results and the failure of a job are its own. -/
theorem owned_of_get? (a : Authorizer) (h : List (Reading × Action)) {k : String} {j : Job}
    (hj : ((empty a).run h).jobs.get? k = some j) : j.Owned :=
  (origin_of_get? a h hj).choose.owned

end Scheduler

end Measurement
