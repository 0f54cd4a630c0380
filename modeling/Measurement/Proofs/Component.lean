/-
What a component does to its scheduler.

A component takes requests, lets time pass and lets the strands of its jobs take
turns. Whatever it does, it leads its scheduler along a run of actions, in the
order of their moments. So what is proved of every history of a scheduler is
proved of the scheduler of every component, at every time.

The proof follows the way a component works. A strand that goes on makes events
of its job; a turn of a strand is a run of these on the scheduler; the turns at
one moment follow each other, and so do the moments.
-/
import Measurement.Component.Exchange
import Measurement.Proofs.Table
import Measurement.Proofs.Scheduler.History

set_option autoImplicit false

namespace Measurement

/-! ## 1. Strands -/

namespace Undertaking

/-- Whether an undertaking becomes another by events of its job that happen at one time. -/
def Leads (now : Reading) (u v : Undertaking) : Prop :=
  ∃ acts : List Job.Action, v.job = u.job.run (acts.map (now, ·))

variable {now : Reading}

theorem Leads.refl (u : Undertaking) : Leads now u u := ⟨[], rfl⟩

theorem Leads.trans {u v w : Undertaking} (h : Leads now u v) (g : Leads now v w) :
    Leads now u w := by
  obtain ⟨acts, hacts⟩ := h
  obtain ⟨more, hmore⟩ := g
  refine ⟨acts ++ more, ?_⟩
  rw [List.map_append, Job.run_append, ← hacts, hmore]

theorem leads_handle (u : Undertaking) (e : Job.Event) : Leads now u (u.handle now e) :=
  ⟨[.event e], rfl⟩

theorem leads_collect (u : Undertaking) : Leads now u (u.collect now) := by
  unfold collect
  split
  · rename_i outcome h
    exact ⟨[.event (.returns outcome)], rfl⟩
  · exact .refl u

theorem leads_wakeJob (u : Undertaking) : Leads now u (u.wakeJob now) := by
  unfold wakeJob
  split
  · dsimp only
    split <;> exact ⟨[.event .wakes], rfl⟩
  · exact .refl u

theorem leads_goOnJob (u : Undertaking) : Leads now u (u.goOnJob now).1 :=
  ((leads_collect u).trans (leads_wakeJob _)).trans (leads_wakeJob _)

/-- A strand that goes on leads the job along events. -/
theorem leads_goOn (u : Undertaking) (strand : Strand) : Leads now u (u.goOn now strand).1 := by
  cases strand with
  | scopeEnd =>
    rw [goOn, watchScope]
    split
    · exact leads_handle u .scopeEnds
    · exact .refl u
  | job => exact leads_goOnJob u
  | turnEnd =>
    rw [goOn, watchTurn]
    split
    · split
      · exact leads_handle u .turnEnds
      · exact .refl u
    · exact .refl u
  | run =>
    rw [goOn, goOnRun]
    split <;> exact .refl u

end Undertaking

/-! ## 2. Actions on one job -/

namespace Scheduler

theorem changeJob_of_get? {x : Scheduler} {k : String} {j : Job} (h : x.jobs.get? k = some j)
    (f : Job → Job) : x.changeJob k f = { x with jobs := x.jobs.insert k (f j) } := by
  rw [changeJob, h]

theorem changeJob_same {x : Scheduler} {k : String} {j : Job} (h : x.jobs.get? k = some j) :
    x.changeJob k (fun _ => j) = x := by
  rw [changeJob_of_get? h, Table.insert_of_get? h]

theorem changeJob_changeJob {x : Scheduler} {k : String} {j : Job} (h : x.jobs.get? k = some j)
    (f : Job → Job) (i : Job) :
    (x.changeJob k f).changeJob k (fun _ => i) = x.changeJob k fun _ => i := by
  have hafter : (x.changeJob k f).jobs.get? k = some (f j) := by
    rw [get?_changeJob, if_pos rfl, h, Option.map_some]
  rw [changeJob_of_get? hafter, changeJob_of_get? h, changeJob_of_get? h, Table.insert_insert]

/-- Actions on one job put into the table what they make of the job. -/
theorem run_job {x : Scheduler} {k : String} {j : Job} (h : x.jobs.get? k = some j) (now : Reading)
    (acts : List Job.Action) :
    x.run (acts.map fun a => (now, .job k a))
      = x.changeJob k fun _ => j.run (acts.map (now, ·)) := by
  induction acts generalizing x j with
  | nil => exact (changeJob_same h).symm
  | cons a acts ih =>
    have hafter : (x.changeJob k fun j => j.act now a).jobs.get? k = some (j.act now a) := by
      rw [get?_changeJob, if_pos rfl, h, Option.map_some]
    have hrest := ih hafter
    rw [changeJob_changeJob h] at hrest
    exact hrest

end Scheduler

/-! ## 3. The passage of time -/

namespace Component

/-- Whether a component becomes another by a run of actions on its scheduler, in the order of their
moments, which lie between those of the two. -/
structure LeadsBy (x y : Component) (acts : List (Reading × Scheduler.Action)) : Prop where
  scheduler : y.scheduler = x.scheduler.run acts
  later : x.timeline.moment ≤ y.timeline.moment
  within : ∀ a ∈ acts, x.timeline.moment ≤ a.1.moment ∧ a.1.moment ≤ y.timeline.moment
  inOrder : acts.Pairwise fun a b => a.1.moment ≤ b.1.moment

def Leads (x y : Component) : Prop := ∃ acts, LeadsBy x y acts

/-- What leaves the scheduler alone. -/
theorem leads_of_eq {x y : Component} (h : y.scheduler = x.scheduler)
    (hm : x.timeline.moment ≤ y.timeline.moment) : Leads x y :=
  ⟨[], h, hm, List.forall_mem_nil _, .nil⟩

/-- Actions that happen at one time. -/
theorem leads_of_acts {x y : Component} (acts : List Scheduler.Action)
    (h : y.scheduler = x.scheduler.run (acts.map (x.now, ·)))
    (hm : y.timeline.moment = x.timeline.moment) : Leads x y := by
  refine ⟨_, h, Nat.le_of_eq hm.symm, ?_, ?_⟩
  · intro e he
    obtain ⟨a, -, rfl⟩ := List.mem_map.1 he
    exact ⟨Nat.le_refl x.timeline.moment, Nat.le_of_eq hm.symm⟩
  · rw [List.pairwise_map]
    exact List.pairwise_of_forall fun a b => Nat.le_refl x.timeline.moment

theorem Leads.refl (x : Component) : Leads x x := leads_of_eq rfl (Nat.le_refl _)

theorem Leads.trans {x y z : Component} (h : Leads x y) (g : Leads y z) : Leads x z := by
  obtain ⟨acts, hacts⟩ := h
  obtain ⟨more, hmore⟩ := g
  refine ⟨acts ++ more, ?_, Nat.le_trans hacts.later hmore.later, ?_, ?_⟩
  · rw [hmore.scheduler, hacts.scheduler, Scheduler.run, Scheduler.run, Scheduler.run,
      List.foldl_append]
  · intro a ha
    rcases List.mem_append.1 ha with ha | ha
    · exact ⟨(hacts.within a ha).1, Nat.le_trans (hacts.within a ha).2 hmore.later⟩
    · exact ⟨Nat.le_trans hacts.later (hmore.within a ha).1, (hmore.within a ha).2⟩
  · rw [List.pairwise_append]
    refine ⟨hacts.inOrder, hmore.inOrder, ?_⟩
    intro a ha b hb
    exact Nat.le_trans (hacts.within a ha).2 (hmore.within b hb).1

/-- A turn of a strand. -/
theorem leads_goOn (x : Component) (p : Thread) : Leads x (x.goOn p) := by
  cases hu : x.undertaking? p.1 with
  | none =>
    rw [goOn, hu]
    exact .refl x
  | some u =>
    obtain ⟨j, hj, rfl⟩ := Option.map_eq_some_iff.1 hu
    have hturn : Undertaking.Leads x.now ⟨j, x.activities.get? p.1⟩ _ :=
      Undertaking.leads_goOn _ p.2
    obtain ⟨acts, hacts⟩ := hturn
    refine leads_of_acts (acts.map (.job p.1)) ?_ (by rw [timeline_goOn])
    -- The component puts the job that the strand leaves into the table in one go.
    rw [List.map_map]
    refine Eq.trans ?_ (Scheduler.run_job hj x.now acts).symm
    rw [goOn, hu, ← hacts]
    rfl

theorem leads_settleWithin (n : Nat) (x : Component) : Leads x (settleWithin n x) := by
  induction n generalizing x with
  | zero => exact .refl x
  | succ n ih =>
    rw [settleWithin]
    split
    · exact .refl x
    · rename_i p rest hready
      have htaken : Leads x { x with ready := rest } := leads_of_eq rfl (Nat.le_refl _)
      exact (htaken.trans (leads_goOn _ p)).trans (ih _)

theorem leads_settle (x : Component) : Leads x x.settle := leads_settleWithin turnLimit x

theorem leads_moveTo (x : Component) {m : Nat} (h : x.timeline.moment ≤ m) :
    Leads x (x.moveTo m) := by
  rw [moveTo]
  refine Leads.trans ?_ (leads_settle _)
  exact leads_of_eq rfl h

/-- Going from one moment to the next does not lead past the last one. The induction is that of the
definition, on the time that is left. -/
theorem leads_run (stop : Component → Bool) {last : Nat} {x : Component}
    (h : x.timeline.moment ≤ last) :
    Leads x (x.run stop last) ∧ (x.run stop last).timeline.moment ≤ last := by
  induction x using run.induct stop last with
  | case1 x hstop =>
    rw [run, if_pos hstop]
    exact ⟨.refl x, h⟩
  | case2 x hstop hnone =>
    rw [run, if_neg hstop]
    split
    · exact ⟨.refl x, h⟩
    · rename_i m hdue
      rw [hnone] at hdue
      cases hdue
  | case3 x hstop m hdue hm sooner ih =>
    have hmoved : Leads x (x.moveTo m) := leads_moveTo x (Nat.le_of_lt (lt_of_nextDue? hdue))
    have hrest := ih (by rw [moment_moveTo]; exact hm)
    rw [run, if_neg hstop]
    split
    · rename_i hnone
      rw [hnone] at hdue
      cases hdue
    · rename_i m' hdue'
      obtain rfl : m = m' := Option.some.inj (hdue.symm.trans hdue')
      rw [dif_pos hm]
      exact ⟨hmoved.trans hrest.1, hrest.2⟩
  | case4 x hstop m hdue hm =>
    rw [run, if_neg hstop]
    split
    · exact ⟨.refl x, h⟩
    · rename_i m' hdue'
      obtain rfl : m = m' := Option.some.inj (hdue.symm.trans hdue')
      rw [dif_neg hm]
      exact ⟨.refl x, h⟩

theorem leads_advance (x : Component) (millis : Nat) : Leads x (x.advance millis) := by
  have hstart : x.settle.timeline.moment ≤ x.timeline.moment + millis := by
    rw [timeline_settle]
    exact Nat.le_add_right _ _
  obtain ⟨hrun, hlast⟩ := leads_run (fun _ => false) hstart
  exact ((leads_settle x).trans hrun).trans (leads_moveTo _ hlast)

theorem leads_finishJob (x : Component) (token : String) : Leads x (x.finishJob token) := by
  have hstart : x.settle.timeline.moment ≤ x.timeline.moment + longTime := by
    rw [timeline_settle]
    exact Nat.le_add_right _ _
  exact (leads_settle x).trans (leads_run _ hstart).1

/-! ## 4. Requests -/

theorem leads_startJob (x : Component) (token : String) : Leads x (x.startJob token) := by
  unfold startJob
  split
  · exact leads_of_eq rfl (Nat.le_refl _)
  · exact .refl x

theorem leads_signal (x : Component) (token : String) : Leads x (x.signal token) := by
  unfold signal
  split
  · exact leads_of_eq rfl (Nat.le_refl _)
  · exact .refl x

/-- What is done for one token after the other. -/
theorem leads_foldl {f : Component → String → Component} (h : ∀ x token, Leads x (f x token))
    (tokens : List String) (x : Component) : Leads x (tokens.foldl f x) := by
  induction tokens generalizing x with
  | nil => exact .refl x
  | cons token tokens ih => exact (h x token).trans (ih (f x token))

theorem leads_addService {x y : Component} {c : Capability} {b : Behaviour}
    (h : x.addService c b = .ok y) : Leads x y := by
  rw [addService] at h
  cases hadd : x.scheduler.addService ⟨c, b, x.hosted.length⟩ with
  | error e =>
    rw [hadd] at h
    cases h
  | ok scheduler =>
    rw [hadd] at h
    obtain rfl := Except.ok.inj h
    refine leads_of_acts [.register ⟨c, b, x.hosted.length⟩] ?_ rfl
    change scheduler = x.scheduler.act x.now (.register _)
    rw [Scheduler.act, hadd]

theorem leads_scheduleJob (x : Component) (token : String) : Leads x (x.scheduleJob token) := by
  unfold scheduleJob
  split
  · split
    · refine Leads.trans ?_ (leads_startJob _ token)
      exact leads_of_acts [.job token .schedule] rfl rfl
    · exact .refl x
  · exact .refl x

theorem leads_interruptJob (x : Component) (token : String) : Leads x (x.interruptJob token) := by
  refine Leads.trans ?_ (leads_signal _ token)
  exact leads_of_acts [.job token (.event .interrupt)] rfl rfl

theorem leads_interruptAll (x : Component) : Leads x x.interruptAll.2 := by
  refine Leads.trans ?_ (leads_foldl leads_signal _ _)
  exact leads_of_acts [.interruptAll] rfl rfl

theorem leads_receive (x : Component) (identity : String) (m : Message) :
    Leads x (x.receive identity m).2 := by
  have hreceived :
      Leads x { x with scheduler := (x.scheduler.receive x.now x.now identity m).2 } :=
    leads_of_acts [.receive x.now identity m] rfl rfl
  rw [receive]
  dsimp only
  split
  · exact hreceived.trans (leads_signal _ _)
  · exact hreceived.trans (leads_foldl leads_startJob _ _)

theorem leads_answer (x : Component) (p : Peer) (millis : Nat) (m : Message) :
    Leads x (x.answer p millis m).2 := by
  unfold answer
  split
  · exact .refl x
  · split
    · exact .refl x
    · exact .refl x
    · split
      · exact .refl x
      · exact leads_advance x millis

theorem leads_serve (x : Component) (lookup : RegistryLookup) (p : Peer) (millis : Nat) :
    Leads x (x.serve lookup p millis).2 := by
  unfold serve
  split
  · exact (leads_receive x _ _).trans (leads_answer _ p millis _)
  · exact leads_advance x millis
  · exact .refl x
  · exact leads_answer x p millis _
  · exact leads_answer x p millis _
  · exact .refl x

/-! ## 5. Components at work -/

/-- What is done to a component. -/
inductive Operation where
  | addService (c : Capability) (b : Behaviour)
  | withdraw (token : String)
  | receive (identity : String) (m : Message)
  | serve (lookup : RegistryLookup) (p : Peer) (millis : Nat)
  | scheduleJob (token : String)
  | interruptJob (token : String)
  | interruptAll
  | prune
  | settle
  | advance (millis : Nat)
  | finishJob (token : String)
  /-- The wall clock is set by hand. -/
  | setWall (t : Instant)

/-- The component after an operation. -/
def operate (x : Component) : Operation → Component
  | .addService c b =>
    match x.addService c b with
    | .ok y => y
    | .error _ => x
  | .withdraw token => { x with scheduler := x.scheduler.act x.now (.withdraw token) }
  | .receive identity m => (x.receive identity m).2
  | .serve lookup p millis => (x.serve lookup p millis).2
  | .scheduleJob token => x.scheduleJob token
  | .interruptJob token => x.interruptJob token
  | .interruptAll => x.interruptAll.2
  | .prune => { x with scheduler := x.scheduler.prune.2 }
  | .settle => x.settle
  | .advance millis => x.advance millis
  | .finishJob token => x.finishJob token
  | .setWall t => { x with timeline := x.timeline.setWall t }

theorem leads_operate (x : Component) (o : Operation) : Leads x (x.operate o) := by
  cases o with
  | addService c b =>
    rw [operate]
    split
    · rename_i y hy
      exact leads_addService hy
    · exact .refl x
  | withdraw token => exact leads_of_acts [.withdraw token] rfl rfl
  | receive identity m => exact leads_receive x identity m
  | serve lookup p millis => exact leads_serve x lookup p millis
  | scheduleJob token => exact leads_scheduleJob x token
  | interruptJob token => exact leads_interruptJob x token
  | interruptAll => exact leads_interruptAll x
  | prune => exact leads_of_acts [.prune] rfl rfl
  | settle => exact leads_settle x
  | advance millis => exact leads_advance x millis
  | finishJob token => exact leads_finishJob x token
  | setWall t => exact leads_of_eq rfl (Nat.le_refl _)

theorem leads_operations (x : Component) (operations : List Operation) :
    Leads x (operations.foldl operate x) := by
  induction operations generalizing x with
  | nil => exact .refl x
  | cons o operations ih => exact (leads_operate x o).trans (ih (x.operate o))

/-- Whatever is done to a component, its scheduler has a history of actions in the order of their
moments. -/
theorem exists_history (a : Authorizer) (t : Instant) (operations : List Operation) :
    ∃ h, (operations.foldl operate (make (.empty a) t)).scheduler = (Scheduler.empty a).run h
      ∧ h.Pairwise fun e later => e.1.moment ≤ later.1.moment := by
  obtain ⟨h, hled⟩ := leads_operations (make (.empty a) t) operations
  exact ⟨h, hled.scheduler, hled.inOrder⟩

end Component

end Measurement
