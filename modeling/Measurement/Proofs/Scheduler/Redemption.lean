/-
A receipt stays redeemable.

Whatever is done to a scheduler, in whatever order: each job stands under the
token that its receipt bears; who asks with a token that has a job gets its reply,
which from its end on is its outcome, and who asks with another is told that the
job is unknown; and a job is dropped only after its outcome was handed out. The
last is a statement about the past: the mark that pruning looks for was set by an
action of the history, and that action was answered with the outcome (`Delivered`).
-/
import Measurement.Proofs.Job.Outcome
import Measurement.Proofs.Scheduler.History

set_option autoImplicit false

namespace Measurement

/-! ## 1. What belongs to a job -/

/-- Whether every token in a message is `k`, and every result in it has a definite scope. -/
inductive BelongsTo (k : String) : Message → Prop where
  | receipt (r : Receipt) (own : r.token = k) : BelongsTo k (.receipt r)
  | result (r : Result) (own : r.Stamped k) : BelongsTo k (.result r)
  | exception (e : Exception) (own : e.token = some k) : BelongsTo k (.exception e)
  | envelope (rs : List Result) (own : ∀ r ∈ rs, r.Stamped k) : BelongsTo k (Progress.enveloped rs)

theorem Job.Answers.belongsTo {j : Job} {m : Message} (h : j.Answers m) : BelongsTo j.token m := by
  cases h with
  | receipt waits nothing own => exact .receipt _ own
  | partly waits series some own => exact .envelope _ own
  | failed e ends own => exact .exception e own.1
  | completed r ends plain only own => exact .result r own
  | series ends series own => exact .envelope _ own

/-- No job answers that a job is unknown. -/
theorem Job.not_answers_unknownJob (j : Job) (token : Option String) :
    ¬ j.Answers (.exception ⟨token, Scheduler.unknownJobText⟩) := by
  intro h
  cases h with
  | failed e ends own => exact own.2 rfl

namespace Scheduler

theorem receive_of_asks (x : Scheduler) (now armed : Reading) (identity : String) {m : Message}
    {k : String} (h : m.asks? = some k) :
    (x.receive now armed identity m).1 =
      ((x.jobs.get? k).map Job.reply).getD (.exception ⟨some k, unknownJobText⟩) := by
  cases m with
  | redemption r =>
    obtain rfl : r.token = k := Option.some.inj h
    rw [receive, poll]
    cases x.jobs.get? r.token <;> rfl
  | interrupt i =>
    obtain rfl : i.token = k := Option.some.inj h
    rw [receive, poll, handle, get?_changeJob, if_pos rfl]
    cases x.jobs.get? i.token <;> rfl
  | capability | specification | result | receipt | withdrawal | exception | envelope => cases h

/-! ## 2. What was handed out -/

/-- Whether a history has an action that asked for the job under a token when the job was at its
end, was answered with a message, and since which there always was a job under the token. -/
def Delivered (a : Authorizer) (h : List (Reading × Action)) (k : String) (m : Message) : Prop :=
  ∃ (before : List (Reading × Action)) (now : Reading) (ask : Action)
      (later : List (Reading × Action)) (j : Job),
    h = before ++ (now, ask) :: later ∧ ask.asks? = some k
      ∧ ((empty a).run before).jobs.get? k = some j ∧ j.isFinished = true ∧ j.reply = m
      ∧ ((empty a).run before).answer? now ask = some m
      ∧ ∀ mid rest, later = mid ++ rest →
        ((empty a).run (before ++ (now, ask) :: mid)).jobs.get? k ≠ none

theorem Delivered.concat {a : Authorizer} {h : List (Reading × Action)} {k : String} {m : Message}
    (d : Delivered a h k m) (e : Reading × Action)
    (he : ((empty a).run (h ++ [e])).jobs.get? k ≠ none) : Delivered a (h ++ [e]) k m := by
  obtain ⟨before, now, ask, later, j, rfl, hasks, hj, hfinished, hreply, hanswer, hkept⟩ := d
  refine ⟨before, now, ask, later ++ [e], j, ?_, hasks, hj, hfinished, hreply, hanswer, ?_⟩
  · rw [List.append_assoc, List.cons_append]
  · intro mid rest hsplit
    rcases List.eq_nil_or_concat rest with rfl | ⟨front, last, rfl⟩
    · rw [List.append_nil] at hsplit
      rw [← hsplit]
      rwa [List.append_assoc, List.cons_append] at he
    · rw [List.concat_eq_append, ← List.append_assoc] at hsplit
      exact hkept mid front (List.append_inj_left' hsplit rfl)

/-- The outcome of a job that counts as collected was handed out. The induction is on the history:
the mark is set by the last action, which then was answered with the outcome, or it was there
before, and the outcome is the same since. -/
theorem delivered_of_collected (a : Authorizer) (h : List (Reading × Action)) {k : String} {j : Job}
    (hj : ((empty a).run h).jobs.get? k = some j) (hc : j.progress.collected = true) :
    Delivered a h k j.reply := by
  induction h using List.reverseRecOn generalizing j with
  | nil =>
    rw [run, List.foldl_nil, empty, Table.get?_empty] at hj
    cases hj
  | append_singleton h e ih =>
    have hin : ((empty a).run (h ++ [e])).jobs.get? k ≠ none := by
      rw [hj]
      exact Option.some_ne_none j
    have hfinished : j.isFinished = true := (owned_of_get? a _ hj).collected hc
    rw [run_concat] at hj
    have hfate := fate ((empty a).run h) e.1 k e.2
    rw [hj] at hfate
    generalize hbefore : ((empty a).run h).jobs.get? k = o at hfate ih
    cases hfate with
    | admitted armed identity s v arrives admits key =>
      rw [← Job.act, Job.collected_act _ _ (by rintro ⟨⟩)] at hc
      exact Bool.noConfusion hc
    | kept i acts asked =>
      rcases Job.collected_run hc with hi | hpoll
      · -- It was collected before, and the reply that was handed out is the one for good.
        have hend : i.isFinished = true := (owned_of_get? a h hbefore).collected hi
        rw [(Job.run_of_isFinished hend _).2]
        exact (ih rfl hi).concat e hin
      · -- It is collected now, by an action that is answered with the reply.
        obtain ⟨hasks, hanswer, hsame⟩ := asked hpoll
        have hend : i.isFinished = true := hsame.symm.trans hfinished
        rw [(Job.run_of_isFinished hend _).2]
        refine ⟨h, e.1, e.2, [], i, rfl, hasks, hbefore, hend, rfl, hanswer, ?_⟩
        intro mid rest hsplit
        obtain ⟨rfl, rfl⟩ := List.append_eq_nil_iff.1 hsplit.symm
        exact hin

/-! ## 3. Receipts -/

/-- The reply of every job in the table says how far it has come. -/
theorem answers_of_get? (a : Authorizer) (h : List (Reading × Action)) {k : String} {j : Job}
    (hj : ((empty a).run h).jobs.get? k = some j) : j.Answers j.reply := by
  obtain ⟨o, -⟩ := origin_of_get? a h hj
  apply Job.answers_reply o.owned
  intro hplain
  rw [o.specification_eq] at hplain
  have hsingle := Job.single_run o.service (pinned o.specification o.now.wall) hplain
    ((o.armed, .schedule) :: o.acts)
  rw [o.eq]
  exact hsingle

/-- After any history (`Scheduler::receive_message`): every job stands under its token, which its
receipt bears, and its reply tells how far it has come. Who asks with a token is told that the job
is unknown exactly if there is none, and otherwise gets the reply of the job, in which every token
is that one and every result has a definite scope. And whatever is done next, a job stays, with the
results it has and once it is at its end with the reply it has, unless it is pruned; then it is at
its end, and that reply was handed out. -/
theorem receipts_stay_redeemable (a : Authorizer) (h : List (Reading × Action)) :
    let x := (empty a).run h
    (∀ k j, x.jobs.get? k = some j →
        j.token = k ∧ j.receipt.token = k ∧ j.Answers j.reply ∧ BelongsTo k j.reply)
      ∧ (∀ k now armed identity (m : Message), m.asks? = some k →
        ((x.receive now armed identity m).1 = .exception ⟨some k, unknownJobText⟩
            ↔ x.jobs.get? k = none)
          ∧ ∀ j, x.jobs.get? k = some j → (x.receive now armed identity m).1 = j.reply)
      ∧ ∀ k j now act, x.jobs.get? k = some j →
        (∃ i, (x.act now act).jobs.get? k = some i ∧ i.specification = j.specification
            ∧ j.progress.results <+: i.progress.results
            ∧ (j.isFinished = true → i.isFinished = true ∧ i.reply = j.reply))
          ∨ ((x.act now act).jobs.get? k = none ∧ act = .prune ∧ j.isFinished = true
            ∧ Delivered a h k j.reply) := by
  intro x
  refine ⟨?_, ?_, ?_⟩
  · intro k j hj
    have htoken : j.token = k := token_of_get? a h hj
    have hanswers : j.Answers j.reply := answers_of_get? a h hj
    have hown : BelongsTo k j.reply := by
      rw [← htoken]
      exact hanswers.belongsTo
    exact ⟨htoken, j.token_receipt.trans htoken, hanswers, hown⟩
  · intro k now armed identity m hm
    rw [receive_of_asks x now armed identity hm]
    cases hj : x.jobs.get? k with
    | none =>
      refine ⟨⟨fun _ => rfl, fun _ => rfl⟩, ?_⟩
      intro j hj
      cases hj
    | some j =>
      refine ⟨⟨?_, fun hnone => absurd hnone (Option.some_ne_none j)⟩, ?_⟩
      · intro hunknown
        have hanswers : j.Answers j.reply := answers_of_get? a h hj
        have hreply : j.reply = .exception ⟨some k, unknownJobText⟩ := hunknown
        rw [hreply] at hanswers
        exact absurd hanswers (j.not_answers_unknownJob _)
      · intro i hi
        cases hi
        rfl
  · intro k j now act hj
    have hfate := fate x now k act
    rw [hj] at hfate
    generalize (x.act now act).jobs.get? k = after at hfate
    cases hfate with
    | kept j acts asked =>
      refine .inl ⟨_, rfl, (Job.sameOrder_run _ _).2, Job.results_run _ _, ?_⟩
      intro hfinished
      exact Job.run_of_isFinished hfinished _
    | pruned j prunes spent =>
      rw [isSpent, Bool.and_eq_true] at spent
      exact .inr ⟨rfl, prunes, spent.1, delivered_of_collected a h hj spent.2⟩

end Scheduler

end Measurement
