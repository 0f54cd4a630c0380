/-
What callers see of a progress, whatever order things happen in.

A progress changes by single writes: its state is set, a result is added, it
completes with a result, or it fails. Between any two writes, and before the
first and after the last, any number of callers can ask for a reply. So a
history of a progress is a row of moments, each a write or a poll, and what
callers were told is the row of replies at its polls.

A write that does not set a state back moves it forward, and the end is for good
(`precedes_write`). Replies do not depend on that: they only move forward if no
job is completed without a result but a series, in whatever order its writes come
(`forward_of_lawful`): the receipt, then growing envelopes, then one answer and
its repetitions.
-/
import Measurement.Job.Progress

set_option autoImplicit false

namespace Measurement

/-! ## 1. States -/

namespace JobState

/-- How far a state lies on the way from pending to the end. -/
def stage : JobState → Nat
  | pending => 0
  | scheduled => 1
  | running => 2
  | completed | failed _ => 3

/-- Whether a job that is in state `a` may be in state `b` later: it does not go back, and an end
is for good. -/
def Precedes (a b : JobState) : Prop := a.stage ≤ b.stage ∧ (a.isTerminal = true → b = a)

theorem Precedes.refl (a : JobState) : a.Precedes a := ⟨Nat.le_refl _, fun _ => rfl⟩

theorem Precedes.trans {a b c : JobState} (h : a.Precedes b) (k : b.Precedes c) :
    a.Precedes c := by
  refine ⟨Nat.le_trans h.1 k.1, ?_⟩
  intro ha
  have hb : b = a := h.2 ha
  subst hb
  exact k.2 ha

theorem stage_le_of_isTerminal {a b : JobState} (h : b.isTerminal = true) : a.stage ≤ b.stage := by
  cases a <;> cases b <;> simp_all [stage, isTerminal]

end JobState

namespace Progress

/-! ## 2. Moments -/

/-- One change of a progress. A caller sees what was before it or what is after it. -/
inductive Write where
  | transition (state : JobState)
  | push (r : Result)
  | complete (r : Result)
  | fail (token message : String)
deriving DecidableEq

/-- One thing that happens to a progress. -/
inductive Moment where
  | write (w : Write)
  /-- A caller asks for a reply. -/
  | poll

/-- The progress after a write. -/
def write (p : Progress) : Write → Progress
  | .transition state => p.transition state
  | .push r => p.push r
  | .complete r => p.complete r
  | .fail token message => p.fail token message

/-- The progress after a moment. -/
def pass (p : Progress) : Moment → Progress
  | .write w => p.write w
  | .poll => p.poll

/-- The progress after a row of moments. -/
def after (p : Progress) (ms : List Moment) : Progress := ms.foldl pass p

/-- The writes of a row of moments. -/
def writes (ms : List Moment) : List Write :=
  ms.filterMap fun m => match m with
    | .write w => some w
    | .poll => none

/-- What callers are told: at every poll the reply, with whether the job was at its end then. -/
def told (receipt : Receipt) (repeated : Bool) (p : Progress) : List Moment → List (Bool × Message)
  | [] => []
  | .poll :: ms => (p.isFinished, p.reply receipt repeated) :: told receipt repeated p.poll ms
  | .write w :: ms => told receipt repeated (p.write w) ms

/-! ## 3. Lawful writes -/

/-- Whether a job may write this now: only a series ends without the result that ends it. At the
end anything may be written, since nothing comes of it. -/
def Allowed (repeated : Bool) (p : Progress) : Write → Prop
  | .transition state => p.isFinished = false → state = .completed → repeated = true
  | _ => True

/-- Whether a job may make these writes, one after the other. -/
def Lawful (repeated : Bool) : Progress → List Write → Prop
  | _, [] => True
  | p, w :: ws => Allowed repeated p w ∧ Lawful repeated (p.write w) ws

/-- A job that is no series has a result when it is completed. -/
def Sound (repeated : Bool) (p : Progress) : Prop :=
  p.state = .completed → repeated = false → p.results ≠ []

theorem sound_initial (repeated : Bool) : Sound repeated initial := by
  intro h
  exact absurd h (by decide)

@[simp] theorem state_poll (p : Progress) : p.poll.state = p.state := rfl

@[simp] theorem results_poll (p : Progress) : p.poll.results = p.results := rfl

theorem write_of_isFinished {p : Progress} (h : p.isFinished = true) (w : Write) :
    p.write w = p := by
  cases w <;> simp [write, transition, push, complete, fail, h]

/-- The writes see of a progress only its state and its results. -/
theorem write_congr {p q : Progress} (hs : p.state = q.state) (hr : p.results = q.results)
    (w : Write) : (p.write w).state = (q.write w).state ∧ (p.write w).results = (q.write w).results
    := by
  have hf : p.isFinished = q.isFinished := by rw [isFinished, isFinished, hs]
  cases hq : q.isFinished
  · rw [hq] at hf
    cases w <;> simp [write, transition, push, complete, fail, hf, hq, hs, hr]
  · rw [write_of_isFinished (hf.trans hq), write_of_isFinished hq]
    exact ⟨hs, hr⟩

theorem results_write (p : Progress) (w : Write) : p.results <+: (p.write w).results := by
  cases h : p.isFinished
  · cases w <;> simp [write, transition, push, complete, fail, h]
  · simp [write_of_isFinished h]

theorem results_after (p : Progress) (ms : List Moment) : p.results <+: (p.after ms).results := by
  induction ms generalizing p with
  | nil => exact List.prefix_rfl
  | cons m ms ih =>
    cases m with
    | write w => exact (results_write p w).trans (ih (p.write w))
    | poll => exact ih p.poll

theorem after_of_isFinished {p : Progress} (h : p.isFinished = true) (ms : List Moment) :
    (p.after ms).state = p.state ∧ (p.after ms).results = p.results := by
  induction ms generalizing p with
  | nil => exact ⟨rfl, rfl⟩
  | cons m ms ih =>
    cases m with
    | write w =>
      have hw : p.after (.write w :: ms) = (p.write w).after ms := rfl
      rw [hw, write_of_isFinished h]
      exact ih h
    | poll => exact ih (p := p.poll) h

theorem lawful_congr {repeated : Bool} {p q : Progress} {ws : List Write}
    (hs : p.state = q.state) (hr : p.results = q.results) (h : Lawful repeated p ws) :
    Lawful repeated q ws := by
  induction ws generalizing p q with
  | nil => trivial
  | cons w ws ih =>
    obtain ⟨hw, hws⟩ := h
    obtain ⟨hs', hr'⟩ := write_congr hs hr w
    refine ⟨?_, ih hs' hr' hws⟩
    cases w with
    | transition state =>
      intro hq
      exact hw (by rw [isFinished, hs]; exact hq)
    | push r => trivial
    | complete r => trivial
    | fail token message => trivial

theorem lawful_poll {repeated : Bool} {p : Progress} {ws : List Write}
    (h : Lawful repeated p ws) : Lawful repeated p.poll ws :=
  lawful_congr (state_poll p).symm (results_poll p).symm h

/-! ## 4. States only move forward -/

/-- Whether a write sets the state of a progress back. -/
def Write.SetsBack (p : Progress) : Write → Prop
  | .transition state => p.isFinished = false ∧ state.stage < p.state.stage
  | _ => False

theorem precedes_write {p : Progress} {w : Write} (h : ¬ w.SetsBack p) :
    p.state.Precedes (p.write w).state := by
  cases hf : p.isFinished
  · refine ⟨?_, fun ht => absurd (hf.symm.trans ht) (by decide)⟩
    cases w with
    | transition state =>
      rw [Write.SetsBack, not_and, Nat.not_lt] at h
      simpa [write, transition, hf] using h hf
    | push r => simp [write, push, hf]
    | complete r =>
      simp only [write, complete, hf]
      exact JobState.stage_le_of_isTerminal rfl
    | fail token message =>
      simp only [write, fail, hf]
      exact JobState.stage_le_of_isTerminal rfl
  · rw [write_of_isFinished hf]
    exact JobState.Precedes.refl _

/-! ## 5. Replies only move forward -/

theorem sound_write {repeated : Bool} {p : Progress} {w : Write} (hp : Sound repeated p)
    (h : Allowed repeated p w) : Sound repeated (p.write w) := by
  cases hf : p.isFinished
  · cases w with
    | transition state =>
      intro hc hr
      have hs : state = .completed := by simpa [write, transition, hf] using hc
      rw [h hf hs] at hr
      exact absurd hr (by decide)
    | push r =>
      intro _ _
      simp [write, push, hf]
    | complete r =>
      intro _ _
      simp [write, complete, hf]
    | fail token message =>
      intro hc
      simp [write, fail, hf] at hc
  · rw [write_of_isFinished hf]
    exact hp

/-- An envelope of results, which is how a series answers. -/
def enveloped (rs : List Result) : Message := .envelope .message (rs.map .result)

/-- What a job can answer for good after envelopes with the contents `parts`. -/
inductive Concludes (repeated : Bool) (parts : List (List Result)) : Message → Prop where
  | exception (e : Exception) : Concludes repeated parts (.exception e)
  | result (r : Result) (plain : repeated = false) : Concludes repeated parts (.result r)
  | envelope (rs : List Result) (series : repeated = true) (grown : ∀ part ∈ parts, part <+: rs) :
    Concludes repeated parts (enveloped rs)

/-- Fewer and shorter envelopes before an answer leave it as good an answer. -/
theorem Concludes.anti {repeated : Bool} {parts shorter : List (List Result)} {m : Message}
    (h : Concludes repeated parts m) (k : ∀ part ∈ shorter, ∃ other ∈ parts, part <+: other) :
    Concludes repeated shorter m := by
  cases h with
  | exception e => exact .exception e
  | result r plain => exact .result r plain
  | envelope rs series grown =>
    refine .envelope rs series fun part hpart => ?_
    obtain ⟨other, hother, hle⟩ := k part hpart
    exact hle.trans (grown other hother)

/-- Replies that only move forward. Callers got the receipt some number of times, then, from a
series, envelopes whose contents grow at their end, and all this before the job's end; from the end
on they got one answer, the same every time. -/
def Forward (receipt : Receipt) (repeated : Bool) (replies : List (Bool × Message)) : Prop :=
  ∃ (waiting : Nat) (parts : List (List Result)) (ends : Nat) (last : Message),
    replies = List.replicate waiting (false, .receipt receipt)
        ++ parts.map (fun rs => (false, enveloped rs)) ++ List.replicate ends (true, last)
      ∧ (parts ≠ [] → repeated = true) ∧ parts.Pairwise (· <+: ·)
      ∧ (ends ≠ 0 → Concludes repeated parts last)

section Replies

variable (receipt : Receipt) {repeated : Bool} {p : Progress}

theorem reply_of_waiting (h : p.isFinished = false) (hr : repeated = false ∨ p.results = []) :
    p.reply receipt repeated = .receipt receipt := by
  cases p with
  | mk state results polled collected =>
    cases state <;> rcases hr with rfl | hr <;> simp_all [isFinished, JobState.isTerminal, reply]

theorem reply_of_series (h : p.isFinished = false) (hr : p.results ≠ []) :
    p.reply receipt true = enveloped p.results := by
  cases p with
  | mk state results polled collected =>
    cases state <;> simp_all [isFinished, JobState.isTerminal, reply, enveloped]

/-- The answer at the end. The receipt would be one if a job could be completed without a result. -/
theorem concludes_reply (h : p.isFinished = true) (hp : Sound repeated p)
    {parts : List (List Result)} (hparts : ∀ part ∈ parts, part <+: p.results) :
    Concludes repeated parts (p.reply receipt repeated) := by
  cases p with
  | mk state results polled collected =>
    cases state with
    | pending => exact Bool.noConfusion h
    | scheduled => exact Bool.noConfusion h
    | running => exact Bool.noConfusion h
    | failed e => exact .exception e
    | completed =>
      cases repeated with
      | true => exact .envelope results rfl hparts
      | false =>
        cases results with
        | nil => exact absurd rfl (hp rfl rfl)
        | cons r rs => exact .result r rfl

theorem told_of_isFinished (repeated : Bool) (h : p.isFinished = true) (ms : List Moment) :
    ∃ n, told receipt repeated p ms = List.replicate n (true, p.reply receipt repeated) := by
  induction ms generalizing p with
  | nil => exact ⟨0, rfl⟩
  | cons m ms ih =>
    cases m with
    | write w =>
      rw [told, write_of_isFinished h]
      exact ih h
    | poll =>
      obtain ⟨n, hn⟩ := ih (p := p.poll) h
      refine ⟨n + 1, ?_⟩
      rw [told, hn, h, List.replicate_succ]
      rfl

/-- A series that has a result and is not at its end. The envelopes start from the results at hand,
so those are part of what the induction has to remember. -/
theorem told_of_series (h : p.isFinished = false) (hr : p.results ≠ []) (ms : List Moment) :
    ∃ (parts : List (List Result)) (ends : Nat) (last : Message),
      told receipt true p ms = parts.map (fun rs => (false, enveloped rs))
          ++ List.replicate ends (true, last)
        ∧ parts.Pairwise (· <+: ·) ∧ (∀ part ∈ parts, p.results <+: part)
        ∧ (ends ≠ 0 → Concludes true (p.results :: parts) last) := by
  induction ms generalizing p with
  | nil => exact ⟨[], 0, .receipt receipt, rfl, .nil, by simp, fun hn => absurd rfl hn⟩
  | cons m ms ih =>
    cases m with
    | write w =>
      have hgrown : p.results <+: (p.write w).results := results_write p w
      rw [told]
      cases hw : (p.write w).isFinished
      · have hne : (p.write w).results ≠ [] := by
          intro he
          rw [he, List.prefix_nil] at hgrown
          exact hr hgrown
        obtain ⟨parts, ends, last, htold, hparts, hfrom, hlast⟩ := ih hw hne
        refine ⟨parts, ends, last, htold, hparts, fun part hpart => hgrown.trans (hfrom part hpart),
          fun hn => (hlast hn).anti fun part hpart => ?_⟩
        rw [List.mem_cons] at hpart
        rcases hpart with rfl | hpart
        · exact ⟨_, List.mem_cons_self, hgrown⟩
        · exact ⟨part, List.mem_cons_of_mem _ hpart, List.prefix_rfl⟩
      · -- The write ends the series, so no envelope follows and one answer is all that is told.
        obtain ⟨n, hn⟩ := told_of_isFinished receipt true hw ms
        refine ⟨[], n, _, by rw [hn]; rfl, .nil, by simp, fun _ => ?_⟩
        refine concludes_reply receipt hw (fun _ hf => absurd hf (by decide)) fun part hpart => ?_
        rw [List.mem_singleton] at hpart
        rw [hpart]
        exact hgrown
    | poll =>
      -- The envelope that is told now goes in front of the others, all of which hold its contents.
      obtain ⟨parts, ends, last, htold, hparts, hfrom, hlast⟩ := ih (p := p.poll) h hr
      refine ⟨p.results :: parts, ends, last, ?_, List.pairwise_cons.2 ⟨hfrom, hparts⟩, ?_, ?_⟩
      · rw [told, htold, h, reply_of_series receipt h hr]
        rfl
      · intro part hpart
        rw [List.mem_cons] at hpart
        rcases hpart with rfl | hpart
        · exact List.prefix_rfl
        · exact hfrom part hpart
      · intro hn
        refine (hlast hn).anti fun part hpart => ⟨part, ?_, List.prefix_rfl⟩
        simpa using hpart

/-- Whatever a lawful progress goes through, and whenever callers ask, the replies only move
forward. The induction is on the moments: before the first result of a series there is nothing to
remember, and what follows it is `told_of_series`. -/
theorem forward_of_lawful {ms : List Moment} (hp : Sound repeated p)
    (h : Lawful repeated p (writes ms)) :
    Forward receipt repeated (told receipt repeated p ms) := by
  induction ms generalizing p with
  | nil => exact ⟨0, [], 0, .receipt receipt, rfl, by simp, .nil, fun hn => absurd rfl hn⟩
  | cons m ms ih =>
    cases m with
    | write w => exact ih (sound_write hp h.1) h.2
    | poll =>
      by_cases hf : p.isFinished = true
      · obtain ⟨n, hn⟩ := told_of_isFinished receipt repeated hf (.poll :: ms)
        exact ⟨0, [], n, _, hn, by simp, .nil, fun _ => concludes_reply receipt hf hp (by simp)⟩
      · rw [Bool.not_eq_true] at hf
        by_cases hs : repeated = false ∨ p.results = []
        · -- There is nothing but the receipt to tell yet.
          obtain ⟨waiting, parts, ends, last, htold, hseries, hparts, hlast⟩ :=
            ih (p := p.poll) hp (lawful_poll h)
          refine ⟨waiting + 1, parts, ends, last, ?_, hseries, hparts, hlast⟩
          rw [told, htold, hf, reply_of_waiting receipt hf hs, List.replicate_succ]
          rfl
        · rw [not_or, Bool.not_eq_false] at hs
          obtain ⟨rfl, hne⟩ := hs
          obtain ⟨parts, ends, last, htold, hparts, -, hlast⟩ :=
            told_of_series receipt hf hne (.poll :: ms)
          refine ⟨0, parts, ends, last, htold, fun _ => rfl, hparts, fun hn => ?_⟩
          exact (hlast hn).anti fun part hpart =>
            ⟨part, List.mem_cons_of_mem _ hpart, List.prefix_rfl⟩

end Replies

end Progress

end Measurement
