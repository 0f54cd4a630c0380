/-
Which offers serve a request, and that an offer serves itself.

A scope follows an offer if it is not measured at a coarser period and one of
its bounds lies in the offer (`follows_iff`). The two periods are not read
alike: of the request that at which measurements are taken counts, and of the
offer the one that is written behind its bounds, which for a repeated scope is
that at which it recurs. A scope whose bounds are in order holds them both, so
all that can keep it from following itself are its periods: it recurs faster
than its occurrences are measured (`follows_self_iff`).

A request that is taken over unchanged from an offer has its scope and its
schema, and so it is served under the same condition
(`unchanged_request_is_served_iff`).
-/
import Measurement.Proofs.Message.Submission
import Measurement.Proofs.Scope.Delays

set_option autoImplicit false

namespace Measurement

/-! ## 1. Scopes and offers -/

namespace Scope

variable {s offer : Scope} {t u : Instant}

/-- Whether a scope is measured at a longer period than the one that an offer names. -/
def IsCoarserThan (s offer : Scope) : Prop :=
  ∃ mine theirs, s.effectivePeriod? = some mine ∧ offer.period? = some theirs ∧ theirs < mine

/-- Whether a scope recurs at a shorter period than that at which its occurrences are measured. -/
def RecursFaster (s : Scope) : Prop :=
  ∃ period inner mine, s.cadence = .every period inner ∧ inner.period = some mine ∧ period < mine

/-- Whether a scope is open on both sides. -/
def IsUnbounded (s : Scope) (t : Instant) : Prop := s.startAt t = none ∧ s.lastAt t = none

/-- Whether an instant is one of the bounds of a scope. -/
def IsBoundAt (s : Scope) (u t : Instant) : Prop := s.startAt t = some u ∨ s.lastAt t = some u

/-- The periods of a scope stand in each other's way only if it recurs. -/
theorem isCoarserThan_self_iff : s.IsCoarserThan s ↔ s.RecursFaster := by
  rw [IsCoarserThan, RecursFaster, effectivePeriod?, inner?, period?]
  cases s.cadence with
  | once period =>
    -- A plain scope is measured at the very period that it names.
    constructor
    · rintro ⟨mine, theirs, hmine, htheirs, hlt⟩
      obtain rfl : mine = theirs := Option.some.inj (hmine.symm.trans htheirs)
      exact absurd hlt (Int.lt_irrefl _)
    · rintro ⟨period, inner, mine, hcadence, -, -⟩
      cases hcadence
  | every period inner =>
    constructor
    · rintro ⟨mine, theirs, hmine, htheirs, hlt⟩
      obtain rfl : period = theirs := Option.some.inj htheirs
      exact ⟨period, inner, mine, rfl, hmine, hlt⟩
    · rintro ⟨period', inner', mine, hcadence, hmine, hlt⟩
      cases hcadence
      exact ⟨mine, period, hmine, rfl, hlt⟩
  | cron table inner =>
    constructor
    · rintro ⟨mine, theirs, -, htheirs, -⟩
      cases htheirs
    · rintro ⟨period, inner', mine, hcadence, -, -⟩
      cases hcadence

theorem follows_of_isCoarserThan (h : s.IsCoarserThan offer) : s.follows offer t = false := by
  obtain ⟨mine, theirs, hmine, htheirs, hlt⟩ := h
  rw [follows, hmine, htheirs]
  exact if_pos (decide_eq_true hlt)

/-- Of a scope that is not coarser than an offer, only the bounds count. -/
theorem follows_of_not_isCoarserThan (h : ¬ s.IsCoarserThan offer) :
    s.follows offer t = true ↔
      (s.IsUnbounded t ∧ offer.IsUnbounded t)
        ∨ ∃ u, s.IsBoundAt u t ∧ offer.contains u t = true := by
  rw [follows]
  dsimp only
  rw [if_neg]
  · simp only [IsUnbounded, IsBoundAt]
    -- One bound is enough to be in the offer, and without any the offer has to have none either.
    cases s.startAt t with
    | none =>
      cases s.lastAt t with
      | none => simp
      | some b => simp
    | some a =>
      cases s.lastAt t with
      | none => simp
      | some b => simp [or_and_right, exists_or]
  · intro hcoarser
    cases hmine : s.effectivePeriod? with
    | none =>
      rw [hmine] at hcoarser
      cases hcoarser
    | some mine =>
      cases htheirs : offer.period? with
      | none =>
        rw [hmine, htheirs] at hcoarser
        cases hcoarser
      | some theirs =>
        rw [hmine, htheirs] at hcoarser
        exact h ⟨mine, theirs, hmine, htheirs, of_decide_eq_true hcoarser⟩

/-- A scope follows an offer exactly if it is not coarser and one of its bounds lies in the offer;
a scope without bounds follows only an offer without bounds. -/
theorem follows_iff : s.follows offer t = true ↔ ¬ s.IsCoarserThan offer
    ∧ ((s.IsUnbounded t ∧ offer.IsUnbounded t)
      ∨ ∃ u, s.IsBoundAt u t ∧ offer.contains u t = true) := by
  by_cases h : s.IsCoarserThan offer
  · simp [follows_of_isCoarserThan h, h]
  · rw [follows_of_not_isCoarserThan h, and_iff_right h]

/-- A scope whose bounds are in order holds both of them. -/
theorem between_of_isBoundAt (horder : s.InOrder t) (h : s.IsBoundAt u t) : s.Between u t := by
  obtain hu | hu := h
  · refine ⟨fun a ha => ?_, fun b hb => horder u b hu hb⟩
    rw [Option.some.inj (ha.symm.trans hu)]
    exact Int.le_refl _
  · refine ⟨fun a ha => horder a u ha hu, fun b hb => ?_⟩
    rw [Option.some.inj (hb.symm.trans hu)]
    exact Int.le_refl _

/-- A scope whose bounds are in order follows itself unless it recurs faster than it is measured. -/
theorem follows_self_iff (horder : s.InOrder t) : s.follows s t = true ↔ ¬ s.RecursFaster := by
  rw [follows_iff, isCoarserThan_self_iff, and_iff_left_iff_imp]
  intro _
  by_cases hunbounded : s.IsUnbounded t
  · exact .inl ⟨hunbounded, hunbounded⟩
  · obtain ⟨u, hu⟩ : ∃ u, s.IsBoundAt u t := by
      cases hstart : s.startAt t with
      | some a => exact ⟨a, .inl hstart⟩
      | none =>
        cases hlast : s.lastAt t with
        | some b => exact ⟨b, .inr hlast⟩
        | none => exact absurd ⟨hstart, hlast⟩ hunbounded
    exact .inr ⟨u, hu, contains_of_between (between_of_isBoundAt horder hu)⟩

end Scope

/-! ## 2. Unchanged requests -/

namespace Specification

theorem schemaDigest_ofCapability (c : Capability) :
    (ofCapability c).statement.schemaDigest = c.statement.schemaDigest := by
  have hsame := Statement.SameSchema.of_blank (Statement.blank_ofCapability c)
  rw [Statement.schemaDigest, Statement.schemaDigest, hsame.schemaLines_eq]

/-- A request that is taken over unchanged from an offer is served by it at every instant at which
the bounds of the scope are in order: a plain scope with and without a period, one that recurs by a
crontab and one that recurs by a period, unless that period is shorter than the one at which the
occurrences are measured. Then the offer does not serve it. -/
theorem unchanged_request_is_served_iff (c : Capability) (t : Instant)
    (horder : c.statement.scope.InOrder t) :
    (ofCapability c).fulfills c t = true ↔ ¬ c.statement.scope.RecursFaster := by
  have hscope : (ofCapability c).scope = c.statement.scope := rfl
  rw [fulfills, schemaDigest_ofCapability, hscope, beq_self_eq_true, Bool.true_and]
  exact Scope.follows_self_iff horder

/-! ## 3. Samples -/

open Scope

/-- An offer to measure at a scope. -/
def offeredAt (s : Scope) : Capability :=
  ⟨{ (Capability.letterOffer ["b"]).statement with scope := s }⟩

/-- An hour of that evening, in which five minutes of every quarter are measured at a period. -/
def quarterly (period : Span) : Scope :=
  ⟨.fixed (thatEvening 42 0), .lasting (.ofSeconds 3600),
    .every (.ofSeconds 900) ⟨some (.ofSeconds 300), some period⟩⟩

/-- Measured every second, such an hour can be asked for as it is offered. -/
theorem seconds_of_quarters_are_served :
    read "repeat 2014-12-24 22:18:42 + 1h / 15m \x7b now + 5m / 1s \x7d"
        = .ok (quarterly (.ofSeconds 1))
      ∧ (quarterly (.ofSeconds 1)).InOrder (thatEvening 0 0)
      ∧ (ofCapability (offeredAt (quarterly (.ofSeconds 1)))).fulfills
          (offeredAt (quarterly (.ofSeconds 1))) (thatEvening 0 0) = true := by
  have horder : (quarterly (.ofSeconds 1)).InOrder (thatEvening 0 0) := by
    intro a b ha hb
    cases ha
    cases hb
    decide
  refine ⟨by decide +kernel, horder, ?_⟩
  refine (unchanged_request_is_served_iff (offeredAt (quarterly (.ofSeconds 1))) _ horder).2 ?_
  rintro ⟨period, inner, mine, hcadence, hmine, hlt⟩
  cases hcadence
  cases hmine
  revert hlt
  decide

/-- Measured every twenty minutes, so once in an occurrence, it cannot. -/
theorem slow_quarters_are_refused :
    ∃ c : Capability,
      read "repeat 2014-12-24 22:18:42 + 1h / 15m \x7b now + 5m / 20m \x7d" = .ok c.statement.scope
        ∧ c.statement.scope.InOrder (thatEvening 0 0)
        ∧ (ofCapability c).fulfills c (thatEvening 0 0) = false := by
  have hfollows : (quarterly (.ofSeconds 1200)).follows (quarterly (.ofSeconds 1200))
      (thatEvening 0 0) = false := by decide
  refine ⟨offeredAt (quarterly (.ofSeconds 1200)), by decide +kernel, ?_, ?_⟩
  · intro a b ha hb
    cases ha
    cases hb
    decide
  · exact (congrArg (_ && ·) hfollows).trans (Bool.and_false _)

end Specification

end Measurement
