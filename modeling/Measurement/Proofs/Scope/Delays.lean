/-
What the delays of a scope have to do with the instants in it.

Three readings of a scope meet when it is measured: where its bounds lie, which
instants are in it, and how long to wait for its start. A scope has delays
exactly if it has not ended (`delays_of_ended`, `delays_of_open`). The delay
until the start leads to the start, or to the instant at which it is counted if
the scope is under way by then (`add?_of_delays`). That instant is not behind
the end of the scope (`le_lastAt_of_delays`), and it is not before its start, so
it lies in the scope, provided that the scope does not end before it starts.

Nothing puts the bounds of a scope in order. A scope that ends before it starts
holds no instant at all (`not_contains_of_not_inOrder`), and it has a delay like
any other.
-/
import Measurement.Proofs.Scope.Periods

set_option autoImplicit false

namespace Measurement

/-! ## 1. Moving on by a delay -/

namespace Instant

variable {t u : Instant}

@[simp] theorem since_self (t : Instant) : t.since t = .zero := by
  simp [since, Span.zero]

/-- The span from one instant to another, added to the first, is the second. -/
theorem add?_since (ht : t.isLeap = false) (hu : u.isLeap = false) :
    t.add? (u.since t) = some u := by
  rw [add?_eq_some_iff ht]
  refine ⟨hu, ?_⟩
  have hsince := nanos_since hu ht
  omega

/-- Adding what is left of the span from one instant to another leads to the later one of them. -/
theorem add?_untilThen (ht : t.isLeap = false) (hu : u.isLeap = false) :
    t.add? (Scope.untilThen (u.since t)) = some (u.later t) := by
  have hsince := nanos_since hu ht
  have hlt : u.since t < .zero ↔ u < t := by
    change (u.since t).nanos < 0 ↔ u < t
    rw [lt_iff_nanos hu ht]
    omega
  rw [Scope.untilThen, later]
  by_cases hpast : u < t
  · rw [if_pos hpast, if_pos (hlt.2 hpast), add?_eq_some_iff ht]
    exact ⟨ht, (Int.add_zero _).symm⟩
  · rw [if_neg hpast, if_neg fun h => hpast (hlt.1 h)]
    exact add?_since ht hu

theorem le_later_right (u t : Instant) : t ≤ u.later t := by
  rw [later]
  by_cases h : u < t
  · rw [if_pos h]
    exact Int.le_refl _
  · rw [if_neg h]
    exact Int.not_lt.1 h

theorem le_later_left (u t : Instant) : u ≤ u.later t := by
  rw [later]
  by_cases h : u < t
  · rw [if_pos h]
    exact le_of_lt h
  · rw [if_neg h]
    exact Int.le_refl _

theorem isLeap_later (hu : u.isLeap = false) (ht : t.isLeap = false) :
    (u.later t).isLeap = false := by
  rw [later]
  by_cases h : u < t
  · rw [if_pos h]
    exact ht
  · rw [if_neg h]
    exact hu

theorem later_le {e : Instant} (hu : u ≤ e) (ht : t ≤ e) : u.later t ≤ e := by
  rw [later]
  by_cases h : u < t
  · rw [if_pos h]
    exact ht
  · rw [if_neg h]
    exact hu

/-- Where no leap second is involved, instants with no time between them are the same. -/
theorem nanos_since_ne_zero (ht : t.isLeap = false) (hu : u.isLeap = false) (h : t < u ∨ u < t) :
    (t.since u).nanos ≠ 0 := by
  rw [lt_iff_nanos ht hu, lt_iff_nanos hu ht] at h
  have hsince := nanos_since ht hu
  omega

end Instant

namespace Scope

variable {s : Scope} {t u : Instant}

theorem nanos_untilThen (d : Span) : (untilThen d).nanos = max 0 d.nanos := by
  rw [untilThen]
  by_cases h : d < .zero
  · rw [if_pos h]
    change d.nanos < 0 at h
    change (0 : Int) = _
    omega
  · rw [if_neg h]
    change ¬ d.nanos < 0 at h
    omega

/-! ## 2. Bounds -/

theorem isLeap_of_startAt (ht : t.isLeap = false) (htimes : ∀ u ∈ s.times, u.isLeap = false)
    {a : Instant} (ha : s.startAt t = some a) : a.isLeap = false := by
  have hleap := isLeap_startAt (s := s) ht fun u hu => htimes u (List.mem_append_left _ hu)
  rw [ha] at hleap
  exact hleap

/-- The end of a scope is the reference instant, a time that the scope names, or a sum. -/
theorem isLeap_of_lastAt (ht : t.isLeap = false) (htimes : ∀ u ∈ s.times, u.isLeap = false)
    {b : Instant} (hb : s.lastAt t = some b) : b.isLeap = false := by
  rw [lastAt] at hb
  cases hextent : s.extent with
  | point =>
    simp only [hextent] at hb
    by_cases hrepeated : s.isRepeated = true
    · rw [if_pos hrepeated] at hb
      cases hb
    · rw [if_neg hrepeated] at hb
      exact isLeap_of_startAt ht htimes hb
  | through last =>
    simp only [hextent] at hb
    cases last with
    | past => cases hb
    | future => cases hb
    | now =>
      rw [Bound.resolve, Option.some.injEq] at hb
      rw [← hb]
      exact ht
    | fixed e =>
      rw [Bound.resolve, Option.some.injEq] at hb
      rw [← hb]
      refine htimes e (List.mem_append_right _ ?_)
      rw [hextent]
      exact List.mem_singleton.2 rfl
  | lasting d =>
    simp only [hextent, Option.bind_eq_some_iff] at hb
    obtain ⟨a, ha, hsum⟩ := hb
    exact ((Instant.add?_eq_some_iff (isLeap_of_startAt ht htimes ha)).1 hsum).1

/-- Whether a scope does not end before it starts, where it has a start and an end. -/
def InOrder (s : Scope) (t : Instant) : Prop :=
  ∀ a b, s.startAt t = some a → s.lastAt t = some b → a ≤ b

/-- Whether an instant is neither before the start of a scope nor behind its end. -/
def Between (s : Scope) (u t : Instant) : Prop :=
  (∀ a, s.startAt t = some a → a ≤ u) ∧ ∀ b, s.lastAt t = some b → u ≤ b

/-- The distance to a scope is that to its start, for an instant before it, or that to its end, for
an instant behind it; otherwise there is none. -/
theorem distance_cases (s : Scope) (u t : Instant) :
    (∃ a, s.startAt t = some a ∧ u < a ∧ s.distance u t = u.since a)
      ∨ (∃ b, s.lastAt t = some b ∧ b < u ∧ s.distance u t = u.since b)
      ∨ (s.Between u t ∧ s.distance u t = .zero) := by
  by_cases hbefore : ∃ a, s.startAt t = some a ∧ u < a
  · obtain ⟨a, ha, hlt⟩ := hbefore
    refine .inl ⟨a, ha, hlt, ?_⟩
    rw [distance, ha]
    cases s.lastAt t with
    | none => exact if_pos hlt
    | some b => exact if_pos hlt
  · have hstart : ∀ a, s.startAt t = some a → ¬ u < a := fun a ha hlt => hbefore ⟨a, ha, hlt⟩
    by_cases hafter : ∃ b, s.lastAt t = some b ∧ b < u
    · obtain ⟨b, hb, hlt⟩ := hafter
      refine .inr (.inl ⟨b, hb, hlt, ?_⟩)
      rw [distance, hb]
      cases ha : s.startAt t with
      | none => exact if_pos hlt
      | some a => exact (if_neg (hstart a ha)).trans (if_pos hlt)
    · have hlast : ∀ b, s.lastAt t = some b → ¬ b < u := fun b hb hlt => hafter ⟨b, hb, hlt⟩
      refine .inr (.inr ⟨⟨?_, ?_⟩, ?_⟩)
      · exact fun a ha => Int.not_lt.1 (hstart a ha)
      · exact fun b hb => Int.not_lt.1 (hlast b hb)
      · rw [distance]
        cases ha : s.startAt t with
        | none =>
          cases hb : s.lastAt t with
          | none => rfl
          | some b => exact if_neg (hlast b hb)
        | some a =>
          cases hb : s.lastAt t with
          | none => exact if_neg (hstart a ha)
          | some b => exact (if_neg (hstart a ha)).trans (if_neg (hlast b hb))

/-- What lies between the bounds of a scope is in it. -/
theorem contains_of_between (h : s.Between u t) : s.contains u t = true := by
  obtain ⟨hstart, hlast⟩ := h
  rcases s.distance_cases u t with ⟨a, ha, hlt, -⟩ | ⟨b, hb, hlt, -⟩ | ⟨-, hzero⟩
  · exact absurd (hstart a ha) (Int.not_le.2 hlt)
  · exact absurd (hlast b hb) (Int.not_le.2 hlt)
  · rw [contains, hzero]
    rfl

/-- Where no leap second is involved, only what lies between its bounds is in a scope. -/
theorem between_of_contains (ht : t.isLeap = false) (htimes : ∀ u ∈ s.times, u.isLeap = false)
    (hu : u.isLeap = false) (h : s.contains u t = true) : s.Between u t := by
  rw [contains, beq_iff_eq] at h
  rcases s.distance_cases u t with ⟨a, ha, hlt, hdistance⟩ | ⟨b, hb, hlt, hdistance⟩ | ⟨hin, -⟩
  · rw [hdistance] at h
    have hleap := isLeap_of_startAt ht htimes ha
    exact absurd h (Instant.nanos_since_ne_zero hu hleap (.inl hlt))
  · rw [hdistance] at h
    have hleap := isLeap_of_lastAt ht htimes hb
    exact absurd h (Instant.nanos_since_ne_zero hu hleap (.inr hlt))
  · exact hin

/-- A scope that ends before it starts holds no instant. -/
theorem not_contains_of_not_inOrder (ht : t.isLeap = false)
    (htimes : ∀ u ∈ s.times, u.isLeap = false) (hu : u.isLeap = false) (h : ¬ s.InOrder t) :
    s.contains u t = false := by
  rw [← Bool.not_eq_true]
  intro hin
  obtain ⟨hstart, hlast⟩ := between_of_contains ht htimes hu hin
  refine h fun a b ha hb => ?_
  exact Int.le_trans (hstart a ha) (hlast b hb)

/-! ## 3. Delays -/

/-- A single instant ends where it starts. -/
theorem lastAt_of_point (hpoint : (s.isSingleton && !s.isRepeated) = true) :
    s.lastAt t = s.startAt t := by
  rw [Bool.and_eq_true, isSingleton, beq_iff_eq, Bool.not_eq_true'] at hpoint
  rw [lastAt, hpoint.1, hpoint.2]
  rfl

/-- A scope that has ended has no delays. -/
theorem delays_of_ended (ht : t.isLeap = false) (htimes : ∀ u ∈ s.times, u.isLeap = false)
    {e : Instant} (he : s.lastAt t = some e) (hlt : e < t) : s.delays t = (none, none) := by
  by_cases hpoint : (s.isSingleton && !s.isRepeated) = true
  · have hstart : s.startAt t = some e := (lastAt_of_point hpoint).symm.trans he
    have hpast : e.since t < .zero := by
      have heleap := isLeap_of_lastAt ht htimes he
      have hsince := Instant.nanos_since heleap ht
      rw [Instant.lt_iff_nanos heleap ht] at hlt
      change (e.since t).nanos < 0
      omega
    rw [delays, if_pos hpoint, hstart]
    exact if_pos hpast
  · rw [delays, if_neg hpoint, he]
    exact if_pos hlt

/-- The delay until the end of a scope that has not ended; there is none for a single instant. -/
def toEnd (s : Scope) (t : Instant) : Option Span :=
  if s.isSingleton && !s.isRepeated then none
  else (s.lastAt t).map fun e => untilThen (e.since t)

/-- A scope that has not ended has a delay until its start, which is what is left until then, and
one until its end if there is an end to wait for. -/
theorem delays_of_open (ht : t.isLeap = false) (htimes : ∀ u ∈ s.times, u.isLeap = false)
    (hopen : ∀ e, s.lastAt t = some e → t ≤ e) :
    s.delays t = (some (untilThen (((s.startAt t).getD t).since t)), s.toEnd t) := by
  rw [toEnd]
  by_cases hpoint : (s.isSingleton && !s.isRepeated) = true
  · have hlast : s.lastAt t = s.startAt t := lastAt_of_point hpoint
    rw [delays, if_pos hpoint, if_pos hpoint]
    cases ha : s.startAt t with
    | none =>
      -- A scope that is open into the past starts at once.
      rw [Option.getD_none, Instant.since_self]
      rfl
    | some a =>
      have haleap := isLeap_of_startAt ht htimes ha
      have hahead : ¬ a.since t < .zero := by
        have hle := hopen a (hlast.trans ha)
        have hsince := Instant.nanos_since haleap ht
        rw [Instant.le_iff_nanos ht haleap] at hle
        change ¬ (a.since t).nanos < 0
        omega
      exact if_neg hahead
  · rw [delays, if_neg hpoint, if_neg hpoint]
    cases ha : s.startAt t with
    | none =>
      rw [Option.getD_none, Instant.since_self]
      cases he : s.lastAt t with
      | none => rfl
      | some e => exact if_neg (Int.not_lt.2 (hopen e he))
    | some a =>
      cases he : s.lastAt t with
      | none => rfl
      | some e => exact if_neg (Int.not_lt.2 (hopen e he))

/-- A scope that has a delay has not ended. -/
theorem le_lastAt_of_delays (ht : t.isLeap = false) (htimes : ∀ u ∈ s.times, u.isLeap = false)
    {d : Span} (h : (s.delays t).1 = some d) {e : Instant} (he : s.lastAt t = some e) : t ≤ e := by
  apply Int.not_lt.1
  intro hlt
  rw [delays_of_ended ht htimes he hlt] at h
  cases h

/-- The delay until the start of a scope is what is left until then. -/
theorem eq_untilThen_of_delays (ht : t.isLeap = false) (htimes : ∀ u ∈ s.times, u.isLeap = false)
    {d : Span} (h : (s.delays t).1 = some d) :
    d = untilThen (((s.startAt t).getD t).since t) := by
  rw [delays_of_open ht htimes fun e he => le_lastAt_of_delays ht htimes h he] at h
  exact (Option.some.inj h).symm

/-- The delay until its start leads to the start of a scope, or nowhere if the scope is under
way. -/
theorem add?_of_delays (ht : t.isLeap = false) (htimes : ∀ u ∈ s.times, u.isLeap = false)
    {d : Span} (h : (s.delays t).1 = some d) :
    t.add? d = some (((s.startAt t).getD t).later t) := by
  have hleap := isLeap_startAt (s := s) ht fun u hu => htimes u (List.mem_append_left _ hu)
  rw [eq_untilThen_of_delays ht htimes h]
  exact Instant.add?_untilThen ht hleap

/-- The instant to which the delay until its start leads is between the bounds of a scope, if these
are in order. -/
theorem between_of_delays (ht : t.isLeap = false) (htimes : ∀ u ∈ s.times, u.isLeap = false)
    (horder : s.InOrder t) {d : Span} (h : (s.delays t).1 = some d) :
    s.Between (((s.startAt t).getD t).later t) t := by
  constructor
  · intro a ha
    rw [ha]
    exact Instant.le_later_left a t
  · intro b hb
    have hopen := le_lastAt_of_delays ht htimes h hb
    refine Instant.later_le ?_ hopen
    cases ha : s.startAt t with
    | none => exact hopen
    | some a => exact horder a b ha hb

end Scope

end Measurement
