/-
The delays of a scope are its own bounds.

Whoever measures a scope waits for its start and then for its end, and never
looks at the bounds again. That this is enough is one statement: there are
delays as long as an instant of the scope is still to come (`isOpen_iff`), the
first delay leads to the earliest such instant (`earliest_of_delays`), and the
second one, where there is an end to wait for, leads to the end
(`add?_toEnd`).

It holds for plain and for repeated scopes alike. A repeated scope whose outer
part is a single instant goes on from there, and has no end.
-/
import Measurement.Proofs.Scope.Delays

set_option autoImplicit false

namespace Measurement

namespace Scope

variable {s : Scope} {t : Instant}

/-! ## 1. What is still to come -/

/-- Whether an instant is in a scope and not before the reference instant. -/
structure Ahead (s : Scope) (t u : Instant) : Prop where
  isLeap : u.isLeap = false
  reached : t ≤ u
  inside : s.contains u t = true

/-- Whether an instant of a scope is still to come. -/
def IsOpen (s : Scope) (t : Instant) : Prop := ∃ u, s.Ahead t u

/-- No instant of a scope is still to come once its end is past. -/
theorem le_lastAt_of_isOpen (ht : t.isLeap = false) (htimes : ∀ u ∈ s.times, u.isLeap = false)
    (h : s.IsOpen t) {e : Instant} (he : s.lastAt t = some e) : t ≤ e := by
  obtain ⟨u, hu⟩ := h
  have hbetween := between_of_contains ht htimes hu.isLeap hu.inside
  exact Int.le_trans hu.reached (hbetween.2 e he)

/-! ## 2. The delay until the start -/

/-- The delay until its start leads to the earliest instant of a scope that is still to come. -/
theorem earliest_of_delays (ht : t.isLeap = false) (htimes : ∀ u ∈ s.times, u.isLeap = false)
    (horder : s.InOrder t) {d : Span} (h : (s.delays t).1 = some d) :
    ∃ u, t.add? d = some u ∧ s.Ahead t u ∧ ∀ v, s.Ahead t v → u ≤ v := by
  have hsum := add?_of_delays ht htimes h
  have hbetween := between_of_delays ht htimes horder h
  refine ⟨_, hsum, ⟨?_, Instant.le_later_right _ t, contains_of_between hbetween⟩, ?_⟩
  · exact ((Instant.add?_eq_some_iff ht).1 hsum).1
  · intro v hv
    -- Neither the start nor the reference instant is behind an instant that is still to come.
    refine Instant.later_le ?_ hv.reached
    cases ha : s.startAt t with
    | none => exact hv.reached
    | some a =>
      exact (between_of_contains ht htimes hv.isLeap hv.inside).1 a ha

/-- An instant of a scope is still to come exactly if its end is not past. -/
theorem isOpen_iff (ht : t.isLeap = false) (htimes : ∀ u ∈ s.times, u.isLeap = false)
    (horder : s.InOrder t) : s.IsOpen t ↔ ∀ e, s.lastAt t = some e → t ≤ e := by
  constructor
  · intro h e he
    exact le_lastAt_of_isOpen ht htimes h he
  · intro hopen
    have hdelays := delays_of_open ht htimes hopen
    obtain ⟨u, -, hu, -⟩ := earliest_of_delays ht htimes horder (by rw [hdelays])
    exact ⟨u, hu⟩

/-- A scope of which nothing is still to come has no delays. -/
theorem delays_of_not_isOpen (ht : t.isLeap = false) (htimes : ∀ u ∈ s.times, u.isLeap = false)
    (horder : s.InOrder t) (h : ¬ s.IsOpen t) : s.delays t = (none, none) := by
  rw [isOpen_iff ht htimes horder] at h
  push Not at h
  obtain ⟨e, he, hnot⟩ := h
  exact delays_of_ended ht htimes he (Int.not_le.1 hnot)

/-! ## 3. The delay until the end -/

/-- There is no end to wait for exactly if the scope is a single instant or has no end. -/
theorem toEnd_eq_none_iff : s.toEnd t = none
    ↔ (s.isSingleton = true ∧ s.isRepeated = false) ∨ s.lastAt t = none := by
  have hpoint : (s.isSingleton && !s.isRepeated) = true
      ↔ s.isSingleton = true ∧ s.isRepeated = false := by
    rw [Bool.and_eq_true, Bool.not_eq_true']
  rw [toEnd, ← hpoint]
  by_cases h : (s.isSingleton && !s.isRepeated) = true
  · rw [if_pos h]
    exact iff_of_true rfl (.inl h)
  · rw [if_neg h, Option.map_eq_none_iff]
    exact (or_iff_right h).symm

/-- The delay until its end leads to the end of a scope that has not ended. -/
theorem add?_toEnd (ht : t.isLeap = false) (htimes : ∀ u ∈ s.times, u.isLeap = false)
    (hopen : ∀ e, s.lastAt t = some e → t ≤ e) {d : Span} (h : s.toEnd t = some d) :
    ∃ e, s.lastAt t = some e ∧ t.add? d = some e := by
  rw [toEnd] at h
  by_cases hpoint : (s.isSingleton && !s.isRepeated) = true
  · rw [if_pos hpoint] at h
    cases h
  · rw [if_neg hpoint, Option.map_eq_some_iff] at h
    obtain ⟨e, he, rfl⟩ := h
    refine ⟨e, he, ?_⟩
    have hlater : e.later t = e := if_neg (Int.not_lt.2 (hopen e he))
    rw [Instant.add?_untilThen ht (isLeap_of_lastAt ht htimes he), hlater]

/-- Of two delays, the one that leads to the later instant is not the shorter one. -/
theorem le_of_add?_le (ht : t.isLeap = false) {d d' : Span} {u u' : Instant}
    (hd : t.add? d = some u) (hd' : t.add? d' = some u') (h : u ≤ u') : d ≤ d' := by
  obtain ⟨hu, hnanos⟩ := (Instant.add?_eq_some_iff ht).1 hd
  obtain ⟨hu', hnanos'⟩ := (Instant.add?_eq_some_iff ht).1 hd'
  rw [Instant.le_iff_nanos hu hu'] at h
  show d.nanos ≤ d'.nanos
  omega

/-! ## 4. Both delays -/

/-- A scope whose bounds are in order has no delays, and is expired, exactly if none of its instants
is still to come. Otherwise the first delay leads to the earliest such instant. The second one is
absent exactly for a single instant and for a scope without end; else it leads to the end, and is
not the shorter one. -/
theorem delays_lead_to_bounds (s : Scope) (t : Instant) (ht : t.isLeap = false)
    (htimes : ∀ u ∈ s.times, u.isLeap = false) (horder : s.InOrder t) :
    (s.delays t = (none, none) ↔ ¬ s.IsOpen t)
      ∧ (s.isExpired t = true ↔ ¬ s.IsOpen t)
      ∧ (s.IsOpen t → ∃ toStart toEnd, s.delays t = (some toStart, toEnd)
        ∧ (∃ u, t.add? toStart = some u ∧ s.Ahead t u ∧ ∀ v, s.Ahead t v → u ≤ v)
        ∧ (toEnd = none ↔ (s.isSingleton = true ∧ s.isRepeated = false) ∨ s.lastAt t = none)
        ∧ ∀ d, toEnd = some d →
          ∃ e, s.lastAt t = some e ∧ t.add? d = some e ∧ toStart ≤ d) := by
  by_cases h : s.IsOpen t
  · have hopen : ∀ e, s.lastAt t = some e → t ≤ e := (isOpen_iff ht htimes horder).1 h
    have hdelays := delays_of_open ht htimes hopen
    have hstart := earliest_of_delays ht htimes horder (by rw [hdelays])
    refine ⟨?_, ?_, fun _ => ⟨_, _, hdelays, hstart, toEnd_eq_none_iff, fun d hd => ?_⟩⟩
    · rw [hdelays]
      exact iff_of_false (fun heq => (by cases heq)) (not_not_intro h)
    · rw [isExpired, hdelays]
      exact iff_of_false (fun heq => (by cases heq)) (not_not_intro h)
    · obtain ⟨e, he, hsum⟩ := add?_toEnd ht htimes hopen hd
      obtain ⟨u, hu, hahead, -⟩ := hstart
      have hbetween := between_of_contains ht htimes hahead.isLeap hahead.inside
      exact ⟨e, he, hsum, le_of_add?_le ht hu hsum (hbetween.2 e he)⟩
  · have hdelays := delays_of_not_isOpen ht htimes horder h
    refine ⟨iff_of_true hdelays h, ?_, fun hopen => absurd hopen h⟩
    rw [isExpired, hdelays]
    exact iff_of_true rfl h

/-- A scope of eight seconds that recurs every four seconds, for three seconds each. -/
def twiceThatEvening : Scope :=
  ⟨.fixed (thatEvening 42 0), .lasting (.ofSeconds 8),
    .every (.ofSeconds 4) ⟨some (.ofSeconds 3), none⟩⟩

/-- A second and a half after its start that scope is under way, and there are six seconds and a
half left of it. -/
theorem twiceThatEvening_is_under_way :
    twiceThatEvening.delays (thatEvening 43 500000000) = (some .zero, some (.ofMillis 6500))
      ∧ twiceThatEvening.isExpired (thatEvening 43 500000000) = false
      ∧ twiceThatEvening.IsOpen (thatEvening 43 500000000) := by
  have horder : twiceThatEvening.InOrder (thatEvening 43 500000000) := by
    intro a b ha hb
    have hb' : twiceThatEvening.lastAt (thatEvening 43 500000000) = some (thatEvening 50 0) := by
      decide +kernel
    rw [hb', Option.some.injEq] at hb
    rw [show a = thatEvening 42 0 from (Option.some.inj ha).symm, ← hb]
    decide +kernel
  obtain ⟨-, hexpired, -⟩ := delays_lead_to_bounds twiceThatEvening (thatEvening 43 500000000)
    (by decide) (by decide) horder
  have hgoing : twiceThatEvening.isExpired (thatEvening 43 500000000) = false := by decide +kernel
  refine ⟨by decide +kernel, hgoing, ?_⟩
  by_contra hnot
  rw [hexpired.2 hnot] at hgoing
  cases hgoing

end Scope

end Measurement
