/-
A cursor taken step by step.

`Occurrences.take` asks a cursor for a number of occurrences, and whoever works
through a series asks for one at a time. `Yields` is the history of the second:
what the cursor has yielded since it was opened, and where it is now. Every
answer of `take` follows from such a history and the next answer of the cursor
(`Yields.take_add`).

The cursor of a series has three answers. It is at its end if no tick is due or
the one that is due lies behind the end of the scope; else it yields the tick,
unless the calendar ends before the tick after it is found.

What a cursor has yielded since it was opened are the first occurrences of its
scope, and its next answer says whether there are more (`endsAfter_iff_of_yields`).
-/
import Measurement.Scope.Occurrences

set_option autoImplicit false

namespace Measurement

/-! ## 1. The answers of a series -/

namespace Series

variable {stride : Stride} {tick : Instant} {last : Option Instant} {inner : Inner}

theorem next_none (stride : Stride) (last : Option Instant) (inner : Inner) :
    Series.next ⟨stride, none, last, inner⟩ = .ok none := rfl

theorem next_ended {e : Instant} (stride : Stride) (inner : Inner) (h : e < tick) :
    Series.next ⟨stride, some tick, some e, inner⟩ = .ok none := by
  simp only [next, Option.any_some, decide_eq_true h, if_true]

theorem any_lt_eq_false (hend : ∀ e, last = some e → tick ≤ e) :
    (last.any fun e => e < tick) = false := by
  cases last with
  | none => rfl
  | some e =>
    rw [Option.any_some, decide_eq_false_iff_not]
    exact Int.not_lt.2 (hend e rfl)

theorem next_due {found : Option Instant} (inner : Inner) (hend : ∀ e, last = some e → tick ≤ e)
    (hfollowing : following stride tick = .ok found) :
    Series.next ⟨stride, some tick, last, inner⟩
      = .ok (some (occurrence inner tick, ⟨stride, found, last, inner⟩)) := by
  simp only [next, any_lt_eq_false hend, hfollowing, Bool.false_eq_true, if_false]
  rfl

theorem next_error {e : CalendarEnd} (inner : Inner) (hend : ∀ e, last = some e → tick ≤ e)
    (hfollowing : following stride tick = .error e) :
    Series.next ⟨stride, some tick, last, inner⟩ = .error e := by
  simp only [next, any_lt_eq_false hend, hfollowing, Bool.false_eq_true, if_false]
  rfl

/-- What a series yields is the occurrence at the tick that was due. -/
theorem of_next {s rest : Series} {o : Scope} (h : s.next = .ok (some (o, rest))) :
    ∃ tick found, s.due = some tick ∧ following s.stride tick = .ok found
      ∧ o = occurrence s.inner tick ∧ rest = { s with due := found } := by
  rw [next] at h
  cases hdue : s.due with
  | none =>
    rw [hdue] at h
    cases h
  | some tick =>
    simp only [hdue] at h
    split at h
    · cases h
    · cases hfollowing : following s.stride tick with
      | error e =>
        rw [hfollowing] at h
        cases h
      | ok found =>
        rw [hfollowing] at h
        cases h
        exact ⟨tick, found, rfl, hfollowing, rfl, rfl⟩

end Series

/-! ## 2. Steps of a cursor -/

namespace Occurrences

variable {os rest mid : Occurrences} {occ : Scope} {occs : List Scope}

theorem take_of_next_none (h : os.next = .ok none) (n : Nat) : os.take n = .ok [] := by
  cases n with
  | zero => rfl
  | succ n =>
    rw [take, h]
    rfl

theorem take_of_next_some (h : os.next = .ok (some (occ, rest))) (n : Nat) :
    os.take (n + 1) = (rest.take n).map (occ :: ·) := by
  rw [take, h]
  rfl

theorem take_of_next_error {e : CalendarEnd} (h : os.next = .error e) (n : Nat) :
    os.take (n + 1) = .error e := by
  rw [take, h]
  rfl

theorem next_series_none {s : Series} (h : s.next = .ok none) :
    (series s).next = .ok none := by
  rw [next, h]
  rfl

theorem next_series_some {s after : Series} (h : s.next = .ok (some (occ, after))) :
    (series s).next = .ok (some (occ, series after)) := by
  rw [next, h]
  rfl

theorem next_series_error {s : Series} {e : CalendarEnd} (h : s.next = .error e) :
    (series s).next = .error e := by
  rw [next, h]
  rfl

theorem of_next_series {s : Series} (h : (series s).next = .ok (some (occ, rest))) :
    ∃ after, s.next = .ok (some (occ, after)) ∧ rest = series after := by
  rw [next] at h
  cases hnext : s.next with
  | error e =>
    rw [hnext] at h
    cases h
  | ok answer =>
    rw [hnext] at h
    rcases answer with _ | ⟨first, after⟩
    · cases h
    · cases h
      exact ⟨after, rfl, rfl⟩

/-- A cursor that has yielded some occurrences, one after the other, and where it is now. -/
inductive Yields (os : Occurrences) : List Scope → Occurrences → Prop where
  | nothing : Yields os [] os
  | one {occs : List Scope} {mid rest : Occurrences} {occ : Scope} (before : Yields os occs mid)
      (step : mid.next = .ok (some (occ, rest))) : Yields os (occs ++ [occ]) rest

/-- What is taken from a cursor is what it has yielded so far and what is taken from it now. -/
theorem Yields.take_add (h : Yields os occs rest) (n : Nat) :
    os.take (occs.length + n) = (rest.take n).map (occs ++ ·) := by
  induction h generalizing n with
  | nothing =>
    rw [List.length_nil, Nat.zero_add]
    cases os.take n <;> rfl
  | @one occs mid rest occ before step ih =>
    rw [List.length_append, List.length_singleton, Nat.add_assoc, Nat.add_comm 1 n, ih,
      take_of_next_some step]
    cases rest.take n with
    | error e => rfl
    | ok more => simp [Except.map]

theorem Yields.take_length (h : Yields os occs rest) : os.take occs.length = .ok occs := by
  have htake := h.take_add 0
  rwa [Nat.add_zero, take, Except.map, List.append_nil] at htake

/-- The last step of a cursor. -/
theorem Yields.of_concat (h : os.Yields (occs ++ [occ]) rest) :
    ∃ mid, os.Yields occs mid ∧ mid.next = .ok (some (occ, rest)) := by
  generalize hall : occs ++ [occ] = all at h
  cases h with
  | nothing => simp at hall
  | @one before mid rest latest hbefore hstep =>
    obtain ⟨rfl, hlatest⟩ := List.append_inj' hall rfl
    cases hlatest
    exact ⟨mid, hbefore, hstep⟩

end Occurrences

/-! ## 3. The occurrences of a scope -/

namespace Scope

/-- The first occurrences of a scope from an instant on, at most `n` of them. -/
def firstOccurrences (s : Scope) (t : Instant) (n : Nat) : Except CalendarEnd (List Scope) := do
  let os ← Occurrences.ofScope s t
  os.take n

/-- Whether some occurrences are the first ones of a scope. -/
def BeginsWith (s : Scope) (t : Instant) (occs : List Scope) : Prop :=
  occs = [] ∨ s.firstOccurrences t occs.length = .ok occs

/-- Whether a scope has a number of occurrences and no more. -/
def EndsAfter (s : Scope) (t : Instant) (n : Nat) : Prop :=
  ∃ occs, s.firstOccurrences t (n + 1) = .ok occs ∧ occs.length = n

/-- Whether the calendar ends before the cursor of a scope has an answer to the question what comes
after a number of occurrences. -/
def BreaksAfter (s : Scope) (t : Instant) (n : Nat) : Prop :=
  ∃ e, s.firstOccurrences t (n + 1) = .error e

variable {s : Scope} {t : Instant} {os rest : Occurrences} {occs : List Scope}

theorem firstOccurrences_of_yields (hos : Occurrences.ofScope s t = .ok os)
    (h : os.Yields occs rest) (n : Nat) :
    s.firstOccurrences t (occs.length + n) = (rest.take n).map (occs ++ ·) := by
  rw [firstOccurrences, hos]
  exact h.take_add n

theorem beginsWith_of_yields (hos : Occurrences.ofScope s t = .ok os) (h : os.Yields occs rest) :
    s.BeginsWith t occs := by
  refine Or.inr ?_
  rw [firstOccurrences, hos]
  exact h.take_length

/-- The cursor of a repeated scope is that of a series. -/
theorem exists_series_of_ofScope {inner : Inner} (hinner : s.inner? = some inner)
    (hos : Occurrences.ofScope s t = .ok os) :
    ∃ series : Series, os = .series series ∧ series.inner = inner := by
  rw [Occurrences.ofScope] at hos
  rw [inner?] at hinner
  cases hcadence : s.cadence with
  | once period =>
    rw [hcadence] at hinner
    cases hinner
  | every period i =>
    rw [hcadence] at hos hinner
    cases hinner
    cases hos
    exact ⟨_, rfl, rfl⟩
  | cron table i =>
    rw [hcadence] at hos hinner
    cases hinner
    dsimp only at hos
    cases hdue : table.next (((s.startAt t).getD t).later t) with
    | error e =>
      rw [hdue] at hos
      cases hos
    | ok due =>
      rw [hdue] at hos
      cases hos
      exact ⟨_, rfl, rfl⟩

/-- All that the cursor of a repeated scope yields are occurrences at ticks. -/
theorem exists_tick_of_yields {inner : Inner} (hinner : s.inner? = some inner)
    (hos : Occurrences.ofScope s t = .ok os) (h : os.Yields occs rest) :
    (∀ o ∈ occs, ∃ tick, o = Series.occurrence inner tick)
      ∧ ∃ series : Series, rest = .series series ∧ series.inner = inner := by
  induction h with
  | nothing => exact ⟨fun o ho => (by cases ho), exists_series_of_ofScope hinner hos⟩
  | one before step ih =>
    obtain ⟨hticks, series, rfl, rfl⟩ := ih
    obtain ⟨after, hnext, rfl⟩ := Occurrences.of_next_series step
    obtain ⟨tick, found, -, -, rfl, rfl⟩ := Series.of_next hnext
    refine ⟨fun o ho => ?_, _, rfl, rfl⟩
    rcases List.mem_append.1 ho with ho | ho
    · exact hticks o ho
    · exact ⟨tick, List.mem_singleton.1 ho⟩

theorem endsAfter_iff_of_yields (hos : Occurrences.ofScope s t = .ok os)
    (h : os.Yields occs rest) : s.EndsAfter t occs.length ↔ rest.next = .ok none := by
  rw [EndsAfter, firstOccurrences_of_yields hos h]
  constructor
  · rintro ⟨all, htake, hlength⟩
    cases hnext : rest.next with
    | error e =>
      rw [Occurrences.take_of_next_error hnext] at htake
      cases htake
    | ok answer =>
      rcases answer with _ | ⟨occ, after⟩
      · rfl
      · -- One more occurrence is one too many.
        rw [Occurrences.take_of_next_some hnext, Occurrences.take] at htake
        obtain rfl := Except.ok.inj htake
        rw [List.length_append] at hlength
        simp at hlength
  · intro hnext
    rw [Occurrences.take_of_next_none hnext]
    exact ⟨occs ++ [], rfl, by rw [List.append_nil]⟩

theorem not_endsAfter_of_yields {occ : Scope} (hos : Occurrences.ofScope s t = .ok os)
    (h : os.Yields (occs ++ [occ]) rest) : ¬ s.EndsAfter t occs.length := by
  obtain ⟨mid, hbefore, hstep⟩ := h.of_concat
  rw [endsAfter_iff_of_yields hos hbefore, hstep]
  intro hnone
  cases hnone

theorem breaksAfter_of_yields {e : CalendarEnd} (hos : Occurrences.ofScope s t = .ok os)
    (h : os.Yields occs rest) (hnext : rest.next = .error e) : s.BreaksAfter t occs.length := by
  refine ⟨e, ?_⟩
  rw [firstOccurrences_of_yields hos h, Occurrences.take_of_next_error hnext]
  rfl

theorem breaksAfter_of_ofScope {e : CalendarEnd} (h : Occurrences.ofScope s t = .error e)
    (n : Nat) :
    s.BreaksAfter t n := by
  refine ⟨e, ?_⟩
  rw [firstOccurrences, h]
  rfl

end Scope

end Measurement
