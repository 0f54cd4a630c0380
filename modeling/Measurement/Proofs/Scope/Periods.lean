/-
The ticks of a scope that a period repeats.

The ticks are the instants a whole number of periods after the start of the
scope (`IsTick`). A cursor goes from one to the next, so once it is at a tick it
yields that tick and all later ones, up to the end of the scope or of the
calendar (`exists_ticks`).

Where it begins is another matter. The first tick is found in whole
milliseconds, and what has passed since the start of the scope is cut down to
them. So a tick that lies less than a millisecond before the reference instant
counts as not yet past (`exists_firstTick`), and the cursor yields it although
it is over.
-/
import Measurement.Proofs.Scope.Series
import Measurement.Proofs.Scope.Text
import Measurement.Proofs.Time.Instant

set_option autoImplicit false

namespace Measurement

/-! ## 1. Ticks -/

/-- Whether an instant lies a whole number of periods after another. -/
def Instant.IsTick (anchor : Instant) (period : Span) (u : Instant) : Prop :=
  ∃ k : Nat, anchor.add? ⟨k * period.nanos⟩ = some u

namespace Instant

variable {anchor u : Instant} {period : Span}

theorem isTick_iff_nanos (h : anchor.isLeap = false) :
    anchor.IsTick period u
      ↔ u.isLeap = false ∧ ∃ k : Nat, u.nanos = anchor.nanos + k * period.nanos := by
  simp only [IsTick, add?_eq_some_iff h, exists_and_left]

theorem isTick_self (h : anchor.isLeap = false) (period : Span) : anchor.IsTick period anchor :=
  (isTick_iff_nanos h).2 ⟨h, 0, by omega⟩

theorem le_of_isTick (h : anchor.isLeap = false) (hperiod : 0 < period.nanos)
    (hu : anchor.IsTick period u) : anchor ≤ u := by
  obtain ⟨hleap, k, hk⟩ := (isTick_iff_nanos h).1 hu
  have hsteps : 0 ≤ k * period.nanos := Int.mul_nonneg (Int.natCast_nonneg k) (Int.le_of_lt hperiod)
  rw [le_iff_nanos h hleap]
  omega

/-- A tick is the first one or a tick of the second one. -/
theorem isTick_iff_of_next {s : Instant} (h : anchor.isLeap = false)
    (hs : anchor.add? period = some s) :
    anchor.IsTick period u ↔ u = anchor ∨ s.IsTick period u := by
  obtain ⟨hsleap, hnanos⟩ := (add?_eq_some_iff h).1 hs
  rw [isTick_iff_nanos h, isTick_iff_nanos hsleap]
  constructor
  · rintro ⟨hleap, k, hk⟩
    cases k with
    | zero => exact Or.inl (eq_of_nanos_eq hleap h (by omega))
    | succ k =>
      refine Or.inr ⟨hleap, k, ?_⟩
      rw [Int.natCast_succ, Int.add_mul] at hk
      omega
  · rintro (rfl | ⟨hleap, k, hk⟩)
    · exact ⟨h, 0, by omega⟩
    · refine ⟨hleap, k + 1, ?_⟩
      rw [Int.natCast_succ, Int.add_mul]
      omega

/-- The last tick of the calendar is the only one from it on. -/
theorem isTick_iff_of_last (h : anchor.isLeap = false) (hperiod : 0 < period.nanos)
    (hnone : anchor.add? period = none) : anchor.IsTick period u ↔ u = anchor := by
  constructor
  · intro hu
    obtain ⟨hleap, k, hk⟩ := (isTick_iff_nanos h).1 hu
    cases k with
    | zero => exact eq_of_nanos_eq hleap h (by omega)
    | succ k =>
      rw [Int.natCast_succ, Int.add_mul] at hk
      have hsteps : 0 ≤ k * period.nanos :=
        Int.mul_nonneg (Int.natCast_nonneg k) (Int.le_of_lt hperiod)
      obtain ⟨s, hs⟩ := exists_add? (d := period) h hleap (Int.le_of_lt hperiod) (by omega)
      rw [hnone] at hs
      cases hs
  · rintro rfl
    exact isTick_self h period

/-- The ticks of a tick are the later ones. -/
theorem isTick_iff_of_add? {tick : Instant} {m : Nat} (h : anchor.isLeap = false)
    (htick : anchor.add? ⟨m * period.nanos⟩ = some tick) :
    tick.IsTick period u ↔ ∃ k : Nat, anchor.add? ⟨k * period.nanos⟩ = some u ∧ m ≤ k := by
  obtain ⟨hleap, hnanos⟩ := (add?_eq_some_iff h).1 htick
  rw [isTick_iff_nanos hleap]
  simp only [add?_eq_some_iff h]
  constructor
  · rintro ⟨huleap, k, hk⟩
    refine ⟨m + k, ⟨huleap, ?_⟩, Nat.le_add_right m k⟩
    rw [hk, hnanos, Int.natCast_add, Int.add_mul, Int.add_assoc]
  · rintro ⟨k, ⟨huleap, hk⟩, hle⟩
    simp only at hnanos
    refine ⟨huleap, k - m, ?_⟩
    rw [hk, hnanos, Int.natCast_sub hle, Int.sub_mul]
    omega

/-- Behind a multiple of the period that is no instant there is no tick. -/
theorem lt_of_add?_eq_none {m k : Nat} (h : anchor.isLeap = false) (hperiod : 0 < period.nanos)
    (hnone : anchor.add? ⟨m * period.nanos⟩ = none)
    (hu : anchor.add? ⟨k * period.nanos⟩ = some u) : k < m := by
  obtain ⟨hleap, hnanos⟩ := (add?_eq_some_iff h).1 hu
  by_cases hlt : k < m
  · exact hlt
  · have hsteps : 0 ≤ m * period.nanos :=
      Int.mul_nonneg (Int.natCast_nonneg m) (Int.le_of_lt hperiod)
    have hmono : m * period.nanos ≤ k * period.nanos :=
      Int.mul_le_mul_of_nonneg_right (by omega) (Int.le_of_lt hperiod)
    have hbefore : anchor.nanos + m * period.nanos ≤ u.nanos := by
      simp only at hnanos
      omega
    obtain ⟨s, hs⟩ := exists_add? (d := ⟨m * period.nanos⟩) h hleap hsteps hbefore
    rw [hnone] at hs
    cases hs

end Instant

namespace Span

/-! ## 2. From a tick on -/

/-- The ticks of a period, the first of which is `due`, to the end `last`. -/
def series (period : Span) (due last : Option Instant) (inner : Inner) : Occurrences :=
  .series ⟨.period period, due, last, inner⟩

theorem take_series_none (period : Span) (last : Option Instant) (inner : Inner) (n : Nat) :
    (period.series none last inner).take n = .ok [] :=
  Occurrences.take_of_next_none (Occurrences.next_series_none (Series.next_none _ last inner)) n

/-- A cursor that is at a tick yields it and every later one, in order and once each, up to the end
of the scope, and then nothing. -/
theorem exists_ticks {period : Span} (hperiod : 0 < period.nanos) (last : Option Instant)
    (inner : Inner) (tick : Instant) (hleap : tick.isLeap = false) :
    ∃ ticks : List Instant, ticks.Pairwise (· < ·)
      ∧ (∀ u, u ∈ ticks ↔ tick.IsTick period u ∧ ∀ e, last = some e → u ≤ e)
      ∧ ∀ n, (period.series (some tick) last inner).take n
        = .ok ((ticks.take n).map (Series.occurrence inner)) := by
  -- Every tick leaves less room before the end of the calendar.
  generalize hroom : (Instant.nanosOfEnd - tick.nanos).toNat = room
  induction room using Nat.strongRecOn generalizing tick with
  | ind room ih =>
    by_cases hended : ∃ e, last = some e ∧ e < tick
    · obtain ⟨e, rfl, hlt⟩ := hended
      refine ⟨[], List.Pairwise.nil, fun u => ?_, fun n => ?_⟩
      · refine ⟨fun hu => (by cases hu), fun ⟨hu, hend⟩ => ?_⟩
        have hle := Int.le_trans (Instant.le_of_isTick hleap hperiod hu) (hend e rfl)
        exact absurd hlt (Int.not_lt.2 hle)
      · rw [List.take_nil]
        exact Occurrences.take_of_next_none
          (Occurrences.next_series_none (Series.next_ended _ inner hlt)) n
    · have hend : ∀ e, last = some e → tick ≤ e := fun e he =>
        Int.not_lt.1 fun hlt => hended ⟨e, he, hlt⟩
      have hstep : (period.series (some tick) last inner).next = .ok (some
          (Series.occurrence inner tick, period.series (tick.add? period) last inner)) :=
        Occurrences.next_series_some (Series.next_due inner hend rfl)
      cases hnext : tick.add? period with
      | none =>
        rw [hnext] at hstep
        refine ⟨[tick], List.pairwise_singleton _ _, fun u => ?_, fun n => ?_⟩
        · rw [List.mem_singleton, Instant.isTick_iff_of_last hleap hperiod hnext]
          exact ⟨fun hu => ⟨hu, hu ▸ hend⟩, And.left⟩
        · cases n with
          | zero => rfl
          | succ n =>
            rw [Occurrences.take_of_next_some hstep, take_series_none]
            simp [Except.map]
      | some s =>
        rw [hnext] at hstep
        obtain ⟨hsleap, hnanos⟩ := (Instant.add?_eq_some_iff hleap).1 hnext
        have hbefore := Instant.nanos_lt_nanosOfEnd hleap
        obtain ⟨ticks, hascending, hmem, htake⟩ := ih _ (by omega) s hsleap rfl
        have hlater : ∀ u ∈ ticks, tick < u := by
          intro u hu
          have hle := Instant.le_of_isTick hsleap hperiod ((hmem u).1 hu).1
          have hlt : tick < s := by
            rw [Instant.lt_iff_nanos hleap hsleap]
            omega
          exact Instant.lt_of_lt_of_le hlt hle
        refine ⟨tick :: ticks, List.pairwise_cons.2 ⟨hlater, hascending⟩, fun u => ?_, fun n => ?_⟩
        · rw [List.mem_cons, hmem, Instant.isTick_iff_of_next hleap hnext, or_and_right]
          refine or_congr_left ⟨fun hu => ⟨hu, hu ▸ hend⟩, And.left⟩
        · cases n with
          | zero => rfl
          | succ n =>
            rw [Occurrences.take_of_next_some hstep, htake]
            rfl

/-- The same from a multiple of the period on, which may lie behind the end of the calendar. -/
theorem exists_ticks_from {anchor : Instant} {period : Span} (hleap : anchor.isLeap = false)
    (hperiod : 0 < period.nanos) (m : Nat) (last : Option Instant) (inner : Inner) :
    ∃ ticks : List Instant, ticks.Pairwise (· < ·)
      ∧ (∀ u, u ∈ ticks ↔ (∃ k : Nat, anchor.add? ⟨k * period.nanos⟩ = some u ∧ m ≤ k)
        ∧ ∀ e, last = some e → u ≤ e)
      ∧ ∀ n, (period.series (anchor.add? ⟨m * period.nanos⟩) last inner).take n
        = .ok ((ticks.take n).map (Series.occurrence inner)) := by
  cases hdue : anchor.add? ⟨m * period.nanos⟩ with
  | none =>
    refine ⟨[], List.Pairwise.nil, fun u => ⟨fun hu => (by cases hu), ?_⟩, fun n => ?_⟩
    · rintro ⟨⟨k, hk, hle⟩, -⟩
      exact absurd hle (Nat.not_le.2 (Instant.lt_of_add?_eq_none hleap hperiod hdue hk))
    · rw [List.take_nil]
      exact period.take_series_none last inner n
  | some tick =>
    have htick := ((Instant.add?_eq_some_iff hleap).1 hdue).1
    obtain ⟨ticks, hascending, hmem, htake⟩ := exists_ticks hperiod last inner tick htick
    refine ⟨ticks, hascending, fun u => ?_, htake⟩
    rw [hmem, Instant.isTick_iff_of_add? hleap hdue]

end Span

/-! ## 3. The first tick -/

namespace Series

variable {anchor start : Instant} {period : Span}

/-- The first tick is rounded up to a whole number of periods from the whole milliseconds that have
passed, so that it may lie less than a millisecond before the start. -/
theorem exists_firstTick (hanchor : anchor.isLeap = false) (hstart : start.isLeap = false)
    (hle : anchor ≤ start) (hread : period.IsRead) (hperiod : 0 < period.nanos) :
    ∃ m : Nat, firstTick anchor start period = anchor.add? ⟨m * period.nanos⟩
      ∧ ∀ k : Nat, m ≤ k ↔ start.nanos < anchor.nanos + k * period.nanos + 1000000 := by
  obtain ⟨n, -, rfl⟩ := hread
  rw [Span.nanos_ofSeconds] at hperiod ⊢
  have hpassed : 0 ≤ start.nanos - anchor.nanos := by
    rw [Instant.le_iff_nanos hanchor hstart] at hle
    omega
  -- A period read from text is a whole number of seconds, so no part of it is cut off.
  have hstep : (Span.ofSeconds n).wholeMillis = 1000 * n := by
    rw [Span.wholeMillis_of_nonneg (by rw [Span.nanos_ofSeconds]; omega), Span.nanos_ofSeconds]
    omega
  have helapsed : max 0 (start.since anchor).wholeMillis
      = (start.nanos - anchor.nanos) / 1000000 := by
    have hsince := Instant.nanos_since hstart hanchor
    rw [Span.wholeMillis_of_nonneg (by omega), hsince]
    omega
  generalize hmillis : (start.nanos - anchor.nanos) / 1000000 = elapsed at helapsed
  have hfirst : firstTick anchor start (.ofSeconds n)
      = anchor.add? (.ofMillis ((elapsed + 1000 * n - 1) / (1000 * n) * (1000 * n))) := by
    simp only [firstTick, hstep, helapsed]
    rw [if_neg (by omega)]
  have hrounded : 0 ≤ (elapsed + 1000 * n - 1) / (1000 * n) :=
    Int.ediv_nonneg (by omega) (by omega)
  refine ⟨((elapsed + 1000 * n - 1) / (1000 * n)).toNat, ?_, fun k => ?_⟩
  · rw [hfirst, Int.toNat_of_nonneg hrounded, Span.ofMillis]
    have hmultiple : ∀ m : Int, m * (1000 * n) * 1000000 = m * (n * 1000000000) := by grind
    rw [hmultiple]
  · have hceiling : (elapsed + 1000 * n - 1) / (1000 * n) < k + 1
        ↔ elapsed + 1000 * n - 1 < (k + 1) * (1000 * n) :=
      Int.ediv_lt_iff_lt_mul (by omega)
    have hmultiple : (k : Int) * (n * 1000000000) = k * (1000 * n) * 1000000 := by grind
    rw [Int.add_mul] at hceiling
    rw [hmultiple]
    omega

/-- Where the first tick was rounded to is a matter of less than a millisecond. -/
theorem multiple_iff_isTick (hanchor : anchor.isLeap = false) (hstart : start.isLeap = false)
    {m : Nat}
    (hm : ∀ k : Nat, m ≤ k ↔ start.nanos < anchor.nanos + k * period.nanos + 1000000)
    (u : Instant) : (∃ k : Nat, anchor.add? ⟨k * period.nanos⟩ = some u ∧ m ≤ k)
      ↔ anchor.IsTick period u ∧ start.since u < .ofMillis 1 := by
  rw [Instant.IsTick, ← exists_and_right]
  refine exists_congr fun k => and_congr_right fun hk => ?_
  obtain ⟨huleap, hnanos⟩ := (Instant.add?_eq_some_iff hanchor).1 hk
  have hsince := Instant.nanos_since hstart huleap
  rw [hm k]
  change _ ↔ (start.since u).nanos < 1 * 1000000
  simp only at hnanos
  omega

/-- An occurrence is a definite scope from its instant on, which is as long and has the period as
the inner scope says. -/
theorem occurrence_spec (inner : Inner) (u t : Instant) :
    (occurrence inner u).isDefinite = true ∧ (occurrence inner u).startAt t = some u
      ∧ (∀ d, inner.duration = some d → (occurrence inner u).length? t = some d)
      ∧ (inner.duration = none → (occurrence inner u).isSingleton = true)
      ∧ (occurrence inner u).period? = inner.period := by
  cases hd : inner.duration with
  | none => simp [occurrence, hd, Scope.isDefinite, Scope.isRepeated, Scope.inner?, Scope.last?,
      Bound.isFixed, Scope.startAt, Bound.resolve, Scope.isSingleton, Scope.period?]
  | some d => simp [occurrence, hd, Scope.isDefinite, Scope.isRepeated, Scope.inner?, Scope.last?,
      Bound.isFixed, Scope.startAt, Bound.resolve, Scope.length?, Scope.period?]

end Series

/-! ## 4. What a cursor yields -/

namespace Scope

variable {source : String} {s : Scope} {period : Span} {inner : Inner} {t : Instant}

/-- The period of a scope that was read is a positive number of seconds. -/
theorem period_of_read (hread : read source = .ok s) (hcadence : s.cadence = .every period inner) :
    period.IsRead ∧ 0 < period.nanos := by
  have hs := isRead_of_read hread
  have hperiod := hs.cadence
  rw [hcadence] at hperiod
  refine ⟨hperiod.1, ?_⟩
  have hfault := hs.fault
  have hperiod? : s.period? = some period := by rw [period?, hcadence]
  simp only [fault?, hperiod?] at hfault
  refine Int.not_le.1 fun hle => ?_
  have hnot : period ≤ .zero := hle
  rw [if_pos hnot] at hfault
  by_cases hstart : s.start = .future
  · rw [if_pos hstart] at hfault
    cases hfault
  · by_cases hlast : s.last? = some .past
    · rw [if_neg hstart, if_pos hlast] at hfault
      cases hfault
    · rw [if_neg hstart, if_neg hlast] at hfault
      split at hfault <;> cases hfault

/-- The start of a scope is the reference instant or a time that the scope names. -/
theorem isLeap_startAt (ht : t.isLeap = false) (hbound : ∀ u ∈ s.start.times, u.isLeap = false) :
    ((s.startAt t).getD t).isLeap = false := by
  rw [startAt]
  cases hstart : s.start with
  | past => exact ht
  | now => exact ht
  | future => exact ht
  | fixed u =>
    rw [hstart] at hbound
    exact hbound u (List.mem_singleton.2 rfl)

/-- The cursor of a scope that a period repeats yields, in order and once each, the ticks from the
start of the scope to its end that are not yet a whole millisecond before the later of the start and
the reference instant. So if no tick is over by less than that, it yields exactly those that are not
over. -/
theorem occurrences_of_period (hread : read source = .ok s)
    (hcadence : s.cadence = .every period inner) (ht : t.isLeap = false)
    (hbound : ∀ u ∈ s.start.times, u.isLeap = false) :
    let anchor := (s.startAt t).getD t
    let start := anchor.later t
    ∃ (os : Occurrences) (ticks : List Instant), Occurrences.ofScope s t = .ok os
      ∧ (∀ n, os.take n = .ok ((ticks.take n).map (Series.occurrence inner)))
      ∧ ticks.Pairwise (· < ·)
      ∧ (∀ u, u ∈ ticks ↔ (anchor.IsTick period u ∧ start.since u < .ofMillis 1)
        ∧ ∀ e, s.lastAt t = some e → u ≤ e)
      ∧ ((∀ u, anchor.IsTick period u → u < start → .ofMillis 1 ≤ start.since u) →
        ∀ u, u ∈ ticks ↔ (anchor.IsTick period u ∧ start ≤ u)
          ∧ ∀ e, s.lastAt t = some e → u ≤ e)
      ∧ ∀ u ∈ ticks, let occurrence := Series.occurrence inner u
        occurrence.isDefinite = true ∧ occurrence.startAt t = some u
          ∧ (∀ d, inner.duration = some d → occurrence.length? t = some d)
          ∧ (inner.duration = none → occurrence.isSingleton = true)
          ∧ occurrence.period? = inner.period := by
  intro anchor start
  obtain ⟨hperiod, hpos⟩ := period_of_read hread hcadence
  have hanchor : anchor.isLeap = false := isLeap_startAt ht hbound
  obtain ⟨hle, hstart⟩ : anchor ≤ start ∧ start.isLeap = false := by
    simp only [start, Instant.later]
    split
    · exact ⟨Instant.le_of_lt ‹_›, ht⟩
    · exact ⟨Int.le_refl _, hanchor⟩
  obtain ⟨m, hfirst, hm⟩ := Series.exists_firstTick hanchor hstart hle hperiod hpos
  obtain ⟨ticks, hascending, hmem, htake⟩ :=
    Span.exists_ticks_from hanchor hpos m (s.lastAt t) inner
  have hos : Occurrences.ofScope s t
      = .ok (period.series (anchor.add? ⟨m * period.nanos⟩) (s.lastAt t) inner) := by
    simp only [Occurrences.ofScope, hcadence]
    rw [← hfirst]
    rfl
  have hticks : ∀ u, u ∈ ticks ↔ (anchor.IsTick period u ∧ start.since u < .ofMillis 1)
      ∧ ∀ e, s.lastAt t = some e → u ≤ e := by
    intro u
    rw [hmem, Series.multiple_iff_isTick hanchor hstart hm]
  refine ⟨_, ticks, hos, htake, hascending, hticks, fun hover u => ?_,
    fun u _ => Series.occurrence_spec inner u t⟩
  · rw [hticks]
    refine and_congr_left fun _ => and_congr_right fun hu => ?_
    obtain ⟨huleap, -⟩ := (Instant.isTick_iff_nanos hanchor).1 hu
    have hsince := Instant.nanos_since hstart huleap
    constructor
    · intro hlt
      refine Int.not_lt.1 fun hbefore => ?_
      exact absurd hlt (Int.not_lt.2 (hover u hu hbefore))
    · intro hle
      rw [Instant.le_iff_nanos hstart huleap] at hle
      change (start.since u).nanos < 1 * 1000000
      omega

/-- An instant of the minute from 2014-12-24 22:18 on. -/
def thatEvening (second nano : Nat) : Instant := .ofParts 16428 (80280 + second) nano

/-- Every second from an instant of that minute on. -/
def eachSecond : Scope :=
  ⟨.fixed (thatEvening 42 0), .through .future,
    .every (.ofSeconds 1) ⟨none, none⟩⟩

/-- Half a millisecond after the second 43. -/
def halfMillisLate : Instant := thatEvening 43 500000

theorem read_eachSecond :
    read "repeat 2014-12-24 22:18:42 ... future / 1s \x7b now \x7d" = .ok eachSecond := by
  decide +kernel

/-- Asked for half a millisecond after a tick, the cursor begins with that tick, which is over. -/
theorem first_occurrence_is_over :
    read "repeat 2014-12-24 22:18:42 ... future / 1s \x7b now \x7d" = .ok eachSecond
      ∧ halfMillisLate.isLeap = false
      ∧ ((eachSecond.startAt halfMillisLate).getD halfMillisLate).later halfMillisLate
        = halfMillisLate
      ∧ ∃ os tick, Occurrences.ofScope eachSecond halfMillisLate = .ok os
        ∧ os.take 1 = .ok [Series.occurrence ⟨none, none⟩ tick] ∧ tick < halfMillisLate := by
  refine ⟨read_eachSecond, by decide, by decide, ?_⟩
  refine ⟨Span.series (.ofSeconds 1) (some (thatEvening 43 0)) none
    ⟨none, none⟩, thatEvening 43 0, ?_, ?_, by decide⟩
  · decide +kernel
  · decide +kernel

/-- Asked for a millisecond and a half after that tick, the cursor begins with the next one. -/
theorem next_second_is_first :
    ∃ (os : Occurrences) (ticks : List Instant),
      Occurrences.ofScope eachSecond (thatEvening 43 1500000) = .ok os
        ∧ (∀ n, os.take n = .ok ((ticks.take n).map (Series.occurrence ⟨none, none⟩)))
        ∧ thatEvening 43 0 ∉ ticks
        ∧ thatEvening 44 0 ∈ ticks := by
  obtain ⟨os, ticks, hos, htake, -, hmem, -⟩ := occurrences_of_period
    (t := thatEvening 43 1500000) read_eachSecond rfl (by decide)
    (by decide)
  refine ⟨os, ticks, hos, htake, fun hover => ?_, ?_⟩
  · obtain ⟨⟨-, hlate⟩, -⟩ := (hmem _).1 hover
    revert hlate
    decide
  · refine (hmem _).2 ⟨⟨⟨2, ?_⟩, by decide⟩, fun e he => (by cases he)⟩
    decide +kernel

end Scope

end Measurement
