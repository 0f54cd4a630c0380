/-
Whether an occurrence can be told from its text.

A cursor makes an occurrence out of the inner scope and the tick that is due, and
no one checks what comes out. Nothing can be wrong with the tick: it comes from
the reference instant or from a time that the scope names, by sums of whole
microseconds or as a whole second, and whatever these keep is true of every tick
(`Series.Keeps.next`, `ticks_have`). So an occurrence is written without loss.

The inner scope is another matter. A repeated scope is checked for the period at
which it recurs, and its inner scope has a period of its own, which is not. If
that period is no time at all, the occurrence breaks the rule that a period is
positive, and what is written for it cannot be read (`occurrences_come_back`).
-/
import Measurement.Proofs.Scope.Periods
import Measurement.Proofs.Scope.Ticks
import Measurement.Proofs.Time.Sums

set_option autoImplicit false

namespace Measurement

/-! ## 1. What sums keep -/

namespace Instant

/-- Whether sums of whole microseconds keep a property of instants that every whole second has. -/
structure IsKept (p : Instant → Prop) : Prop where
  sum : ∀ t d u, p t → d.nanos % 1000 = 0 → t.add? d = some u → p u
  second : ∀ u, u.nano = 0 → p u

theorem isKept_isCivil : IsKept IsCivil := by
  refine ⟨fun t d u ht _ hsum => isCivil_of_add? ht hsum, fun u hu hleap => ?_⟩
  rw [isLeap, hu] at hleap
  cases hleap

/-- Whole microseconds add up to whole microseconds. -/
theorem isKept_micros : IsKept fun t => t.nano % 1000 = 0 := by
  refine ⟨fun t d u ht hd hsum => ?_, fun u hu => by rw [hu]⟩
  have hsplit : nanosPerSecond * d.nanos.tdiv nanosPerSecond + d.nanos.tmod nanosPerSecond
      = d.nanos := Int.mul_tdiv_add_tmod _ _
  obtain ⟨-, seconds, hnanos⟩ | ⟨-, -, hnano⟩ := add?_cases hsum
  · simp only [nanos, nanosPerSecond] at hnanos hsplit
    omega
  · simp only [nanosPerSecond] at hnano hsplit
    omega

end Instant

/-! ## 2. What a cursor keeps -/

namespace Series

variable {p : Instant → Prop} {inner : Inner} {s rest : Series} {o : Scope}

/-- Whether the tick that is due in a series has a property, and every later tick comes from it by
sums that keep the property. -/
structure Keeps (p : Instant → Prop) (inner : Inner) (s : Series) : Prop where
  inner : s.inner = inner
  due : ∀ u, s.due = some u → p u
  stride : ∀ d, s.stride = .period d → d.nanos % 1000 = 0

theorem nano_of_next {c : Crontab} {t u : Instant} (h : c.next t = .ok (some u)) : u.nano = 0 :=
  ((Crontab.firstOf_next h).holds u rfl).1.1

/-- The tick after a tick has the property too. -/
theorem keeps_following (hp : Instant.IsKept p) {stride : Stride}
    (hstride : ∀ d, stride = .period d → d.nanos % 1000 = 0) {tick u : Instant} (htick : p tick)
    (h : following stride tick = .ok (some u)) : p u := by
  cases stride with
  | period d => exact hp.sum tick d u htick (hstride d rfl) (Except.ok.inj h)
  | cron table =>
    rw [following] at h
    cases hsum : tick.add? (.ofSeconds 1) with
    | none =>
      rw [hsum] at h
      cases h
    | some t =>
      rw [hsum] at h
      exact hp.second u (nano_of_next h)

/-- One step of a cursor: the occurrence is that of a tick with the property, and so are those after
it. -/
theorem Keeps.next (hp : Instant.IsKept p) (h : s.Keeps p inner)
    (hnext : s.next = .ok (some (o, rest))) :
    (∃ tick, p tick ∧ o = occurrence inner tick) ∧ rest.Keeps p inner := by
  obtain ⟨tick, found, hdue, hfollowing, rfl, rfl⟩ := of_next hnext
  have htick := h.due tick hdue
  refine ⟨⟨tick, htick, by rw [h.inner]⟩, ⟨h.inner, fun u hu => ?_, h.stride⟩⟩
  rw [show found = some u from hu] at hfollowing
  exact keeps_following hp h.stride htick hfollowing

/-- Every occurrence that a cursor yields is that of a tick with the property. -/
theorem Keeps.take (hp : Instant.IsKept p) (h : s.Keeps p inner) {n : Nat} {occs : List Scope}
    (htake : (Occurrences.series s).take n = .ok occs) :
    ∀ o ∈ occs, ∃ tick, p tick ∧ o = occurrence inner tick := by
  induction n generalizing s occs with
  | zero =>
    cases htake
    intro o ho
    cases ho
  | succ n ih =>
    cases hnext : s.next with
    | error e =>
      rw [Occurrences.take_of_next_error (Occurrences.next_series_error hnext)] at htake
      cases htake
    | ok answer =>
      cases answer with
      | none =>
        rw [Occurrences.take_of_next_none (Occurrences.next_series_none hnext)] at htake
        cases htake
        intro o ho
        cases ho
      | some found =>
        obtain ⟨first, rest⟩ := found
        obtain ⟨hfirst, hrest⟩ := h.next hp hnext
        rw [Occurrences.take_of_next_some (Occurrences.next_series_some hnext)] at htake
        obtain ⟨more, hmore, rfl⟩ := map_eq_ok_iff.1 htake
        intro o ho
        obtain rfl | ho := List.mem_cons.1 ho
        · exact hfirst
        · exact ih hrest hmore o ho

end Series

/-! ## 3. Occurrences as scopes -/

namespace Scope

variable {source : String} {s : Scope} {inner : Inner} {t : Instant} {n : Nat} {occs : List Scope}

/-- The cursor of a repeated scope begins with what the reference instant and the times of the scope
have in common. -/
theorem ticks_have {p : Instant → Prop} (hp : Instant.IsKept p) (hs : s.IsRead)
    (hinner : s.inner? = some inner) (ht : p t) (htimes : ∀ u ∈ s.times, p u)
    (htake : s.firstOccurrences t n = .ok occs) :
    ∀ o ∈ occs, ∃ tick, p tick ∧ o = Series.occurrence inner tick := by
  obtain ⟨os, hos, htake⟩ := bind_eq_ok_iff.1 htake
  have hanchor : p ((s.startAt t).getD t) := by
    rw [startAt]
    cases hstart : s.start with
    | past => exact ht
    | now => exact ht
    | future => exact ht
    | fixed u =>
      refine htimes u (List.mem_append_left _ ?_)
      rw [hstart]
      exact List.mem_singleton.2 rfl
  have hcadence := hs.cadence
  rw [Occurrences.ofScope] at hos
  cases hc : s.cadence with
  | once period =>
    rw [inner?, hc] at hinner
    cases hinner
  | every period i =>
    rw [inner?, hc] at hinner
    cases hinner
    rw [hc] at hos hcadence
    cases hos
    refine Series.Keeps.take hp ⟨rfl, fun u hu => ?_, fun d hd => ?_⟩ htake
    · -- The first tick is a whole number of milliseconds behind the start.
      rw [Series.firstTick] at hu
      split at hu
      · cases hu
      · refine hp.sum _ _ u hanchor ?_ hu
        simp only [Span.ofMillis]
        omega
    · cases hd
      obtain ⟨k, -, rfl⟩ := hcadence.1
      rw [Span.nanos_ofSeconds]
      omega
  | cron table i =>
    rw [inner?, hc] at hinner
    cases hinner
    rw [hc] at hos
    obtain ⟨due, hdue, heq⟩ := bind_eq_ok_iff.1 hos
    cases heq
    refine Series.Keeps.take hp ⟨rfl, fun u hu => ?_, fun d hd => (by cases hd)⟩ htake
    rw [show due = some u from hu] at hdue
    exact hp.second u (Series.nano_of_next hdue)

theorem isRead_inner (h : s.IsRead) (hinner : s.inner? = some inner) : inner.IsRead := by
  have hcadence := h.cadence
  rw [inner?] at hinner
  cases hc : s.cadence with
  | once period =>
    rw [hc] at hinner
    cases hinner
  | every period i =>
    rw [hc] at hinner hcadence
    cases hinner
    exact hcadence.2
  | cron table i =>
    rw [hc] at hinner hcadence
    cases hinner
    exact hcadence.2

/-- The only rule that an occurrence can break is that its period is positive. -/
theorem fault?_occurrence (hi : inner.IsRead) (tick : Instant) :
    (Series.occurrence inner tick).fault?
      = if inner.period = some .zero then some .periodNotPositive else none := by
  have hlast : (Series.occurrence inner tick).last? = none := by
    rw [Series.occurrence, last?]
    cases inner.duration <;> rfl
  have hstart : (Series.occurrence inner tick).start = .fixed tick := rfl
  have hperiod? : (Series.occurrence inner tick).period? = inner.period := rfl
  -- It starts at an instant and ends where it starts or after a span.
  have hfuture : ¬ Bound.fixed tick = .future := fun h => (by cases h)
  have hpast : ¬ (none : Option Bound) = some .past := fun h => (by cases h)
  rw [fault?, hstart, hlast, hperiod?, if_neg hfuture, if_neg hpast,
    if_neg (fun h => by cases h.2)]
  cases hperiod : inner.period with
  | none =>
    have hnone : ¬ (none : Option Span) = some .zero := by
      intro heq
      cases heq
    exact (if_neg hnone).symm
  | some p =>
    -- A period that was read is a number of seconds, and not less than none of them.
    obtain ⟨k, -, rfl⟩ := hi.period p hperiod
    by_cases hzero : k = 0
    · subst hzero
      rfl
    · have hpositive : ¬ Span.ofSeconds k ≤ Span.zero := by
        show ¬ (Span.ofSeconds k).nanos ≤ 0
        rw [Span.nanos_ofSeconds]
        omega
      have hne : some (Span.ofSeconds k) ≠ some .zero := by
        intro heq
        have hnanos := congrArg Span.nanos (Option.some.inj heq)
        rw [Span.nanos_ofSeconds] at hnanos
        change (k : Int) * 1000000000 = 0 at hnanos
        omega
      simp only [if_neg hpositive, if_neg hne]

/-- What is written for an occurrence without a part below a microsecond is read as it, and then it
is looked at whether it breaks a rule. -/
theorem read_text_occurrence (hi : inner.IsRead) {tick : Instant} (hcivil : tick.IsCivil)
    (hmicros : tick.nano % 1000 = 0) :
    read (Series.occurrence inner tick).text
      = checked (Series.occurrence inner tick) (Series.occurrence inner tick).text.toList := by
  have hplain : (Series.occurrence inner tick).plain.IsRead := by
    refine ⟨hcivil, ?_, hi.period⟩
    rw [plain, Series.occurrence]
    cases hd : inner.duration with
    | none => trivial
    | some d => exact hi.duration d hd
  have htimes : ∀ u ∈ (Series.occurrence inner tick).times, u.nano % 1000 = 0 := by
    intro u hu
    rw [Series.occurrence, times] at hu
    have heq : u = tick := by
      cases hd : inner.duration with
      | none =>
        rw [hd] at hu
        exact List.mem_singleton.1 hu
      | some d =>
        rw [hd] at hu
        exact List.mem_singleton.1 hu
    rw [heq]
    exact hmicros
  rw [read_text_of_once hplain rfl, toMicros_of_whole htimes]

/-- The occurrences of a repeated scope that was read, from an instant without a part below a
microsecond on. An occurrence breaks a rule exactly if the inner scope has a period of no time. It
can be read from its own text exactly if it breaks none and its instant is one that a text can
denote, as all of them are if the reference instant is; otherwise its text is refused. -/
theorem occurrences_come_back (hread : read source = .ok s) (hinner : s.inner? = some inner)
    (hwhole : ∀ u ∈ t :: s.times, u.nano % 1000 = 0)
    (htake : s.firstOccurrences t n = .ok occs) :
    ∀ o ∈ occs, (o.fault? = none ↔ inner.period ≠ some .zero)
      ∧ (read o.text = .ok o ↔ inner.period ≠ some .zero ∧ o.start.IsRead)
      ∧ (t.IsCivil → o.start.IsRead)
      ∧ (t.IsCivil → inner.period = some .zero →
        read o.text = .error (.invalidScope o.text .periodNotPositive)) := by
  intro o ho
  have hs := isRead_of_read hread
  have hi := isRead_inner hs hinner
  obtain ⟨ht, htimes⟩ := List.forall_mem_cons.1 hwhole
  obtain ⟨tick, hmicros, rfl⟩ := ticks_have Instant.isKept_micros hs hinner ht htimes htake o ho
  have hfault : (Series.occurrence inner tick).fault? = none ↔ inner.period ≠ some .zero := by
    rw [fault?_occurrence hi]
    by_cases hzero : inner.period = some .zero
    · rw [if_pos hzero]
      refine iff_of_false ?_ (not_not_intro hzero)
      intro heq
      cases heq
    · rw [if_neg hzero]
      exact iff_of_true rfl hzero
  have hcivil : t.IsCivil → tick.IsCivil := by
    intro ht
    obtain ⟨u, hu, heq⟩ := ticks_have Instant.isKept_isCivil hs hinner ht
      (fun u hu => isCivil_of_mem_times hs hu) htake _ ho
    rw [Bound.fixed.inj (congrArg start heq)]
    exact hu
  refine ⟨hfault, ?_, hcivil, fun ht hzero => ?_⟩
  · constructor
    · intro hback
      have hisRead := isRead_of_read hback
      exact ⟨hfault.1 hisRead.fault, hisRead.start⟩
    · rintro ⟨hpositive, hstart⟩
      rw [read_text_occurrence hi hstart hmicros]
      exact checked_eq_ok (hfault.2 hpositive) _
  · rw [read_text_occurrence hi (hcivil ht) hmicros, checked, fault?_occurrence hi, if_pos hzero,
      String.ofList_toList]

/-- Five minutes of every hour from that evening on, measured at a period. -/
def hourly (period : Span) : Scope :=
  ⟨.fixed (thatEvening 42 0), .through .future,
    .every (.ofSeconds 3600) ⟨some (.ofSeconds 300), some period⟩⟩

/-- The first of these hours, measured at a period. -/
def firstHour (period : Span) : Scope :=
  Series.occurrence ⟨some (.ofSeconds 300), some period⟩ (thatEvening 42 0)

/-- What is measured every second comes back. -/
theorem hourly_seconds_come_back :
    read "repeat 2014-12-24 22:18:42 ... future / 1h \x7b now + 5m / 1s \x7d"
        = .ok (hourly (.ofSeconds 1))
      ∧ (hourly (.ofSeconds 1)).firstOccurrences (thatEvening 42 0) 1
        = .ok [firstHour (.ofSeconds 1)]
      ∧ (firstHour (.ofSeconds 1)).fault? = none
      ∧ read (firstHour (.ofSeconds 1)).text = .ok (firstHour (.ofSeconds 1)) := by
  have hread : read "repeat 2014-12-24 22:18:42 ... future / 1h \x7b now + 5m / 1s \x7d"
      = .ok (hourly (.ofSeconds 1)) := by
    decide +kernel
  have htake : (hourly (.ofSeconds 1)).firstOccurrences (thatEvening 42 0) 1
      = .ok [firstHour (.ofSeconds 1)] := by
    decide +kernel
  have hpositive : some (Span.ofSeconds 1) ≠ some .zero := by decide
  have hcivilThen : (thatEvening 42 0).IsCivil := by
    rw [Instant.IsCivil]
    decide
  obtain ⟨hfault, hback, hcivil, -⟩ :=
    occurrences_come_back hread rfl (by decide) htake _ (List.mem_singleton.2 rfl)
  exact ⟨hread, htake, hfault.2 hpositive, hback.2 ⟨hpositive, hcivil hcivilThen⟩⟩

/-- A scope whose inner period is no time can be read, and its first occurrence cannot. -/
theorem hourly_nothing_is_refused :
    read "repeat 2014-12-24 22:18:42 ... future / 1h \x7b now + 5m / 0s \x7d"
        = .ok (hourly .zero)
      ∧ ∃ o, (hourly .zero).firstOccurrences (thatEvening 42 0) 1 = .ok [o]
        ∧ o.fault? = some .periodNotPositive
        ∧ o.text = "2014-12-24 22:18:42 + 5m / 0s"
        ∧ read o.text = .error (.invalidScope o.text .periodNotPositive) := by
  refine ⟨by decide +kernel, firstHour .zero, ?_⟩
  decide +kernel

end Scope

end Measurement
