/-
Scopes that end have finitely many occurrences.

A cursor goes forward: a sum with a span of some length is later, leap seconds
or not (`lt_of_add?`), and a search for what a crontab admits finds nothing
before its start. So every tick is later than the one before it, and a cursor
whose scope has an end comes to a tick behind the end, or to the last one of all
(`exists_all`). Only a cursor that breaks off at the end of the calendar never
says that there are no more.

What a cursor has yielded when it is at its end is the whole list of which every
other answer is the beginning (`take_of_all`).

Periods are counted in whole milliseconds and crontabs in whole seconds, so where
no leap second is involved, ticks are a millisecond apart or more. Only the first
of them can be over when the cursor is opened, and by less than that
(`exists_ticks_of_hasAll`).
-/
import Measurement.Proofs.Crontab.Search
import Measurement.Proofs.Scope.Delays
import Measurement.Time.Timeline

set_option autoImplicit false

namespace Measurement

/-! ## 1. Later ticks -/

/-- A sum is in the second that it names or in a later one. -/
theorem Instant.place_of_ofUnix? {seconds rest : Int} {u : Instant}
    (h : ofUnix? seconds rest = some u) :
    u.place = (seconds + rest / nanosPerSecond) * (2 * nanosPerSecond : Nat)
      + rest % nanosPerSecond := by
  rw [ofUnix?, of?_eq_some_iff] at h
  obtain ⟨hday, hsecond, hnano⟩ := h
  have hday' := Int.emod_add_mul_ediv (seconds + rest / nanosPerSecond) secondsPerDay
  simp only [place, unixSeconds, hday, hsecond, hnano, nanosPerSecond, secondsPerDay] at *
  omega

/-- A span of some length leads to a later instant. -/
theorem Instant.lt_of_add? {t u : Instant} {d : Span} (hd : 0 < d.nanos) (h : t.add? d = some u) :
    t < u := by
  have hsplit := Int.tmod_add_mul_tdiv d.nanos nanosPerSecond
  have hrest := Int.tmod_nonneg (nanosPerSecond : Int) (Int.le_of_lt hd)
  have hbelow := Int.tmod_lt_of_pos d.nanos (show (0 : Int) < nanosPerSecond by decide)
  have hnano := t.nano_lt
  change t.place < u.place
  rw [add?] at h
  dsimp only at h
  generalize d.nanos.tdiv nanosPerSecond = seconds at *
  generalize d.nanos.tmod nanosPerSecond = rest at *
  by_cases hleap : t.isLeap = true
  · have hleft := of_decide_eq_true hleap
    rw [if_pos hleap] at h
    split at h
    · have hplace := place_of_ofUnix? h
      simp only [place, nanosPerSecond] at *
      omega
    · rename_i hstays
      split at h
      · -- A span of some length has no negative number of seconds.
        simp only [nanosPerSecond] at *
        omega
      · rw [of?_eq_some_iff] at h
        obtain ⟨hday, hsecond, hnano'⟩ := h
        simp only [place, unixSeconds, hday, hsecond, hnano', nanosPerSecond, secondsPerDay] at *
        omega
  · rw [if_neg hleap] at h
    have hplace := place_of_ofUnix? h
    have hplain := isLeap_eq_false_iff.1 (Bool.not_eq_true _ ▸ hleap)
    simp only [place, nanosPerSecond] at *
    omega

namespace Series

variable {stride : Stride} {tick u : Instant} {inner : Inner}

/-- Whether the ticks of a stride are a millisecond apart or more. -/
def Advances : Stride → Prop
  | .period d => (nanosPerMilli : Int) ≤ d.nanos
  | .cron _ => True

theorem lt_of_following (hadvances : Advances stride) (h : following stride tick = .ok (some u)) :
    tick < u := by
  cases stride with
  | period d =>
    have hperiod : (nanosPerMilli : Int) ≤ d.nanos := hadvances
    simp only [nanosPerMilli] at hperiod
    exact Instant.lt_of_add? (by omega) (Except.ok.inj h)
  | cron table =>
    rw [following] at h
    cases hnext : tick.add? (.ofSeconds 1) with
    | none =>
      rw [hnext] at h
      cases h
    | some t =>
      rw [hnext] at h
      have hlater : tick < t := Instant.lt_of_add? (by decide) hnext
      have hfrom := ((Crontab.firstOf_next h).holds u rfl).2.1
      exact Instant.lt_of_lt_of_le hlater hfrom

/-- A cursor whose scope has an end breaks off, or is at its end after some occurrences. -/
theorem exists_all (hadvances : Advances stride) (inner : Inner) (e : Instant)
    (due : Option Instant) :
    (∃ n err, (Occurrences.series ⟨stride, due, some e, inner⟩).take (n + 1) = .error err)
      ∨ ∃ all : List Scope,
        (Occurrences.series ⟨stride, due, some e, inner⟩).take (all.length + 1) = .ok all := by
  have hended : ∀ {due : Option Instant},
      Series.next ⟨stride, due, some e, inner⟩ = .ok none →
      ∃ all : List Scope,
        (Occurrences.series ⟨stride, due, some e, inner⟩).take (all.length + 1) = .ok all := by
    intro due hnone
    exact ⟨[], Occurrences.take_of_next_none (Occurrences.next_series_none hnone) _⟩
  cases due with
  | none => exact .inr (hended (next_none stride (some e) inner))
  | some tick =>
    -- Every tick leaves less room before the end of the scope.
    generalize hroom : (e.place + 1 - tick.place).toNat = room
    induction room using Nat.strongRecOn generalizing tick with
    | ind room ih =>
      by_cases hover : e < tick
      · exact .inr (hended (next_ended stride inner hover))
      · have hend : ∀ e', some e = some e' → tick ≤ e' := by
          rintro e' ⟨⟩
          exact Int.not_lt.1 hover
        cases hfollowing : following stride tick with
        | error err =>
          refine .inl ⟨0, err, ?_⟩
          exact Occurrences.take_of_next_error
            (Occurrences.next_series_error (next_error inner hend hfollowing)) 0
        | ok found =>
          have hstep := Occurrences.next_series_some (next_due inner hend hfollowing)
          cases found with
          | none =>
            refine .inr ⟨[occurrence inner tick], ?_⟩
            have hrest : Series.next ⟨stride, none, some e, inner⟩ = .ok none := next_none _ _ _
            rw [Occurrences.take_of_next_some hstep,
              Occurrences.take_of_next_none (Occurrences.next_series_none hrest)]
            rfl
          | some next =>
            have hlater := lt_of_following hadvances hfollowing
            have hle := hend e rfl
            change tick.place < next.place at hlater
            change tick.place ≤ e.place at hle
            rcases ih _ (by omega) next rfl with ⟨n, err, hbreaks⟩ | ⟨all, hall⟩
            · refine .inl ⟨n + 1, err, ?_⟩
              rw [Occurrences.take_of_next_some hstep, hbreaks]
              rfl
            · refine .inr ⟨occurrence inner tick :: all, ?_⟩
              rw [List.length_cons, Occurrences.take_of_next_some hstep, hall]
              rfl

/-- The period at whose first tick a cursor begins is a millisecond long or more. -/
theorem advances_of_firstTick {anchor start : Instant} {period : Span}
    (h : firstTick anchor start period ≠ none) : Advances (.period period) := by
  refine Int.not_lt.1 fun hlt => h ?_
  have hmillis : period.wholeMillis ≤ 0 := by
    rw [Span.wholeMillis]
    simp only [nanosPerMilli] at hlt
    by_cases hnegative : period.nanos < 0
    · have hneg : 0 ≤ (-period.nanos).tdiv 1000000 := Int.tdiv_nonneg (by omega) (by decide)
      rw [Int.neg_tdiv] at hneg
      omega
    · have hnone : period.nanos.tdiv 1000000 = 0 := Int.tdiv_eq_zero_of_lt (by omega) hlt
      omega
  simp only [firstTick, if_pos hmillis]

/-! ## 2. Ticks apart -/

/-- Whether instants are a millisecond apart or more, in their order. -/
def Apart (ticks : List Instant) : Prop :=
  ticks.Pairwise fun a b : Instant => a.nanos + nanosPerMilli ≤ b.nanos

/-- Where no leap second is involved, a tick is followed by one that is a millisecond later or
more. -/
theorem apart_of_following (hadvances : Advances stride) (htick : tick.isLeap = false)
    (h : following stride tick = .ok (some u)) :
    u.isLeap = false ∧ tick.nanos + nanosPerMilli ≤ u.nanos := by
  cases stride with
  | period d =>
    obtain ⟨hleap, hnanos⟩ := (Instant.add?_eq_some_iff htick).1 (Except.ok.inj h)
    have hperiod : (nanosPerMilli : Int) ≤ d.nanos := hadvances
    exact ⟨hleap, by omega⟩
  | cron table =>
    rw [following] at h
    cases hnext : tick.add? (.ofSeconds 1) with
    | none =>
      rw [hnext] at h
      cases h
    | some t =>
      rw [hnext] at h
      obtain ⟨htleap, htnanos⟩ := (Instant.add?_eq_some_iff htick).1 hnext
      obtain ⟨hstrikes, hfrom, -⟩ := (Crontab.firstOf_next h).holds u rfl
      have hleap : u.isLeap = false := Instant.isLeap_eq_false_iff.2 (by rw [hstrikes.1]; decide)
      have hle := (Instant.le_iff_nanos htleap hleap).1 hfrom
      rw [Span.nanos_ofSeconds] at htnanos
      simp only [nanosPerMilli]
      exact ⟨hleap, by omega⟩

/-- Where no leap second is involved, a cursor yields occurrences at ticks that are a millisecond
apart or more, from the one that is due to the end of the scope. -/
theorem exists_ticks_of_take (hadvances : Advances stride) {e : Instant} {due : Option Instant}
    (hdue : ∀ t, due = some t → t.isLeap = false) {n : Nat} {occs : List Scope}
    (h : (Occurrences.series ⟨stride, due, some e, inner⟩).take n = .ok occs) :
    ∃ ticks : List Instant, occs = ticks.map (occurrence inner) ∧ Apart ticks
      ∧ ∀ u ∈ ticks, u.isLeap = false ∧ u ≤ e ∧ ∃ t, due = some t ∧ t.nanos ≤ u.nanos := by
  have hnothing : ∀ (due : Option Instant) (occs : List Scope), occs = [] →
      ∃ ticks : List Instant, occs = ticks.map (occurrence inner) ∧ Apart ticks
        ∧ ∀ u ∈ ticks, u.isLeap = false ∧ u ≤ e ∧ ∃ t, due = some t ∧ t.nanos ≤ u.nanos := by
    rintro due occs rfl
    exact ⟨[], rfl, List.Pairwise.nil, fun u hu => absurd hu List.not_mem_nil⟩
  induction n generalizing due occs with
  | zero => exact hnothing due occs (Except.ok.inj h).symm
  | succ n ih =>
    cases due with
    | none =>
      rw [Occurrences.take_of_next_none (Occurrences.next_series_none (next_none _ _ _))] at h
      exact hnothing none occs (Except.ok.inj h).symm
    | some tick =>
      by_cases hover : e < tick
      · rw [Occurrences.take_of_next_none
          (Occurrences.next_series_none (next_ended stride inner hover))] at h
        exact hnothing (some tick) occs (Except.ok.inj h).symm
      · have hend : ∀ e', some e = some e' → tick ≤ e' := by
          rintro e' ⟨⟩
          exact Int.not_lt.1 hover
        have htick := hdue tick rfl
        cases hfollowing : following stride tick with
        | error err =>
          rw [Occurrences.take_of_next_error
            (Occurrences.next_series_error (next_error inner hend hfollowing))] at h
          cases h
        | ok found =>
          rw [Occurrences.take_of_next_some
            (Occurrences.next_series_some (next_due inner hend hfollowing))] at h
          cases hrest : (Occurrences.series ⟨stride, found, some e, inner⟩).take n with
          | error err =>
            rw [hrest] at h
            cases h
          | ok more =>
            rw [hrest] at h
            cases h
            have hlater : ∀ t, found = some t →
                t.isLeap = false ∧ tick.nanos + nanosPerMilli ≤ t.nanos := by
              rintro t rfl
              exact apart_of_following hadvances htick hfollowing
            obtain ⟨ticks, rfl, hapart, hticks⟩ := ih (fun t ht => (hlater t ht).1) hrest
            refine ⟨tick :: ticks, rfl,
              List.pairwise_cons.2 ⟨fun u hu => ?_, hapart⟩, fun u hu => ?_⟩
            · obtain ⟨-, -, t, ht, hle⟩ := hticks u hu
              have := (hlater t ht).2
              omega
            · rcases List.mem_cons.1 hu with rfl | hu
              · exact ⟨htick, hend e rfl, u, rfl, Int.le_refl _⟩
              · obtain ⟨hleap, hle, t, ht, hfrom⟩ := hticks u hu
                have := (hlater t ht).2
                exact ⟨hleap, hle, tick, rfl, by omega⟩

/-- The first tick is rounded up from the whole milliseconds that have passed. -/
theorem lt_of_firstTick {anchor start : Instant} {period : Span} (hanchor : anchor.isLeap = false)
    (hstart : start.isLeap = false) (hle : anchor ≤ start)
    (h : firstTick anchor start period = some tick) :
    tick.isLeap = false ∧ start.nanos < tick.nanos + nanosPerMilli := by
  have hadvances := advances_of_firstTick (h.symm ▸ Option.some_ne_none tick)
  have hsince := Instant.nanos_since hstart hanchor
  have hpassed := (Instant.le_iff_nanos hanchor hstart).1 hle
  have hmillis := Span.wholeMillis_of_nonneg (d := start.since anchor) (by omega)
  rw [firstTick] at h
  dsimp only at h
  generalize period.wholeMillis = step at h
  by_cases hstep : step ≤ 0
  · rw [if_pos hstep] at h
    cases h
  · rw [if_neg hstep, Instant.add?_eq_some_iff hanchor] at h
    obtain ⟨hleap, hnanos⟩ := h
    have hround := Int.lt_ediv_add_one_mul_self
      (max 0 (start.since anchor).wholeMillis + step - 1) (show (0 : Int) < step by omega)
    rw [Int.add_mul, Int.one_mul] at hround
    generalize (max 0 (start.since anchor).wholeMillis + step - 1) / step * step = rounded at *
    simp only [Span.ofMillis] at hnanos
    simp only [nanosPerMilli]
    exact ⟨hleap, by omega⟩

end Series

/-! ## 3. All occurrences of a scope -/

/-- What a cursor has yielded when it says that there are no more are all its answers. -/
theorem Occurrences.take_of_all {os : Occurrences} {all : List Scope}
    (h : os.take (all.length + 1) = .ok all) (n : Nat) : os.take n = .ok (all.take n) := by
  induction all generalizing os n with
  | nil =>
    cases hnext : os.next with
    | error e =>
      rw [List.length_nil, take_of_next_error hnext] at h
      cases h
    | ok answer =>
      rcases answer with _ | ⟨occ, rest⟩
      · rw [take_of_next_none hnext, List.take_nil]
      · rw [List.length_nil, take_of_next_some hnext] at h
        cases h
  | cons occ all ih =>
    cases hnext : os.next with
    | error e =>
      rw [take_of_next_error hnext] at h
      cases h
    | ok answer =>
      rcases answer with _ | ⟨first, rest⟩
      · rw [take_of_next_none hnext] at h
        cases h
      · rw [List.length_cons, take_of_next_some hnext] at h
        cases hrest : rest.take (all.length + 1) with
        | error e =>
          rw [hrest] at h
          cases h
        | ok more =>
          rw [hrest] at h
          cases h
          cases n with
          | zero => rfl
          | succ n =>
            rw [take_of_next_some hnext, ih hrest]
            rfl

namespace Scope

variable {s : Scope} {t e : Instant} {all occs : List Scope} {n : Nat}

/-- Whether some occurrences are all that a scope has, from an instant on. -/
def HasAll (s : Scope) (t : Instant) (all : List Scope) : Prop :=
  s.firstOccurrences t (all.length + 1) = .ok all

theorem HasAll.firstOccurrences (h : s.HasAll t all) (n : Nat) :
    s.firstOccurrences t n = .ok (all.take n) := by
  rw [HasAll, Scope.firstOccurrences] at h
  rw [Scope.firstOccurrences]
  cases hos : Occurrences.ofScope s t with
  | error err =>
    rw [hos] at h
    cases h
  | ok os =>
    rw [hos] at h
    exact Occurrences.take_of_all h n

/-- A scope has only one row of all its occurrences. -/
theorem HasAll.unique {more : List Scope} (h : s.HasAll t all) (hmore : s.HasAll t more) :
    all = more := by
  have hfirst := h.firstOccurrences (all.length + more.length)
  rw [hmore.firstOccurrences, List.take_of_length_le (by omega),
    List.take_of_length_le (by omega)] at hfirst
  exact (Except.ok.inj hfirst).symm

theorem HasAll.eq_take (h : s.HasAll t all) (hbegins : s.BeginsWith t occs) :
    occs = all.take occs.length := by
  rcases hbegins with rfl | hfirst
  · rfl
  · rw [h.firstOccurrences] at hfirst
    exact (Except.ok.inj hfirst).symm

theorem HasAll.length_le (h : s.HasAll t all) (hbegins : s.BeginsWith t occs) :
    occs.length ≤ all.length := by
  have hlength := congrArg List.length (h.eq_take hbegins)
  rw [List.length_take] at hlength
  omega

theorem HasAll.endsAfter_iff (h : s.HasAll t all) (hle : n ≤ all.length) :
    s.EndsAfter t n ↔ n = all.length := by
  rw [EndsAfter, h.firstOccurrences]
  constructor
  · rintro ⟨occs, hoccs, hlength⟩
    cases hoccs
    rw [List.length_take] at hlength
    omega
  · rintro rfl
    refine ⟨_, rfl, ?_⟩
    rw [List.length_take]
    omega

theorem HasAll.not_breaksAfter (h : s.HasAll t all) (n : Nat) : ¬ s.BreaksAfter t n := by
  rintro ⟨err, hbreaks⟩
  rw [h.firstOccurrences] at hbreaks
  cases hbreaks

/-- The cursor of a repeated scope with an end breaks off before it is there, or has a first tick,
or has none. Where no leap second is involved, the first tick is not over by a millisecond. -/
theorem ofScope_of_lastAt (hrepeated : s.isRepeated = true) (hlast : s.lastAt t = some e) :
    (∃ err, Occurrences.ofScope s t = .error err) ∨ ∃ stride due inner,
      Occurrences.ofScope s t = .ok (.series ⟨stride, due, some e, inner⟩)
        ∧ (due = none ∨ Series.Advances stride)
        ∧ (t.isLeap = false → (∀ u ∈ s.times, u.isLeap = false) → ∀ tick, due = some tick →
          tick.isLeap = false ∧ t.nanos < tick.nanos + nanosPerMilli) := by
  cases hcadence : s.cadence with
  | once period =>
    rw [isRepeated, inner?, hcadence] at hrepeated
    cases hrepeated
  | every period inner =>
    refine .inr ⟨.period period, Series.firstTick ((s.startAt t).getD t)
      (((s.startAt t).getD t).later t) period, inner, ?_, ?_, fun ht htimes tick htick => ?_⟩
    · rw [Occurrences.ofScope, hcadence, hlast]
    · by_cases hnone : Series.firstTick ((s.startAt t).getD t)
          (((s.startAt t).getD t).later t) period = none
      · exact .inl hnone
      · exact .inr (Series.advances_of_firstTick hnone)
    · have hanchor := isLeap_startAt (s := s) ht fun u hu => htimes u (List.mem_append_left _ hu)
      have hstart := Instant.isLeap_later hanchor ht
      have hfrom := (Instant.le_iff_nanos ht hstart).1 (Instant.le_later_right _ t)
      obtain ⟨hleap, hlt⟩ :=
        Series.lt_of_firstTick hanchor hstart (Instant.le_later_left _ t) htick
      exact ⟨hleap, by omega⟩
  | cron table inner =>
    cases hnext : table.next (((s.startAt t).getD t).later t) with
    | error err =>
      refine .inl ⟨err, ?_⟩
      rw [Occurrences.ofScope, hcadence]
      dsimp only
      rw [hnext]
      rfl
    | ok due =>
      refine .inr ⟨.cron table, due, inner, ?_, .inr trivial, fun ht htimes tick htick => ?_⟩
      · rw [Occurrences.ofScope, hcadence, hlast]
        dsimp only
        rw [hnext]
        rfl
      · have hanchor := isLeap_startAt (s := s) ht fun u hu => htimes u (List.mem_append_left _ hu)
        obtain ⟨hstrikes, hle, -⟩ := (Crontab.firstOf_next hnext).holds tick htick
        have hleap : tick.isLeap = false :=
          Instant.isLeap_eq_false_iff.2 (by rw [hstrikes.1]; decide)
        have hfrom := (Instant.le_iff_nanos ht hleap).1
          (Int.le_trans (Instant.le_later_right _ t) hle)
        simp only [nanosPerMilli]
        exact ⟨hleap, by omega⟩

/-- A repeated scope with an end has only so many occurrences, unless its cursor breaks off. -/
theorem exists_hasAll (hrepeated : s.isRepeated = true) (hlast : s.lastAt t = some e) :
    (∃ n, s.BreaksAfter t n) ∨ ∃ all, s.HasAll t all := by
  rcases ofScope_of_lastAt hrepeated hlast with
    ⟨err, hos⟩ | ⟨stride, due, inner, hos, hadvances, -⟩
  · exact .inl ⟨0, breaksAfter_of_ofScope hos 0⟩
  · have hfirst : ∀ n, s.firstOccurrences t n
        = (Occurrences.series ⟨stride, due, some e, inner⟩).take n := by
      intro n
      rw [firstOccurrences, hos]
      rfl
    rcases hadvances with rfl | hadvances
    · refine .inr ⟨[], ?_⟩
      rw [HasAll, hfirst]
      exact Occurrences.take_of_next_none
        (Occurrences.next_series_none (Series.next_none _ _ _)) _
    · rcases Series.exists_all hadvances inner e due with ⟨n, err, hbreaks⟩ | ⟨all, hall⟩
      · exact .inl ⟨n, err, (hfirst _).trans hbreaks⟩
      · exact .inr ⟨all, (hfirst _).trans hall⟩

/-- Where no leap second is involved, all occurrences of a scope with an end are at ticks that are a
millisecond apart or more, up to that end, and none is over by a millisecond. -/
theorem exists_ticks_of_hasAll (h : s.HasAll t all) (hrepeated : s.isRepeated = true)
    (hlast : s.lastAt t = some e) (ht : t.isLeap = false)
    (htimes : ∀ u ∈ s.times, u.isLeap = false) :
    ∃ (inner : Inner) (ticks : List Instant), all = ticks.map (Series.occurrence inner)
      ∧ Series.Apart ticks
      ∧ ∀ u ∈ ticks, u.isLeap = false ∧ u ≤ e ∧ t.nanos < u.nanos + nanosPerMilli := by
  rcases ofScope_of_lastAt hrepeated hlast with
    ⟨err, hos⟩ | ⟨stride, due, inner, hos, hadvances, hdue⟩
  · rw [HasAll, firstOccurrences, hos] at h
    cases h
  · rw [HasAll, firstOccurrences, hos] at h
    change (Occurrences.series ⟨stride, due, some e, inner⟩).take _ = _ at h
    rcases hadvances with rfl | hadvances
    · rw [Occurrences.take_of_next_none
        (Occurrences.next_series_none (Series.next_none _ _ _))] at h
      cases h
      exact ⟨inner, [], rfl, List.Pairwise.nil, fun u hu => absurd hu List.not_mem_nil⟩
    · obtain ⟨ticks, hticks, hapart, hall⟩ :=
        Series.exists_ticks_of_take hadvances (fun u hu => (hdue ht htimes u hu).1) h
      refine ⟨inner, ticks, hticks, hapart, fun u hu => ?_⟩
      obtain ⟨hleap, hle, first, hfirst, hfrom⟩ := hall u hu
      have hpast := (hdue ht htimes first hfirst).2
      exact ⟨hleap, hle, by omega⟩

end Scope

end Measurement
