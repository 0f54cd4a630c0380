/-
The end of the calendar.

Everything that is asked of a scope stays within the calendar, except for one
thing: a crontab is searched second by second, minute by minute, hour by hour and
day by day, and the search does not look where the calendar ends. It breaks off
there exactly if it comes within five years of its start, the crontab admits
nothing before, and the last month is admitted, so that it is not passed over as
a whole (`next_eq_error_iff`).

A cursor goes through the ticks of a crontab and searches one tick ahead, so what
it breaks off at lies behind some row of first ticks (`BreaksBehind`). One tick
less in the row is one tick later to start from (`breaksBehind_cons_iff`), and the
induction is on the number of ticks asked for (`take_eq_error_iff`). The ticks of
a period are sums that are looked at before they are taken, and no number of them
is too many (`exists_take_of_period`).
-/
import Measurement.Proofs.Scope.Periods
import Measurement.Proofs.Scope.Ticks

set_option autoImplicit false

namespace Measurement

open Measurement.Time

namespace Crontab

/-! ## 1. The search -/

/-- Whether the search from an instant runs into the end of the calendar: the last year is among the
years it covers, nothing is admitted until then, and the last month is not passed over. From the
last second on there is nothing left to pass over. -/
structure BreaksFrom (c : Crontab) (t : Instant) : Prop where
  near : lastYear ≤ t.year + searchYears
  nothing : ∀ u, c.StrikesAt u → u < t
  december : 12 ∈ c.months.values ∨ lastSecond < t

theorem year_lastSecond : lastSecond.year = lastYear := by decide +kernel

theorem le_lastSecond {u : Instant} (h : u.nano = 0) : u ≤ lastSecond := by
  have hday := u.le_lastDay
  have hsecond := u.second_lt
  have hlast : lastSecond.day = lastDay ∧ lastSecond.second = 86399 := ⟨rfl, rfl⟩
  rw [Instant.le_iff_begun h, hlast.1, hlast.2]
  simp only [secondsPerDay] at hsecond
  omega

/-- Every second but the last is followed by another one. -/
theorem add?_second_eq_none_iff {t : Instant} (hnano : t.nano = 0) :
    t.add? (.ofSeconds 1) = none ↔ lastSecond ≤ t := by
  have hlast : lastSecond.unixSeconds = lastDay * secondsPerDay + 86399 := rfl
  have hfirst := t.firstDay_le
  have hsecond := t.second_lt
  rw [Instant.le_iff_unixSeconds rfl, hlast]
  constructor
  · intro hnone
    by_cases hbefore : t.unixSeconds < lastDay * secondsPerDay + 86399
    · exfalso
      rw [Instant.add?_second hnano] at hnone
      simp only [Instant.unixSeconds, secondsPerDay] at hbefore hnone hsecond
      rw [Instant.of?_eq_some (by omega) (by omega) (by simp only [secondsPerDay]; omega)
        (by decide)] at hnone
      cases hnone
    · exact Int.not_lt.1 hbefore
  · intro hle
    cases hs : t.add? (.ofSeconds 1) with
    | none => rfl
    | some s =>
      obtain ⟨-, hseconds⟩ := Instant.unixSeconds_of_add?_second hnano hs
      have hslast := s.le_lastDay
      have hssecond := s.second_lt
      simp only [Instant.unixSeconds, secondsPerDay] at hle hseconds hssecond
      omega

/-- An instant is within the last second if there is no whole second from it on. -/
theorem wholeSecondFrom_eq_error_iff (t : Instant) :
    wholeSecondFrom t = .error .passed ↔ lastSecond < t := by
  by_cases hnano : t.nano = 0
  · rw [wholeSecondFrom, if_pos hnano, ← Instant.not_le]
    constructor
    · intro h
      cases h
    · intro h
      exact absurd (le_lastSecond hnano) h
  · have hstart : t.startOfSecond.nano = 0 := rfl
    have hcut : lastSecond ≤ t.startOfSecond ↔ lastSecond < t := by
      have hlt := t.nano_lt
      have hsame : t.startOfSecond.unixSeconds = t.unixSeconds := rfl
      have hlast : lastSecond.nano = 0 := rfl
      rw [Instant.le_iff_unixSeconds hlast, hsame]
      change _ ↔ lastSecond.place < t.place
      simp only [Instant.place, nanosPerSecond, hlast] at hlt ⊢
      omega
    rw [wholeSecondFrom, if_neg hnano, ← hcut, ← add?_second_eq_none_iff hstart]
    cases t.startOfSecond.add? (.ofSeconds 1) <;> simp

/-- The search of a crontab breaks off only at the end of the calendar, and this is when. -/
theorem next_eq_error_iff (c : Crontab) (t : Instant) :
    c.next t = .error .passed ↔ c.BreaksFrom t := by
  -- Within the last second there is no whole second to start from, and no field is looked at.
  by_cases hlate : lastSecond < t
  · have hwhole := (wholeSecondFrom_eq_error_iff t).2 hlate
    have hyear := Instant.year_mono (Instant.le_of_lt hlate)
    rw [year_lastSecond] at hyear
    constructor
    · intro _
      refine ⟨by simp only [searchYears]; omega, fun u hu => ?_, Or.inr hlate⟩
      exact Int.lt_of_le_of_lt (le_lastSecond hu.1) hlate
    · intro _
      rw [next, hwhole]
      rfl
  · cases hs : wholeSecondFrom t with
    | error e =>
      cases e
      exact absurd ((wholeSecondFrom_eq_error_iff t).1 hs) hlate
    | ok s =>
      -- The calendar ends in a December, so that is the month the search would have to enter.
      have hmonth : c.admits .months (dateOfDay lastDay).month = true ↔ 12 ∈ c.months.values := by
        rw [show (dateOfDay lastDay).month = 12 by decide +kernel, admits, decide_eq_true_eq]
        exact Iff.rfl
      rw [next_eq_of_wholeSecondFrom hs, c.searchDays_eq_error_iff s.firstDay_le s.le_lastDay,
        lastDay_lt_daysThrough_iff, hmonth]
      simp only [strikesWithin_daysThrough hs]
      constructor
      · rintro ⟨hyears, hnothing, hdecember⟩
        refine ⟨hyears, fun u hu => ?_, Or.inl hdecember⟩
        rw [← Instant.not_le]
        intro hle
        have hyear := Instant.year_mono (le_lastSecond hu.1)
        rw [year_lastSecond] at hyear
        exact hnothing u ⟨hu, hle, Int.le_trans hyear hyears⟩
      · rintro ⟨hyears, hnothing, hdecember⟩
        refine ⟨hyears, fun u hu => ?_, hdecember.resolve_right hlate⟩
        exact absurd hu.2.1 ((Instant.not_le t u).2 (hnothing u hu.1))

/-! ## 2. Where the cursor breaks off -/

/-- Whether the cursor of a crontab breaks off behind some ticks: they are its first ticks, each of
them within the years of its search, and the search for the tick behind them, if there is an instant
left to search from, runs into the end of the calendar. -/
structure BreaksBehind (c : Crontab) (start : Instant) (last : Option Instant)
    (ticks : List Instant) : Prop where
  lists : c.Lists (Between start last) ticks
  found : ∀ before tick after, ticks = before ++ tick :: after →
    ∃ s, searchStart? start before = some s ∧ tick.year ≤ s.year + searchYears
  breaks : ∀ s, searchStart? start ticks = some s → c.BreaksFrom s

section

variable {c : Crontab} {start s tick : Instant} {last : Option Instant} {ticks : List Instant}

theorem breaksBehind_nil_iff : c.BreaksBehind start last [] ↔ c.BreaksFrom start := by
  constructor
  · intro h
    exact h.breaks start rfl
  · intro h
    refine ⟨c.lists_nil _, fun before tick after heq => ?_, fun s hs => ?_⟩
    · cases before <;> cases heq
    · cases hs
      exact h

/-- Where the first search has an answer, it is not the one that breaks off. -/
theorem not_breaksBehind_nil {found : Option Instant} (h : c.next start = .ok found) :
    ¬ c.BreaksBehind start last [] := by
  rw [breaksBehind_nil_iff, ← c.next_eq_error_iff, h]
  intro herror
  cases herror

/-- The ticks of a row are searched for and found, the first of them from the start on. -/
theorem BreaksBehind.strikesFrom (h : c.BreaksBehind start last (tick :: ticks)) :
    c.StrikesFrom start tick ∧ Between start last tick := by
  obtain ⟨hstrikes, hbetween⟩ := h.lists.admitted tick List.mem_cons_self
  obtain ⟨s, hs, hyear⟩ := h.found [] tick ticks rfl
  cases hs
  exact ⟨⟨hstrikes, hbetween.1, hyear⟩, hbetween⟩

/-- The row begins with what the search finds. -/
theorem BreaksBehind.head_eq {u : Instant} (h : c.BreaksBehind start last (u :: ticks))
    (hfirst : FirstOf (c.StrikesFrom start) (some tick)) (hend : ∀ e, last = some e → tick ≤ e) :
    u = tick := by
  obtain ⟨⟨hu, hstart, -⟩, -⟩ := h.strikesFrom
  obtain ⟨htick, hbegun, -⟩ := hfirst.holds tick rfl
  have hle := le_of_firstOf hfirst hu hstart
  have hin : tick ∈ u :: ticks :=
    h.lists.gapless tick htick ⟨hbegun, hend⟩ u List.mem_cons_self hle
  obtain heq | hlater := List.mem_cons.1 hin
  · exact heq.symm
  · have hlt := (List.pairwise_cons.1 h.lists.ascending).1 tick hlater
    exact absurd hle ((Instant.not_le tick u).2 hlt)

/-- Behind its first tick a row is one that starts a second later. -/
theorem lists_cons_iff (hfirst : FirstOf (c.StrikesFrom start) (some tick))
    (hend : ∀ e, last = some e → tick ≤ e) (hs : tick.add? (.ofSeconds 1) = some s) :
    c.Lists (Between start last) (tick :: ticks) ↔ c.Lists (Between s last) ticks := by
  obtain ⟨hstrikes, hstart, -⟩ := hfirst.holds tick rfl
  -- What strikes does so at whole seconds, so a second later is behind.
  have hsame : ∀ u, c.StrikesAt u → (Between s last u ↔ tick < u ∧ Between start last u) := by
    intro u hu
    rw [Between, Between, secondAfter_le_iff hstrikes.1 hs hu.1, ← and_assoc]
    refine and_congr_left fun _ => ⟨fun hlt => ⟨hlt, ?_⟩, And.left⟩
    exact Int.le_trans hstart (Instant.le_of_lt hlt)
  constructor
  · intro h
    obtain ⟨hbefore, hascending⟩ := List.pairwise_cons.1 h.ascending
    refine ⟨hascending, fun u hu => ?_, fun u hu hin v hv huv => ?_⟩
    · obtain ⟨hadmitted, hbetween⟩ := h.admitted u (List.mem_cons_of_mem tick hu)
      exact ⟨hadmitted, (hsame u hadmitted).2 ⟨hbefore u hu, hbetween⟩⟩
    · obtain ⟨hlater, hbetween⟩ := (hsame u hu).1 hin
      have hmem := h.gapless u hu hbetween v (List.mem_cons_of_mem tick hv) huv
      obtain rfl | hmem := List.mem_cons.1 hmem
      · exact absurd hlater (Int.lt_irrefl _)
      · exact hmem
  · intro h
    exact Lists.cons hstrikes ⟨hstart, hend⟩ (fun u hu hin => le_of_firstOf hfirst hu hin.1)
      (h.congr hsame)

theorem breaksBehind_cons_iff (hfirst : FirstOf (c.StrikesFrom start) (some tick))
    (hend : ∀ e, last = some e → tick ≤ e) (hs : tick.add? (.ofSeconds 1) = some s) :
    c.BreaksBehind start last (tick :: ticks) ↔ c.BreaksBehind s last ticks := by
  have hstarts : ∀ row, searchStart? start (tick :: row) = searchStart? s row :=
    searchStart?_cons hs
  constructor
  · intro h
    refine ⟨(lists_cons_iff hfirst hend hs).1 h.lists, fun before u after heq => ?_, fun v hv => ?_⟩
    · rw [← hstarts]
      exact h.found (tick :: before) u after (by rw [heq]; rfl)
    · exact h.breaks v (by rw [hstarts]; exact hv)
  · intro h
    refine ⟨(lists_cons_iff hfirst hend hs).2 h.lists, fun before u after heq => ?_, fun v hv => ?_⟩
    · cases before with
      | nil =>
        cases heq
        exact ⟨start, rfl, (hfirst.holds tick rfl).2.2⟩
      | cons w before =>
        cases heq
        rw [hstarts]
        exact h.found before u after rfl
    · rw [hstarts] at hv
      exact h.breaks v hv

/-- Behind the last second of the calendar there is nothing to search, and the sum that asks for it
breaks off. -/
theorem breaksBehind_of_lastSecond (hfirst : FirstOf (c.StrikesFrom start) (some tick))
    (hend : ∀ e, last = some e → tick ≤ e) (hnone : tick.add? (.ofSeconds 1) = none) :
    c.BreaksBehind start last [tick] := by
  obtain ⟨hstrikes, hstart, hyear⟩ := hfirst.holds tick rfl
  have hlast : lastSecond ≤ tick := (add?_second_eq_none_iff hstrikes.1).1 hnone
  refine ⟨Lists.cons hstrikes ⟨hstart, hend⟩ (fun u hu hin => le_of_firstOf hfirst hu hin.1) ?_,
    fun before u after heq => ?_, fun s hs => ?_⟩
  · refine ⟨List.Pairwise.nil, fun u hu => (by cases hu), fun u _ _ v hv => (by cases hv)⟩
  · cases before with
    | nil =>
      cases heq
      exact ⟨start, rfl, hyear⟩
    | cons w before =>
      cases before <;> cases heq
  · change tick.add? (.ofSeconds 1) = some s at hs
    rw [hnone] at hs
    cases hs

/-- A cursor that is at its end breaks off nowhere. -/
theorem not_breaksBehind_of_ended (hfirst : FirstOf (c.StrikesFrom start) (some tick)) {e : Instant}
    (hlt : e < tick) : ¬ c.BreaksBehind start (some e) (s :: ticks) := by
  intro h
  obtain ⟨⟨hu, hstart, -⟩, -, hend⟩ := h.strikesFrom
  have hle : tick ≤ e := Int.le_trans (le_of_firstOf hfirst hu hstart) (hend e rfl)
  exact absurd hlt (Int.not_lt.2 hle)

/-- A cursor whose first tick is found breaks off behind a row that begins with that tick. -/
theorem exists_breaksBehind_iff (hfirst : FirstOf (c.StrikesFrom start) (some tick))
    (hend : ∀ e, last = some e → tick ≤ e) (n : Nat) :
    (∃ u ticks, ticks.length ≤ n ∧ c.BreaksBehind start last (u :: ticks))
      ↔ ∀ s, tick.add? (.ofSeconds 1) = some s →
        ∃ ticks, ticks.length ≤ n ∧ c.BreaksBehind s last ticks := by
  constructor
  · rintro ⟨u, ticks, hlength, hbreaks⟩ s hs
    obtain rfl := hbreaks.head_eq hfirst hend
    exact ⟨ticks, hlength, (breaksBehind_cons_iff hfirst hend hs).1 hbreaks⟩
  · intro hlater
    cases hs : tick.add? (.ofSeconds 1) with
    | none => exact ⟨tick, [], Nat.zero_le n, breaksBehind_of_lastSecond hfirst hend hs⟩
    | some s =>
      obtain ⟨ticks, hlength, hbreaks⟩ := hlater s hs
      exact ⟨tick, ticks, hlength, (breaksBehind_cons_iff hfirst hend hs).2 hbreaks⟩

/-! ## 3. The ticks of a crontab -/

/-- One step of a cursor that is at a tick: it breaks off there if the search for the next tick
does, and later if the cursor does that has found it. -/
theorem take_succ_eq_error_iff (inner : Inner) (hend : ∀ e, last = some e → tick ≤ e) (n : Nat) :
    (c.series (some tick) last inner).take (n + 1) = .error .passed
      ↔ ∀ s, tick.add? (.ofSeconds 1) = some s → c.next s = .error .passed
        ∨ ∃ found, c.next s = .ok found
          ∧ (c.series found last inner).take n = .error .passed := by
  -- The next tick is searched for before this one is yielded.
  cases hfollowing : Series.following (.cron c) tick with
  | error e =>
    cases e
    have htake : (c.series (some tick) last inner).take (n + 1) = .error .passed :=
      Occurrences.take_of_next_error
        (Occurrences.next_series_error (Series.next_error inner hend hfollowing)) n
    rw [htake]
    refine ⟨fun _ s hs => Or.inl ?_, fun _ => rfl⟩
    simp only [Series.following, hs] at hfollowing
    exact hfollowing
  | ok found =>
    have hstep : (c.series (some tick) last inner).next
        = .ok (some (Series.occurrence inner tick, c.series found last inner)) :=
      Occurrences.next_series_some (Series.next_due inner hend hfollowing)
    have hrest : (c.series (some tick) last inner).take (n + 1) = .error .passed
        ↔ (c.series found last inner).take n = .error .passed := by
      rw [Occurrences.take_of_next_some hstep]
      cases (c.series found last inner).take n <;> simp [Except.map]
    rw [hrest]
    cases hs : tick.add? (.ofSeconds 1) with
    | none =>
      simp only [Series.following, hs] at hfollowing
      cases hfollowing
    | some s =>
      simp only [Series.following, hs] at hfollowing
      simp [hfollowing]

/-- A cursor breaks off within a number of ticks exactly if it does so behind some row of that many
ticks or less. -/
theorem take_eq_error_iff (inner : Inner) (n : Nat) {found : Option Instant}
    (h : c.next start = .ok found) :
    (c.series found last inner).take n = .error .passed
      ↔ ∃ ticks, ticks.length ≤ n ∧ c.BreaksBehind start last ticks := by
  induction n generalizing start found with
  | zero =>
    constructor
    · intro htake
      cases htake
    · rintro ⟨ticks, hlength, hbreaks⟩
      obtain rfl := List.eq_nil_of_length_eq_zero (Nat.le_zero.1 hlength)
      exact absurd hbreaks (not_breaksBehind_nil h)
  | succ n ih =>
    have hfirst := firstOf_next h
    have hcons : (∃ ticks, ticks.length ≤ n + 1 ∧ c.BreaksBehind start last ticks)
        ↔ ∃ u ticks, ticks.length ≤ n ∧ c.BreaksBehind start last (u :: ticks) := by
      constructor
      · rintro ⟨ticks, hlength, hbreaks⟩
        cases ticks with
        | nil => exact absurd hbreaks (not_breaksBehind_nil h)
        | cons u ticks => exact ⟨u, ticks, Nat.le_of_succ_le_succ hlength, hbreaks⟩
      · rintro ⟨u, ticks, hlength, hbreaks⟩
        exact ⟨u :: ticks, Nat.succ_le_succ hlength, hbreaks⟩
    rw [hcons]
    cases found with
    | none =>
      rw [take_series_none]
      constructor
      · intro htake
        cases htake
      · rintro ⟨u, ticks, -, hbreaks⟩
        exact absurd hbreaks.strikesFrom.1 (hfirst.eq_none_iff.1 rfl u)
    | some tick =>
      by_cases hended : ∃ e, last = some e ∧ e < tick
      · obtain ⟨e, rfl, hlt⟩ := hended
        rw [take_series_ended inner hlt]
        constructor
        · intro htake
          cases htake
        · rintro ⟨u, ticks, -, hbreaks⟩
          exact absurd hbreaks (not_breaksBehind_of_ended hfirst hlt)
      · have hend : ∀ e, last = some e → tick ≤ e := by
          intro e he
          apply Int.not_lt.1
          intro hlt
          exact hended ⟨e, he, hlt⟩
        rw [take_succ_eq_error_iff inner hend, exists_breaksBehind_iff hfirst hend]
        refine forall_congr' fun s => imp_congr_right fun _ => ?_
        cases hnext : c.next s with
        | error e =>
          cases e
          have hbreaks : c.BreaksBehind s last [] :=
            breaksBehind_nil_iff.2 ((c.next_eq_error_iff s).1 hnext)
          exact ⟨fun _ => ⟨[], Nat.zero_le n, hbreaks⟩, fun _ => Or.inl rfl⟩
        | ok found =>
          rw [← ih hnext]
          simp

end

end Crontab

/-! ## 4. The occurrences of a scope -/

/-- The next tick of a period is looked at before it is taken, and there is none behind the end of
the calendar. -/
theorem Span.exists_take_of_period (period : Span) (due last : Option Instant) (inner : Inner)
    (n : Nat) : ∃ occs, (period.series due last inner).take n = .ok occs := by
  induction n generalizing due with
  | zero => exact ⟨[], rfl⟩
  | succ n ih =>
    cases due with
    | none => exact ⟨[], period.take_series_none last inner _⟩
    | some tick =>
      by_cases hended : ∃ e, last = some e ∧ e < tick
      · obtain ⟨e, rfl, hlt⟩ := hended
        exact ⟨[], Occurrences.take_of_next_none
          (Occurrences.next_series_none (Series.next_ended _ inner hlt)) _⟩
      · have hend : ∀ e, last = some e → tick ≤ e := fun e he =>
          Int.not_lt.1 fun hlt => hended ⟨e, he, hlt⟩
        have hstep : (period.series (some tick) last inner).next = .ok (some
            (Series.occurrence inner tick, period.series (tick.add? period) last inner)) :=
          Occurrences.next_series_some (Series.next_due inner hend rfl)
        obtain ⟨occs, hrest⟩ := ih (tick.add? period)
        rw [Occurrences.take_of_next_some hstep, hrest]
        exact ⟨Series.occurrence inner tick :: occs, rfl⟩

namespace Scope

variable {s : Scope} {t : Instant}

theorem exists_firstOccurrences_of_no_crontab (h : ∀ c inner, s.cadence ≠ .cron c inner) (n : Nat) :
    ∃ occs, s.firstOccurrences t n = .ok occs := by
  rw [firstOccurrences, Occurrences.ofScope]
  cases hcadence : s.cadence with
  | once period =>
    cases n with
    | zero => exact ⟨[], rfl⟩
    | succ n =>
      have hstep : (Occurrences.single s).next = .ok (some (s, .done)) := rfl
      refine ⟨[s], ?_⟩
      change (Occurrences.single s).take (n + 1) = _
      rw [Occurrences.take_of_next_some hstep, Occurrences.take_of_next_none rfl]
      rfl
  | every period inner => exact period.exists_take_of_period _ _ inner n
  | cron c inner => exact absurd hcadence (h c inner)

theorem firstOccurrences_eq_error_iff {c : Crontab} {inner : Inner} (h : s.cadence = .cron c inner)
    (n : Nat) : s.firstOccurrences t n = .error .passed ↔ ∃ ticks, ticks.length ≤ n
      ∧ c.BreaksBehind (((s.startAt t).getD t).later t) (s.lastAt t) ticks := by
  generalize hstart : ((s.startAt t).getD t).later t = start
  have hofScope : Occurrences.ofScope s t
      = (c.next start).map fun found => c.series found (s.lastAt t) inner := by
    simp only [Occurrences.ofScope, h, hstart]
    rfl
  rw [firstOccurrences, hofScope]
  cases hnext : c.next start with
  | error e =>
    cases e
    have hbreaks : c.BreaksBehind start (s.lastAt t) [] :=
      Crontab.breaksBehind_nil_iff.2 ((c.next_eq_error_iff start).1 hnext)
    exact ⟨fun _ => ⟨[], Nat.zero_le n, hbreaks⟩, fun _ => rfl⟩
  | ok found => exact Crontab.take_eq_error_iff inner n hnext

/-- A row of ticks that all lie six years before the end of the calendar is followed by another
search that has an answer. -/
theorem not_breaksBehind_of_early {c : Crontab} {start e : Instant} {ticks : List Instant}
    (hstart : start.year + 6 ≤ lastYear) (he : e.year + 6 ≤ lastYear) :
    ¬ c.BreaksBehind start (some e) ticks := by
  intro hbreaks
  cases hlast : ticks.getLast? with
  | none =>
    have hfrom := (hbreaks.breaks start (by rw [Crontab.searchStart?, hlast])).near
    simp only [Crontab.searchYears] at hfrom
    omega
  | some tick =>
    obtain ⟨hstrikes, -, hend⟩ := hbreaks.lists.admitted tick (List.mem_of_getLast? hlast)
    have hyear := Instant.year_mono (hend e rfl)
    obtain ⟨s, found, hs, hfound⟩ := Crontab.exists_following hstrikes (by omega)
    have hfrom := hbreaks.breaks s (by rw [Crontab.searchStart?, hlast]; exact hs)
    rw [← c.next_eq_error_iff, hfound] at hfrom
    cases hfrom

/-- The end of the calendar is all that the loop of a crontab (`next_match`) and a cursor can break
off at, and they do so exactly where a crontab has to be searched beyond it: a search if the
calendar ends within its five years, with nothing admitted before and a last month that is admitted;
a cursor, which searches for what the loop finds, behind some row of first ticks, before it yields
the last of them. A scope without crontab has all its occurrences, and so has one that starts and
ends six years before the end of the calendar. -/
theorem breaks_off_only_at_end_of_calendar (table : Crontab) (s : Scope) (t : Instant) :
    (table.nextMatch t = .error .passed ↔ table.BreaksFrom t)
    ∧ table.next t = table.nextMatch t
    ∧ let start := ((s.startAt t).getD t).later t
      ((∀ c inner, s.cadence ≠ .cron c inner) → ∀ n, ∃ occs, s.firstOccurrences t n = .ok occs)
      ∧ (∀ c inner, s.cadence = .cron c inner → ∀ n,
        s.firstOccurrences t n = .error .passed
          ↔ ∃ ticks, ticks.length ≤ n ∧ c.BreaksBehind start (s.lastAt t) ticks)
      ∧ (start.year + 6 ≤ lastYear → (∃ e, s.lastAt t = some e ∧ e.year + 6 ≤ lastYear) →
        ∀ n, ∃ occs, s.firstOccurrences t n = .ok occs) := by
  have hsame := table.nextMatch_eq t
  refine ⟨?_, hsame.symm, ?_⟩
  · rw [hsame]
    exact Crontab.next_eq_error_iff table t
  intro start
  refine ⟨fun hnone n => exists_firstOccurrences_of_no_crontab hnone n,
    fun c inner hcadence n => firstOccurrences_eq_error_iff hcadence n, ?_⟩
  rintro hstart ⟨e, hlast, he⟩ n
  by_cases hcron : ∃ c inner, s.cadence = .cron c inner
  · obtain ⟨c, inner, hcadence⟩ := hcron
    cases hoccs : s.firstOccurrences t n with
    | ok occs => exact ⟨occs, rfl⟩
    | error e =>
      cases e
      obtain ⟨ticks, -, hbreaks⟩ := (firstOccurrences_eq_error_iff hcadence n).1 hoccs
      rw [hlast] at hbreaks
      exact absurd hbreaks (not_breaksBehind_of_early hstart he)
  · exact exists_firstOccurrences_of_no_crontab
      (fun c inner hcadence => hcron ⟨c, inner, hcadence⟩) n

/-- Midnight at the beginning of every day of December. -/
def decembers : Crontab where
  seconds := .select .seconds (· == 0)
  minutes := .select .minutes (· == 0)
  hours := .select .hours (· == 0)
  days := .select .days fun _ => true
  weekdays := .select .weekdays fun _ => true
  months := .select .months (· == 12)

/-- A scope that is repeated on the days of December from the last day of the calendar on. -/
def onLastDecember : Scope :=
  ⟨.fixed (.ofParts lastDay 0 0), .through .future, .cron decembers ⟨none, none⟩⟩

/-- The last noon of the calendar. -/
def lastNoon : Instant := .ofParts lastDay 43200 0

/-- Scopes and crontabs can be read of which a cursor and a search break off. -/
theorem last_december_breaks_off :
    read "repeat +262142-12-31 00:00:00 ... future cron 0 0 0 * * 12 \x7b now \x7d"
        = .ok onLastDecember
      ∧ onLastDecember.firstOccurrences Crontab.newYear2097 1 = .error .passed
      ∧ Crontab.read "0 0 0 * * 12".toList = .ok decembers
      ∧ decembers.nextMatch lastNoon = .error .passed := by
  refine ⟨by decide +kernel, by decide +kernel, by decide +kernel, ?_⟩
  rw [Crontab.nextMatch_eq]
  decide +kernel

/-- The same days in the years up to 2104. -/
def onDecembers : Scope :=
  ⟨.fixed Crontab.newYear2097, .through (.fixed Crontab.leapDay2104), .cron decembers ⟨none, none⟩⟩

/-- From the last noon of the calendar nothing is found, and on its last day the cursor breaks off
behind at most one tick; of the Decembers long before, and without a crontab, every occurrence is
found. -/
theorem december_occurrences :
    decembers.BreaksFrom lastNoon
      ∧ (∃ ticks, ticks.length ≤ 1 ∧ decembers.BreaksBehind (.ofParts lastDay 0 0) none ticks)
      ∧ (∀ n, ∃ occs, onDecembers.firstOccurrences Crontab.newYear2097 n = .ok occs)
      ∧ ∀ n, ∃ occs, nowToFuture.firstOccurrences Crontab.newYear2097 n = .ok occs := by
  have hscopes := fun s : Scope =>
    (breaks_off_only_at_end_of_calendar decembers s Crontab.newYear2097).2.2
  refine ⟨?_, ?_, ?_, ?_⟩
  · apply (breaks_off_only_at_end_of_calendar decembers nowToFuture lastNoon).1.1
    rw [Crontab.nextMatch_eq]
    decide +kernel
  · obtain ⟨-, hcrontab, -⟩ := hscopes onLastDecember
    have hstart : ((onLastDecember.startAt Crontab.newYear2097).getD Crontab.newYear2097).later
        Crontab.newYear2097 = .ofParts lastDay 0 0 := by decide +kernel
    rw [hstart] at hcrontab
    exact (hcrontab decembers ⟨none, none⟩ rfl 1).1 (by decide +kernel)
  · obtain ⟨-, -, hearly⟩ := hscopes onDecembers
    exact hearly (by decide +kernel) ⟨Crontab.leapDay2104, rfl, by decide +kernel⟩
  · obtain ⟨hplain, -, -⟩ := hscopes nowToFuture
    exact hplain fun c inner h => by cases h

end Scope

end Measurement
