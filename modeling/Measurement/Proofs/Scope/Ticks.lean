/-
The ticks of a scope that a crontab repeats.

A cursor looks one tick ahead, and each time it searches from one second after
the tick it yields. So what it yields is the seconds that the crontab admits,
each of them, in order (`Lists`), until a search finds nothing (`Exhausted`).
The step puts one tick in front (`Lists.cons`), and the run is by induction on
the number of ticks asked for (`exists_ticks`).

The first search is one like every other. A crontab can be silent for more than
five years, and if it is so at the start of the scope, nothing is yielded at all
(`silent_for_five_years`).

The search for the next tick can begin in the sixth year before the end of the
calendar, if the tick is the last second of the year before. It finds something
nevertheless, as that second of the year falls on the same weekday six years later
(`strikesAt_lastSecond`).
-/
import Measurement.Proofs.Crontab.InPlace
import Measurement.Proofs.Scope.Series

set_option autoImplicit false

namespace Measurement

open Measurement.Time

namespace Crontab

/-! ## 1. Lists of ticks -/

/-- Whether an instant lies between the start of a scope and its end, if it has one. -/
def Between (start : Instant) (last : Option Instant) (u : Instant) : Prop :=
  start ≤ u ∧ ∀ e, last = some e → u ≤ e

/-- The seconds that a crontab admits among some instants, in order and once each, up to the last of
them that is listed. -/
structure Lists (c : Crontab) (among : Instant → Prop) (ticks : List Instant) : Prop where
  ascending : ticks.Pairwise (· < ·)
  admitted : ∀ u ∈ ticks, c.StrikesAt u ∧ among u
  gapless : ∀ u, c.StrikesAt u → among u → ∀ v ∈ ticks, u ≤ v → u ∈ ticks

/-- Where the search for the tick after those listed begins: one second after the last of them, or
at the start. -/
def searchStart? (start : Instant) (ticks : List Instant) : Option Instant :=
  match ticks.getLast? with
  | none => some start
  | some tick => tick.add? (.ofSeconds 1)

/-- The search for the tick after those listed finds none within its five years, or only one after
the end of the scope. -/
def Exhausted (c : Crontab) (start : Instant) (last : Option Instant) (ticks : List Instant) :
    Prop :=
  ∃ s, searchStart? start ticks = some s ∧ ∀ u, c.StrikesFrom s u → ∃ e, last = some e ∧ e < u

theorem lists_nil (c : Crontab) (among : Instant → Prop) : c.Lists among [] :=
  ⟨List.Pairwise.nil, fun u hu => (by cases hu), fun u _ _ v hv => (by cases hv)⟩

theorem Lists.congr {c : Crontab} {p q : Instant → Prop} {ticks : List Instant}
    (h : c.Lists p ticks) (hpq : ∀ u, c.StrikesAt u → (p u ↔ q u)) : c.Lists q ticks := by
  refine ⟨h.ascending, fun u hu => ?_, fun u hu hq => h.gapless u hu ((hpq u hu).2 hq)⟩
  obtain ⟨hstrikes, hp⟩ := h.admitted u hu
  exact ⟨hstrikes, (hpq u hstrikes).1 hp⟩

/-- The first tick, in front of those that are later. -/
theorem Lists.cons {c : Crontab} {among : Instant → Prop} {tick : Instant} {ticks : List Instant}
    (hstrikes : c.StrikesAt tick) (hamong : among tick)
    (hfirst : ∀ u, c.StrikesAt u → among u → tick ≤ u)
    (h : c.Lists (fun u => tick < u ∧ among u) ticks) : c.Lists among (tick :: ticks) := by
  refine ⟨List.pairwise_cons.2 ⟨fun u hu => (h.admitted u hu).2.1, h.ascending⟩, fun u hu => ?_,
    fun u hu hin v hv huv => ?_⟩
  · obtain rfl | hu := List.mem_cons.1 hu
    · exact ⟨hstrikes, hamong⟩
    · obtain ⟨hadmitted, -, hin⟩ := h.admitted u hu
      exact ⟨hadmitted, hin⟩
  · by_cases hlater : tick < u
    · obtain rfl | hv := List.mem_cons.1 hv
      · exact absurd huv ((Instant.not_le u v).2 hlater)
      · exact List.mem_cons_of_mem tick (h.gapless u hu ⟨hlater, hin⟩ v hv huv)
    · rw [Instant.le_antisymm (Int.not_lt.1 hlater) (hfirst u hu hin)]
      exact List.mem_cons_self

/-! ## 2. One tick and the search for the next -/

section

variable {c : Crontab} {start s tick : Instant}

/-- No tick comes before one that a search has found, although the search ends after five years. -/
theorem le_of_firstOf (h : FirstOf (c.StrikesFrom start) (some tick)) {u : Instant}
    (hu : c.StrikesAt u) (hle : start ≤ u) : tick ≤ u := by
  by_cases hbefore : u ≤ tick
  · have hyear := (h.holds tick rfl).2.2
    obtain ⟨b, hb, hbu⟩ := h.first u ⟨hu, hle, Int.le_trans (Instant.year_mono hbefore) hyear⟩
    cases hb
    exact hbu
  · exact Instant.le_of_lt ((Instant.not_le u tick).1 hbefore)

/-- The second after a tick is the first that can follow it. -/
theorem secondAfter_le_iff (hnano : tick.nano = 0) (hs : tick.add? (.ofSeconds 1) = some s)
    {u : Instant} (hu : u.nano = 0) : s ≤ u ↔ tick < u := by
  obtain ⟨hsnano, hseconds⟩ := Instant.unixSeconds_of_add?_second hnano hs
  rw [← Instant.not_le, Instant.le_iff_unixSeconds hsnano, Instant.le_iff_unixSeconds hu, hseconds]
  omega

theorem searchStart?_cons (hs : tick.add? (.ofSeconds 1) = some s) (ticks : List Instant) :
    searchStart? start (tick :: ticks) = searchStart? s ticks := by
  cases ticks with
  | nil => exact hs
  | cons u us =>
    simp only [searchStart?, List.getLast?_cons_cons]
    cases hlast : (u :: us).getLast? with
    | none => simp at hlast
    | some v => rfl

end

/-- The last second of the calendar. -/
def lastSecond : Instant := .ofParts lastDay 86399 0

/-- A crontab that admits the last second of the sixth year before the last one admits the last
second of the calendar. -/
theorem strikesAt_lastSecond {c : Crontab} {u : Instant} (hu : c.StrikesAt u)
    (hday : u.day = dayOfDate ⟨lastYear - 6, 12, 31⟩) (hsecond : u.second = 86399) :
    c.StrikesAt lastSecond := by
  obtain ⟨-, hdate, htime⟩ := (c.strikesAt_iff u).1 hu
  refine (c.strikesAt_iff lastSecond).2 ⟨rfl, ?_, ?_⟩
  · have hmonth : (dateOfDay lastDay).month = (dateOfDay u.day).month := by
      rw [hday]
      decide +kernel
    have hmonthDay : (dateOfDay lastDay).day = (dateOfDay u.day).day := by
      rw [hday]
      decide +kernel
    have hweekday : weekday lastDay = weekday u.day := by
      rw [hday]
      decide +kernel
    simp only [admitsDay] at hdate ⊢
    rwa [show lastSecond.day = lastDay from rfl, hmonth, hmonthDay, hweekday]
  · rwa [hsecond] at htime

/-- A tick six years before the end of the calendar is followed by a search that has an answer. -/
theorem exists_following {c : Crontab} {tick : Instant} (hstrikes : c.StrikesAt tick)
    (hyear : tick.year + 6 ≤ lastYear) :
    ∃ s found, tick.add? (.ofSeconds 1) = some s ∧ c.next s = .ok found := by
  obtain ⟨s, hs⟩ := Instant.exists_add?_second hstrikes.1 (day_lt_lastDay (by omega))
  obtain ⟨hnano, hseconds⟩ := Instant.unixSeconds_of_add?_second hstrikes.1 hs
  cases hnext : c.next s with
  | ok found => exact ⟨s, found, hs, hnext⟩
  | error e =>
    exfalso
    have htick : tick.day < dayOfDate ⟨lastYear - 6 + 1, 1, 1⟩ :=
      (Instant.year_le_iff tick (lastYear - 6)).1 (by omega)
    have hnewYear : dayOfDate ⟨lastYear - 6 + 1, 1, 1⟩ = dayOfDate ⟨lastYear - 6, 12, 31⟩ + 1 := by
      decide
    have hend : dayOfDate ⟨lastYear - 6, 12, 31⟩ + 1 < lastDay := by decide
    have hticksecond := tick.second_lt
    have hssecond := s.second_lt
    simp only [Instant.unixSeconds, secondsPerDay] at hseconds hticksecond hssecond
    obtain ⟨hlate, hnone⟩ := eq_error_of_next (by omega) hnext
    have hs : ¬ s.day < dayOfDate ⟨lastYear - 6 + 1, 1, 1⟩ := by
      rw [← Instant.year_le_iff]
      omega
    have hlast : c.StrikesAt lastSecond := strikesAt_lastSecond hstrikes (by omega) (by omega)
    refine hnone lastSecond ⟨hlast, ?_, ?_⟩
    · rw [Instant.le_iff_begun hnano]
      exact Or.inl (show s.day < lastDay by omega)
    · have hyear : lastSecond.year = lastYear := by decide +kernel
      omega

/-! ## 3. What a cursor yields -/

/-- The ticks of a crontab that is searched from `start`, to the end `last`. -/
def series (c : Crontab) (found last : Option Instant) (inner : Inner) : Occurrences :=
  .series ⟨.cron c, found, last, inner⟩

theorem take_series_none (c : Crontab) (last : Option Instant) (inner : Inner) (n : Nat) :
    (c.series none last inner).take n = .ok [] :=
  Occurrences.take_of_next_none (Occurrences.next_series_none (Series.next_none _ last inner)) n

theorem take_series_ended {c : Crontab} {tick e : Instant} (inner : Inner) (h : e < tick)
    (n : Nat) :
    (c.series (some tick) (some e) inner).take n = .ok [] :=
  Occurrences.take_of_next_none (Occurrences.next_series_none (Series.next_ended _ inner h)) n

theorem take_series_succ {c : Crontab} {tick s : Instant} {last found : Option Instant}
    {ticks : List Scope} (inner : Inner) {n : Nat} (hend : ∀ e, last = some e → tick ≤ e)
    (hs : tick.add? (.ofSeconds 1) = some s) (hnext : c.next s = .ok found)
    (hrest : (c.series found last inner).take n = .ok ticks) :
    (c.series (some tick) last inner).take (n + 1)
      = .ok (Series.occurrence inner tick :: ticks) := by
  have hfollowing : Series.following (.cron c) tick = .ok found := by
    simp only [Series.following, hs, hnext]
  have hstep : (c.series (some tick) last inner).next
      = .ok (some (Series.occurrence inner tick, c.series found last inner)) :=
    Occurrences.next_series_some (Series.next_due inner hend hfollowing)
  rw [Occurrences.take_of_next_some hstep, hrest]
  rfl

/-- Whatever number of ticks is asked for, the cursor yields the first of them, as long as they stay
six years short of the end of the calendar. -/
theorem exists_ticks (c : Crontab) (last : Option Instant) (inner : Inner) (n : Nat)
    (start : Instant) (found : Option Instant) (h : FirstOf (c.StrikesFrom start) found) :
    ∃ ticks, ticks.length ≤ n ∧ c.Lists (Between start last) ticks
      ∧ ((∀ u ∈ ticks, u.year + 6 ≤ lastYear) →
        (c.series found last inner).take n = .ok (ticks.map (Series.occurrence inner))
          ∧ (ticks.length < n → c.Exhausted start last ticks)) := by
  induction n generalizing start found with
  | zero => exact ⟨[], Nat.le_refl 0, c.lists_nil _, fun _ => ⟨rfl, fun hlt => (by cases hlt)⟩⟩
  | succ n ih =>
    cases found with
    | none =>
      refine ⟨[], Nat.zero_le _, c.lists_nil _, fun _ => ⟨take_series_none c last inner _, ?_⟩⟩
      exact fun _ => ⟨start, rfl, fun u hu => absurd hu (h.eq_none_iff.1 rfl u)⟩
    | some tick =>
      obtain ⟨hstrikes, hstart, -⟩ := h.holds tick rfl
      by_cases hended : ∃ e, last = some e ∧ e < tick
      · obtain ⟨e, rfl, hlt⟩ := hended
        refine ⟨[], Nat.zero_le _, c.lists_nil _, fun _ => ⟨take_series_ended inner hlt _, ?_⟩⟩
        refine fun _ => ⟨start, rfl, fun u hu => ⟨e, rfl, ?_⟩⟩
        exact Instant.lt_of_lt_of_le hlt (le_of_firstOf h hu.1 hu.2.1)
      · have hend : ∀ e, last = some e → tick ≤ e := fun e he =>
          Int.not_lt.1 fun hlt => hended ⟨e, he, hlt⟩
        have hcons : ∀ ticks, c.Lists (fun u => tick < u ∧ Between start last u) ticks →
            c.Lists (Between start last) (tick :: ticks) := fun ticks =>
          Lists.cons hstrikes ⟨hstart, hend⟩ fun u hu hin => le_of_firstOf h hu hin.1
        by_cases hyear : tick.year + 6 ≤ lastYear
        · obtain ⟨s, found, hs, hnext⟩ := exists_following hstrikes hyear
          obtain ⟨ticks, hlength, hlists, htake⟩ := ih s found (firstOf_next hnext)
          refine ⟨tick :: ticks, Nat.succ_le_succ hlength, hcons ticks (hlists.congr ?_), ?_⟩
          · intro u hu
            rw [Between, Between, secondAfter_le_iff hstrikes.1 hs hu.1, ← and_assoc]
            refine and_congr_left fun _ => ⟨fun hlt => ⟨hlt, ?_⟩, And.left⟩
            exact Int.le_trans hstart (Instant.le_of_lt hlt)
          · intro hyears
            obtain ⟨hrest, hexhausted⟩ := htake fun u hu => hyears u (List.mem_cons_of_mem tick hu)
            refine ⟨take_series_succ inner hend hs hnext hrest, fun hlt => ?_⟩
            rw [Exhausted, searchStart?_cons hs]
            exact hexhausted (Nat.lt_of_succ_lt_succ hlt)
        · -- The calendar ends too soon for the ticks behind this one to be known.
          refine ⟨[tick], Nat.succ_le_succ (Nat.zero_le n), hcons [] (c.lists_nil _), ?_⟩
          exact fun hyears => absurd (hyears tick List.mem_cons_self) hyear

/-! ## 4. Search and cursor -/

/-- The loop of a crontab (`next_match`) finds the first whole second that all six fields admit,
from an instant to the end of the fifth year after its own, and nothing exactly if there is none;
from every instant it comes to what `next` does. The cursor of a scope that a crontab repeats yields
every such second from the start of the scope to its end, in order and once each, until a search
finds nothing within its own five years. -/
theorem search_and_cursor_are_exact (c : Crontab) :
    (∀ t : Instant, c.next t = c.nextMatch t)
    ∧ (∀ t : Instant, t.year + 6 ≤ lastYear → ∃ found, c.nextMatch t = .ok found
      ∧ (∀ u, found = some u ↔ (c.StrikesAt u ∧ t ≤ u ∧ u.year ≤ t.year + 5)
        ∧ ∀ v, c.StrikesAt v → t ≤ v → u ≤ v)
      ∧ (found = none ↔ ∀ u, c.StrikesAt u → t ≤ u → t.year + 5 < u.year))
    ∧ ∀ (s : Scope) (inner : Inner) (t : Instant), s.cadence = .cron c inner →
      let start := ((s.startAt t).getD t).later t
      start.year + 6 ≤ lastYear →
      ∃ os, Occurrences.ofScope s t = .ok os
        ∧ ∀ n, ∃ ticks, ticks.length ≤ n ∧ c.Lists (Between start (s.lastAt t)) ticks
          ∧ ((∀ u ∈ ticks, u.year + 6 ≤ lastYear) →
            os.take n = .ok (ticks.map (Series.occurrence inner))
              ∧ (ticks.length < n → c.Exhausted start (s.lastAt t) ticks)) := by
  refine ⟨fun t => (c.nextMatch_eq t).symm, fun t hyear => ?_, fun s inner t hcadence => ?_⟩
  · obtain ⟨found, hfound⟩ := c.exists_next hyear
    have hfirst := firstOf_next hfound
    rw [c.nextMatch_eq]
    refine ⟨found, hfound, fun u => ⟨fun hu => ?_, fun hu => ?_⟩, ?_⟩
    · subst hu
      exact ⟨hfirst.holds u rfl, fun v => le_of_firstOf hfirst⟩
    · obtain ⟨hin, hleast⟩ := hu
      obtain ⟨b, rfl, hb⟩ := hfirst.first u hin
      obtain ⟨hstrikes, hle, -⟩ := hfirst.holds b rfl
      rw [Instant.le_antisymm hb (hleast b hstrikes hle)]
    · rw [hfirst.eq_none_iff]
      exact ⟨fun hnone u hu hle => Int.not_le.1 fun h => hnone u ⟨hu, hle, h⟩,
        fun hnone u hu => Int.not_le.2 (hnone u hu.1 hu.2.1) hu.2.2⟩
  · intro start hyear
    obtain ⟨found, hfound⟩ := c.exists_next hyear
    refine ⟨c.series found (s.lastAt t) inner, ?_, fun n => ?_⟩
    · simp only [Occurrences.ofScope, hcadence]
      rw [hfound]
      rfl
    · exact c.exists_ticks (s.lastAt t) inner n start found (firstOf_next hfound)

/-- Midnight of the 29th of February, on any day of the week. -/
def leapDays : Crontab where
  seconds := .select .seconds (· == 0)
  minutes := .select .minutes (· == 0)
  hours := .select .hours (· == 0)
  days := .select .days (· == 29)
  weekdays := .select .weekdays fun _ => true
  months := .select .months (· == 2)

/-- Midnight of a day. -/
def midnight (day : Int) (hfirst : firstDay ≤ day) (hlast : day ≤ lastDay) : Instant :=
  ⟨day, 0, 0, hfirst, hlast, Instant.epoch.second_lt, Instant.epoch.nano_lt⟩

/-- The first day of 2097. -/
def newYear2097 : Instant := midnight 46387 (by decide) (by decide)

/-- The first leap day after that. -/
def leapDay2104 : Instant := midnight 49001 (by decide) (by decide)

/-- A scope that starts in 2097 and is repeated on leap days. -/
def onLeapDays : Scope := ⟨.fixed newYear2097, .through .future, .cron leapDays ⟨none, none⟩⟩

theorem isLeapYear_of_leapDays {u : Instant} (h : leapDays.StrikesAt u) :
    isLeapYear u.year = true := by
  have hday : u.date.day = 29 := by
    have hin := h.2 .days
    exact beq_iff_eq.1 (Admitted.mem_select.1 hin).2
  have hmonth : u.date.month = 2 := by
    have hin := h.2 .months
    exact beq_iff_eq.1 (Admitted.mem_select.1 hin).2
  have hexists : u.date.Exists := exists_dateOfDay u.day
  obtain ⟨-, -, -, hle⟩ := hexists
  rw [hday, hmonth] at hle
  cases hleap : isLeapYear u.year with
  | true => rfl
  | false =>
    rw [show u.date.year = u.year from rfl, hleap] at hle
    revert hle
    decide

theorem leapDay2104_strikes : leapDays.StrikesAt leapDay2104 :=
  (strikesAt_iff_matchesAt _ _).2 ⟨rfl, by decide +kernel⟩

theorem next_leapDays : leapDays.next newYear2097 = .ok none := by
  have hyear : newYear2097.year = 2097 := by decide +kernel
  obtain ⟨found, hfound⟩ := leapDays.exists_next (t := newYear2097) (by rw [hyear]; decide)
  rw [hfound, (firstOf_next hfound).eq_none_iff.2 fun u hu => ?_]
  obtain ⟨hstrikes, hle, hlate⟩ := hu
  have hleap := isLeapYear_of_leapDays hstrikes
  have hearly := Instant.year_mono hle
  simp only [isLeapYear, Bool.and_eq_true, Bool.or_eq_true, beq_iff_eq, bne_iff_ne] at hleap
  omega

/-- The cursor looks for leap days and finds the one of 2104, but for a scope that starts in 2097 it
gives up before it comes there, and no tick has been yielded after which the search could go on. -/
theorem silent_for_five_years :
    onLeapDays.cadence = .cron leapDays ⟨none, none⟩
      ∧ ((onLeapDays.startAt newYear2097).getD newYear2097).later newYear2097 = newYear2097
      ∧ newYear2097.year + 6 ≤ lastYear
      ∧ leapDays.StrikesAt leapDay2104 ∧ leapDay2104.year + 6 ≤ lastYear
      ∧ Between newYear2097 (onLeapDays.lastAt newYear2097) leapDay2104
      ∧ ∃ os, Occurrences.ofScope onLeapDays newYear2097 = .ok os ∧ ∀ n, os.take n = .ok [] := by
  have hstart : ((onLeapDays.startAt newYear2097).getD newYear2097).later newYear2097
      = newYear2097 := by decide +kernel
  refine ⟨rfl, hstart, by decide +kernel, leapDay2104_strikes, by decide +kernel,
    ⟨by decide +kernel, fun e he => (by cases he)⟩, leapDays.series none none ⟨none, none⟩, ?_,
    fun n => take_series_none _ _ _ n⟩
  simp only [Occurrences.ofScope]
  rw [hstart]
  change (leapDays.next newYear2097 >>= _) = _
  rw [next_leapDays]
  rfl

/-- From 2104 on there is a first leap day, and the cursor yields it. -/
theorem leap_days_from_2104 :
    leapDay2104.year + 6 ≤ lastYear
      ∧ (∃ found, leapDays.nextMatch leapDay2104 = .ok found ∧ found ≠ none)
      ∧ ∃ os, Occurrences.ofScope onLeapDays leapDay2104 = .ok os
        ∧ ∃ ticks, leapDays.Lists (Between leapDay2104 none) ticks
          ∧ ((∀ u ∈ ticks, u.year + 6 ≤ lastYear) →
            os.take 1 = .ok (ticks.map (Series.occurrence ⟨none, none⟩))) := by
  have hyear : leapDay2104.year + 6 ≤ lastYear := by decide +kernel
  obtain ⟨-, hsearch, hcursor⟩ := search_and_cursor_are_exact leapDays
  refine ⟨hyear, ?_, ?_⟩
  · obtain ⟨found, hfound, -, hnone⟩ := hsearch leapDay2104 hyear
    refine ⟨found, hfound, fun h => ?_⟩
    have hlate := hnone.1 h leapDay2104 leapDay2104_strikes (Int.le_refl _)
    omega
  · have hstart : ((onLeapDays.startAt leapDay2104).getD leapDay2104).later leapDay2104
        = leapDay2104 := by decide +kernel
    obtain ⟨os, hos, hticks⟩ := hcursor onLeapDays ⟨none, none⟩ leapDay2104 rfl (by rwa [hstart])
    obtain ⟨ticks, -, hlists, htake⟩ := hticks 1
    rw [hstart] at hlists
    exact ⟨os, hos, ticks, hlists, fun hyears => (htake hyears).1⟩

end Crontab

end Measurement
