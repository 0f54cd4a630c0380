/-
The loop that searches a crontab.

`next_match` does not look for the least admitted time of a day, as `next` does. It
keeps one instant and moves it: to the next month while the month is not admitted,
else to the next day, hour, minute or second while that is not admitted, and it
stops where nothing is left to move (`turn`, `seek`). On its way it meets two kinds
of steps that can fail. A date or a time of day that does not exist ends the search
without result; a sum beyond the end of the calendar breaks it off, as nobody
looks at it before (`Stop`).

Three things are shown of it. Every turn moves the instant forward, so the loop
ends (`unixSeconds_lt_of_turn`). No turn passes over an admitted second, and where a
turn fails none is left (`turned_turn`, by the stretch of seconds that the turn leaves
behind); that is the invariant of the loop (`sought_seek`). And so the loop finds
what `next` finds, from every instant and up to the end of the calendar, where both
of them break off in the same cases (`nextMatch_eq`).
-/
import Measurement.Proofs.Crontab.Search

set_option autoImplicit false

namespace Measurement

open Measurement.Time

/-! ## 1. Changes of one part of an instant -/

namespace Instant

/-- The instant with another minute of its hour, if there is such a minute. -/
def withMinute? (t : Instant) (minute : Nat) : Option Instant :=
  if minute < 60 then of? t.day (t.hour * 3600 + minute * 60 + t.secondOfMinute) t.nano else none

/-- The instant with another second of its minute, if there is such a second. -/
def withSecond? (t : Instant) (second : Nat) : Option Instant :=
  if second < 60 then of? t.day (t.hour * 3600 + t.minute * 60 + second) t.nano else none

/-- The instant with other nanoseconds of its second, if a second has as many. -/
def withNano? (t : Instant) (nano : Nat) : Option Instant :=
  if nano < 2 * nanosPerSecond then of? t.day t.second nano else none

/-- Midnight of the day (`start_of_day`). -/
def startOfDay? (t : Instant) : Option Instant := of? t.day 0 0

/-- Midnight of the first day of the next month (`start_of_next_month`). -/
def startOfNextMonth? (t : Instant) : Option Instant := ofCivil? t.date.nextMonth 0 0 0 0

theorem withNano?_zero (t : Instant) : t.withNano? 0 = some t.startOfSecond := by
  rw [withNano?, if_pos (by decide)]
  exact of?_eq_some t.firstDay_le t.le_lastDay t.second_lt (by decide)

end Instant

namespace Crontab

/-! ## 2. The loop -/

/-- Why the search is left without a second. -/
inductive Stop where
  /-- A date or a time of day does not exist, or the years of the search are over. -/
  | nothing
  /-- A sum is beyond the end of the calendar. -/
  | brokenOff
deriving DecidableEq

/-- What there is, or a reason to stop. -/
def elseStop (e : Stop) : Option Instant → Except Stop Instant
  | some t => .ok t
  | none => .error e

/-- The instant a number of seconds after another. Nobody looks at the sum before it is taken. -/
def plus (t : Instant) (seconds : Int) : Except Stop Instant :=
  elseStop .brokenOff (t.add? (.ofSeconds seconds))

/-- A number of seconds after the beginning of a stretch, if it has one. -/
def skip (begun : Option Instant) (seconds : Int) : Except Stop (Option Instant) :=
  (elseStop .nothing begun).bind fun s => (plus s seconds).map some

/-- One turn of the loop of `next_match`: the instant it goes on from, or `none` where every field
admits the one it is at. -/
def turn (c : Crontab) (t : Instant) : Except Stop (Option Instant) :=
  if !c.admits .months (component t .months) then
    (elseStop .nothing t.startOfNextMonth?).map some
  else if !c.admits .days (component t .days) || !c.admits .weekdays (component t .weekdays) then
    skip t.startOfDay? 86400
  else if !c.admits .hours (component t .hours) then
    skip ((t.withMinute? 0).bind fun s => s.withSecond? 0) 3600
  else if !c.admits .minutes (component t .minutes) then skip (t.withSecond? 0) 60
  else if !c.admits .seconds (component t .seconds) then skip (some t) 1
  else .ok none

/-! ## 3. What a turn does -/

/-- Whether one of the stretches of `n` seconds into which a day is divided begins at `s`, and `t`
lies in it. -/
structure Begins (s t : Instant) (n : Int) : Prop where
  pos : 0 < n
  day : s.day = t.day
  aligned : (s.second : Int) % n = 0
  le : s.second ≤ t.second
  lt : t.second < s.second + n
  within : s.second + n ≤ secondsPerDay
  whole : t.nano = 0 → s.nano = 0

/-- Whether a crontab admits none of the `n` seconds from `s` on. -/
def Idle (c : Crontab) (s : Instant) (n : Int) : Prop :=
  ∀ u, c.StrikesAt u → s.unixSeconds ≤ u.unixSeconds → s.unixSeconds + n ≤ u.unixSeconds

section

variable {c : Crontab} {s t u : Instant} {n : Int}

theorem exists_begins {second nano : Nat} (hpos : 0 < n) (haligned : (second : Int) % n = 0)
    (hle : second ≤ t.second) (hlt : t.second < second + n) (hwithin : second + n ≤ secondsPerDay)
    (hnano : nano < 2 * nanosPerSecond) (hwhole : t.nano = 0 → nano = 0) :
    ∃ s, Instant.of? t.day second nano = some s ∧ Begins s t n := by
  refine ⟨_, Instant.of?_eq_some t.firstDay_le t.le_lastDay (by omega) hnano, ?_⟩
  exact ⟨hpos, rfl, haligned, hle, hlt, hwithin, hwhole⟩

theorem exists_startOfDay? (t : Instant) : ∃ s, t.startOfDay? = some s ∧ Begins s t 86400 := by
  have hsecond := t.second_lt
  simp only [secondsPerDay] at hsecond
  apply exists_begins (by decide) (by decide) (Nat.zero_le _) (by omega) (by decide) (by decide)
  intro _
  rfl

theorem withSecond?_zero (t : Instant) :
    t.withSecond? 0 = Instant.of? t.day (t.second / 60 * 60) t.nano := by
  have hparts : t.hour * 3600 + t.minute * 60 + 0 = t.second / 60 * 60 := by
    unfold Instant.hour Instant.minute
    omega
  rw [Instant.withSecond?, if_pos (by decide), hparts]

theorem exists_startOfMinute? (t : Instant) : ∃ s, t.withSecond? 0 = some s ∧ Begins s t 60 := by
  have hsecond := t.second_lt
  simp only [secondsPerDay] at hsecond
  rw [withSecond?_zero]
  apply exists_begins (by decide) (by omega) (by omega) (by omega) _ t.nano_lt
  · intro h
    exact h
  · simp only [secondsPerDay]
    omega

theorem exists_startOfHour? (t : Instant) :
    ∃ s, ((t.withMinute? 0).bind fun s => s.withSecond? 0) = some s ∧ Begins s t 3600 := by
  have hsecond := t.second_lt
  simp only [secondsPerDay] at hsecond
  have hminute : t.hour * 3600 + 0 * 60 + t.secondOfMinute < secondsPerDay := by
    unfold Instant.hour Instant.secondOfMinute secondsPerDay
    omega
  have hhour : (t.hour * 3600 + 0 * 60 + t.secondOfMinute) / 60 * 60 = t.second / 3600 * 3600 := by
    unfold Instant.hour Instant.secondOfMinute
    omega
  rw [Instant.withMinute?, if_pos (by decide),
    Instant.of?_eq_some t.firstDay_le t.le_lastDay hminute t.nano_lt, Option.bind_some,
    withSecond?_zero, hhour]
  change ∃ s, Instant.of? t.day (t.second / 3600 * 3600) t.nano = some s ∧ Begins s t 3600
  apply exists_begins (by decide) (by omega) (by omega) (by omega) _ t.nano_lt
  · intro h
    exact h
  · simp only [secondsPerDay]
    omega

theorem begins_self (t : Instant) : Begins t t 1 := by
  have hsecond := t.second_lt
  refine ⟨by decide, rfl, Int.emod_one _, Nat.le_refl _, by omega, ?_, fun h => h⟩
  simp only [secondsPerDay] at *
  omega

/-- In a stretch of a day all instants are of that day. -/
theorem Begins.day_eq (h : Begins s t n) (hle : s.unixSeconds ≤ u.unixSeconds)
    (hlt : u.unixSeconds < s.unixSeconds + n) :
    u.day = t.day ∧ s.second ≤ u.second ∧ u.second < s.second + n := by
  obtain ⟨-, hday, -, -, -, hwithin, -⟩ := h
  have hu := u.second_lt
  have hs := s.second_lt
  simp only [Instant.unixSeconds, secondsPerDay] at *
  omega

/-- A stretch is idle if a field does not admit what is the same throughout it. -/
theorem idle_of_component {f : Field} (hnot : c.admits f (component t f) = false)
    (hsame : ∀ u : Instant, s.unixSeconds ≤ u.unixSeconds → u.unixSeconds < s.unixSeconds + n →
      component u f = component t f) : c.Idle s n := by
  intro u hstrikes hle
  apply Int.not_lt.1
  intro hlt
  have hin := hstrikes.2 f
  rw [hsame u hle hlt] at hin
  exact absurd hin (of_decide_eq_false hnot)

/-! ### The four stretches -/

theorem idle_day (h : Begins s t 86400)
    (hnot : (c.admits .days (component t .days) && c.admits .weekdays (component t .weekdays))
      = false) :
    c.Idle s 86400 := by
  have hsame : ∀ u : Instant, s.unixSeconds ≤ u.unixSeconds →
      u.unixSeconds < s.unixSeconds + 86400 → u.day = t.day :=
    fun u hle hlt => (h.day_eq hle hlt).1
  rw [Bool.and_eq_false_iff] at hnot
  obtain hnot | hnot := hnot
  · apply idle_of_component hnot
    intro u hle hlt
    simp only [component, Instant.date, hsame u hle hlt]
  · apply idle_of_component hnot
    intro u hle hlt
    simp only [component, hsame u hle hlt]

theorem idle_hour (h : Begins s t 3600) (hnot : c.admits .hours (component t .hours) = false) :
    c.Idle s 3600 := by
  apply idle_of_component hnot
  intro u hle hlt
  obtain ⟨-, hfrom, hto⟩ := h.day_eq hle hlt
  obtain ⟨-, -, haligned, hbefore, hbehind, -, -⟩ := h
  change u.second / 3600 = t.second / 3600
  omega

theorem idle_minute (h : Begins s t 60) (hnot : c.admits .minutes (component t .minutes) = false) :
    c.Idle s 60 := by
  apply idle_of_component hnot
  intro u hle hlt
  obtain ⟨-, hfrom, hto⟩ := h.day_eq hle hlt
  obtain ⟨-, -, haligned, hbefore, hbehind, -, -⟩ := h
  change u.second / 60 % 60 = t.second / 60 % 60
  omega

theorem idle_second (hnot : c.admits .seconds (component t .seconds) = false) : c.Idle t 1 := by
  apply idle_of_component hnot
  intro u hle hlt
  obtain ⟨-, hfrom, hto⟩ := (begins_self t).day_eq hle hlt
  change u.second % 60 = t.second % 60
  omega

/-- All that a turn can do: pass over a month that is not admitted, pass over an idle stretch of a
day in a month that is, or stop where every field admits the instant. -/
theorem turn_cases (c : Crontab) (t : Instant) :
    (c.admits .months (component t .months) = false
        ∧ c.turn t = (elseStop .nothing t.startOfNextMonth?).map some)
      ∨ (c.admits .months (component t .months) = true
        ∧ ∃ s n, Begins s t n ∧ c.Idle s n ∧ c.turn t = (plus s n).map some)
      ∨ ((∀ f, component t f ∈ c.values f) ∧ c.turn t = .ok none) := by
  cases hmonth : c.admits .months (component t .months) with
  | false => exact Or.inl ⟨rfl, by simp only [turn, hmonth, Bool.not_false, if_true]⟩
  | true =>
    refine Or.inr ?_
    -- Where a stretch is passed over, every field above its own admits the instant.
    cases hday :
      c.admits .days (component t .days) && c.admits .weekdays (component t .weekdays) with
    | false =>
      obtain ⟨s, hs, hbegins⟩ := exists_startOfDay? t
      refine Or.inl ⟨rfl, s, 86400, hbegins, idle_day hbegins hday, ?_⟩
      simp only [turn, hmonth, ← Bool.not_and, hday, hs]
      rfl
    | true =>
      cases hhour : c.admits .hours (component t .hours) with
      | false =>
        obtain ⟨s, hs, hbegins⟩ := exists_startOfHour? t
        refine Or.inl ⟨rfl, s, 3600, hbegins, idle_hour hbegins hhour, ?_⟩
        simp only [turn, hmonth, ← Bool.not_and, hday, hhour, hs]
        rfl
      | true =>
        cases hminute : c.admits .minutes (component t .minutes) with
        | false =>
          obtain ⟨s, hs, hbegins⟩ := exists_startOfMinute? t
          refine Or.inl ⟨rfl, s, 60, hbegins, idle_minute hbegins hminute, ?_⟩
          simp only [turn, hmonth, ← Bool.not_and, hday, hhour, hminute, hs]
          rfl
        | true =>
          cases hsecond : c.admits .seconds (component t .seconds) with
          | false =>
            refine Or.inl ⟨rfl, t, 1, begins_self t, idle_second hsecond, ?_⟩
            simp only [turn, hmonth, ← Bool.not_and, hday, hhour, hminute, hsecond]
            rfl
          | true =>
            rw [Bool.and_eq_true] at hday
            refine Or.inr ⟨?_, by simp only [turn, hmonth, hday, hhour, hminute, hsecond]; rfl⟩
            intro f
            apply of_decide_eq_true
            cases f
            · exact hsecond
            · exact hminute
            · exact hhour
            · exact hday.1
            · exact hday.2
            · exact hmonth

/-! ### Forwards -/

theorem unixSeconds_startOfNextMonth? (h : t.startOfNextMonth? = some u) :
    u.unixSeconds = dayOfDate t.date.nextMonth * secondsPerDay ∧ u.nano = 0 := by
  unfold Instant.startOfNextMonth? Instant.ofCivil? at h
  split at h
  · obtain ⟨hseconds, hnano⟩ := Instant.unixSeconds_of_of? h
    exact ⟨by simpa using hseconds, hnano⟩
  · cases h

theorem day_lt_nextMonth (t : Instant) : t.day < dayOfDate t.date.nextMonth := by
  have hday := dayOfDate_dateOfDay t.day
  have hexists := exists_dateOfDay t.day
  have hlast := hexists.2.2.2
  unfold Instant.date
  rw [dayOfDate_nextMonth hexists, dayOfDate_firstOfMonth]
  unfold dayOfDate at hday
  omega

theorem plus_eq_ok (hpos : 0 < n) (h : plus s n = .ok u) :
    u.unixSeconds = s.unixSeconds + n ∧ (s.nano = 0 → u.nano = 0) := by
  unfold plus at h
  cases hu : s.add? (.ofSeconds n) with
  | none =>
    rw [hu] at h
    cases h
  | some v =>
    rw [hu] at h
    cases h
    obtain ⟨hseconds, hnano⟩ := Instant.unixSeconds_of_add?_ofSeconds hpos hu
    refine ⟨hseconds, ?_⟩
    intro hs
    rw [hs] at hnano
    simpa using hnano

/-- Every turn moves the instant forward. -/
theorem unixSeconds_lt_of_turn (h : c.turn t = .ok (some u)) : t.unixSeconds < u.unixSeconds := by
  obtain ⟨-, hturn⟩ | ⟨-, s, n, hbegins, -, hturn⟩ | ⟨-, hturn⟩ := c.turn_cases t
  · rw [hturn] at h
    cases hnext : t.startOfNextMonth? with
    | none =>
      rw [hnext] at h
      cases h
    | some v =>
      rw [hnext] at h
      cases h
      have hlater := day_lt_nextMonth t
      have hsecond := t.second_lt
      rw [(unixSeconds_startOfNextMonth? hnext).1]
      simp only [Instant.unixSeconds, secondsPerDay] at *
      omega
  · rw [hturn] at h
    cases hplus : plus s n with
    | error e =>
      rw [hplus] at h
      cases h
    | ok v =>
      rw [hplus] at h
      cases h
      rw [(plus_eq_ok hbegins.pos hplus).1]
      have hday := hbegins.day
      have hlt := hbegins.lt
      simp only [Instant.unixSeconds, hday] at *
      omega
  · rw [hturn] at h
    cases h

end

/-! ## 4. The search -/

/-- The loop of `next_match`, up to the end of a year. -/
def seek (c : Crontab) (limit : Int) (t : Instant) : Except Stop Instant :=
  if t.year ≤ limit then
    match _h : c.turn t with
    | .error e => .error e
    | .ok none => .ok t
    | .ok (some u) => seek c limit u
  else .error .nothing
termination_by ((lastDay + 1) * secondsPerDay - t.unixSeconds).toNat
decreasing_by
  have hlt := unixSeconds_lt_of_turn _h
  have hday := u.le_lastDay
  have hsecond := u.second_lt
  simp only [Instant.unixSeconds, secondsPerDay] at *
  omega

/-- What the search returns, if it returns. -/
def answer : Except Stop Instant → Except CalendarEnd (Option Instant)
  | .ok t => .ok (some t)
  | .error .nothing => .ok none
  | .error .brokenOff => .error .passed

/-- The first whole second from an instant on: the instant is cut down to its second, and moved on
by one if that came before it. -/
def firstSecond (t : Instant) : Except Stop Instant :=
  (elseStop .nothing (t.withNano? 0)).bind fun s => if s < t then plus s 1 else .ok s

/-- The first whole second from an instant on that the crontab admits (`Crontab::next_match`). -/
def nextMatch (c : Crontab) (t : Instant) : Except CalendarEnd (Option Instant) :=
  answer ((firstSecond t).bind (c.seek (t.year + searchYears)))

/-! ## 5. What the loop keeps -/

/-- The seconds that a crontab admits from an instant to the end of a year. -/
def StrikesUntil (c : Crontab) (limit : Int) (t u : Instant) : Prop :=
  c.StrikesAt u ∧ t ≤ u ∧ u.year ≤ limit

/-- What a turn at the beginning of a second comes to: it passes over no admitted second, and where
it fails there is none left. Only a month that is not admitted is passed over to where there is no
date, and only the last day of the calendar is passed over by a sum. -/
def Turned (c : Crontab) (t : Instant) : Except Stop (Option Instant) → Prop
  | .ok none => c.StrikesAt t
  | .ok (some u) => u.nano = 0 ∧ ∀ v, c.StrikesAt v → t ≤ v → u ≤ v
  | .error .nothing => 12 ∉ c.months.values ∧ ∀ v, c.StrikesAt v → ¬ t ≤ v
  | .error .brokenOff =>
    (12 ∈ c.months.values ∧ t.year = lastYear) ∧ ∀ v, c.StrikesAt v → ¬ t ≤ v

/-- What the loop comes to: the first second that is searched for, and nothing only if there is
none. It stops with the last month where that is not admitted, and breaks off in it where it is. -/
structure Sought (c : Crontab) (limit : Int) (t : Instant) (r : Except Stop Instant) : Prop where
  first : FirstOf (c.StrikesUntil limit t) r.toOption
  nothing : r = .error .nothing → 12 ∈ c.months.values → limit < lastYear
  brokenOff : r = .error .brokenOff → 12 ∈ c.months.values ∧ lastYear ≤ limit

theorem date_lastDay : dateOfDay lastDay = ⟨lastYear, 12, 31⟩ := by decide +kernel

section

variable {c : Crontab} {s t u : Instant} {n : Int}

theorem le_lastYear (t : Instant) : t.year ≤ lastYear := by
  have hmono := year_dateOfDay_mono t.le_lastDay
  rwa [date_lastDay] at hmono

/-- The next month begins in the calendar or behind its last day. -/
theorem year_nextMonth_le (h : dayOfDate t.date.nextMonth ≤ lastDay) :
    firstYear ≤ t.date.nextMonth.year ∧ t.date.nextMonth.year ≤ lastYear := by
  have hfirst : firstYear ≤ t.date.year := (Instant.le_year_iff t firstYear).2 t.firstDay_le
  have hlast : t.date.year ≤ lastYear := le_lastYear t
  unfold Date.nextMonth at h ⊢
  by_cases hdecember : t.date.month = 12
  · rw [if_pos hdecember] at h ⊢
    change firstYear ≤ t.date.year + 1 ∧ t.date.year + 1 ≤ lastYear
    refine ⟨by omega, ?_⟩
    apply Int.not_lt.1
    intro hlt
    have hmono : daysBeforeYear (lastYear + 1) ≤ daysBeforeYear (t.date.year + 1) :=
      daysBeforeYear_mono hlt
    have hend : lastDay < daysBeforeYear (lastYear + 1) - epochOffset := by decide
    rw [dayOfDate_newYear] at h
    omega
  · rw [if_neg hdecember]
    exact ⟨hfirst, hlast⟩

theorem exists_nextMonth (t : Instant) : t.date.nextMonth.Exists := by
  obtain ⟨hfirst, hlast, -, -⟩ := exists_dateOfDay t.day
  change 1 ≤ t.date.month at hfirst
  change t.date.month ≤ 12 at hlast
  have hdays : ∀ leap month, 1 ≤ daysInMonth leap month := by
    intro leap month
    unfold daysInMonth
    split <;> try split
    all_goals decide
  unfold Date.nextMonth
  by_cases hdecember : t.date.month = 12
  · rw [if_pos hdecember]
    exact ⟨Nat.le_refl 1, Nat.le_add_left 1 11, Nat.le_refl 1, hdays _ _⟩
  · rw [if_neg hdecember]
    refine ⟨Nat.le_add_left 1 t.date.month, ?_, Nat.le_refl 1, hdays _ _⟩
    change t.date.month + 1 ≤ 12
    omega

/-- There is a date for the first of the next month unless that is behind the calendar. -/
theorem exists_startOfNextMonth? (h : dayOfDate t.date.nextMonth ≤ lastDay) :
    ∃ u, t.startOfNextMonth? = some u := by
  have hday := day_lt_nextMonth t
  have hfirst := t.firstDay_le
  obtain ⟨hyear, hyearEnd⟩ := year_nextMonth_le h
  rw [Instant.startOfNextMonth?, Instant.ofCivil?,
    if_pos ⟨exists_nextMonth t, hyear, hyearEnd, by decide, by decide, by decide⟩]
  exact ⟨_, Instant.of?_eq_some (by omega) h (by decide) (by decide)⟩

/-- A sum with a stretch fails only behind the calendar. -/
theorem lastDay_lt_of_plus_eq_error {e : Stop} (hbegins : Begins s t n) (hs : s.nano = 0)
    (h : plus s n = .error e) :
    e = .brokenOff ∧ (lastDay + 1) * secondsPerDay ≤ s.unixSeconds + n := by
  unfold plus at h
  cases hu : s.add? (.ofSeconds n) with
  | some u =>
    rw [hu] at h
    cases h
  | none =>
    rw [hu] at h
    cases h
    refine ⟨rfl, ?_⟩
    apply Int.not_lt.1
    intro hlt
    have hfirst := s.firstDay_le
    have hpos := hbegins.pos
    rw [Instant.add?_ofSeconds hs] at hu
    simp only [Instant.unixSeconds, secondsPerDay] at hlt hu
    rw [Instant.of?_eq_some (by omega) (by omega) (by simp only [secondsPerDay]; omega)
      (by decide)] at hu
    cases hu

/-- No second of a month that is not admitted is. -/
theorem nextMonth_le_of_strikesAt (hnot : c.admits .months (component t .months) = false)
    (hu : c.StrikesAt u) (hle : t ≤ u) : dayOfDate t.date.nextMonth ≤ u.day := by
  apply Int.not_lt.1
  intro hlt
  have hin := hu.2 .months
  have hmonth : u.date.month = t.date.month := month_dateOfDay_eq (Instant.day_mono hle) hlt
  change u.date.month ∈ _ at hin
  rw [hmonth] at hin
  exact absurd hin (of_decide_eq_false hnot)

/-- A turn keeps what is searched for. -/
theorem turned_turn (c : Crontab) (ht : t.nano = 0) : c.Turned t (c.turn t) := by
  obtain ⟨hnot, hturn⟩ | ⟨hmonth, s, n, hbegins, hidle, hturn⟩ | ⟨hall, hturn⟩ := c.turn_cases t
  · rw [hturn]
    by_cases hend : dayOfDate t.date.nextMonth ≤ lastDay
    · obtain ⟨u, hu⟩ := exists_startOfNextMonth? hend
      obtain ⟨hseconds, hnano⟩ := unixSeconds_startOfNextMonth? hu
      rw [hu]
      refine ⟨hnano, ?_⟩
      intro v hv hle
      have hday := nextMonth_le_of_strikesAt hnot hv hle
      rw [Instant.le_iff_unixSeconds hnano, hseconds]
      simp only [Instant.unixSeconds, secondsPerDay]
      omega
    · -- The month of the last day is the last one.
      have hdecember : t.date.month = 12 := by
        have hsame := month_dateOfDay_eq t.le_lastDay (Int.not_le.1 hend)
        rw [date_lastDay] at hsame
        exact hsame.symm
      have hnone : t.startOfNextMonth? = none := by
        cases hu : t.startOfNextMonth? with
        | none => rfl
        | some u =>
          have hseconds := (unixSeconds_startOfNextMonth? hu).1
          have hday := u.le_lastDay
          have hsecond := u.second_lt
          simp only [Instant.unixSeconds, secondsPerDay] at hseconds hsecond
          omega
      rw [hnone]
      refine ⟨?_, ?_⟩
      · change c.admits .months t.date.month = false at hnot
        rw [hdecember] at hnot
        exact of_decide_eq_false hnot
      · intro v hv hle
        have hday := nextMonth_le_of_strikesAt hnot hv hle
        have hlast := v.le_lastDay
        omega
  · rw [hturn]
    have hs := hbegins.whole ht
    have hbehind : ∀ v, c.StrikesAt v → t ≤ v → s.unixSeconds + n ≤ v.unixSeconds := by
      intro v hv hle
      apply hidle v hv
      have hseconds := Instant.unixSeconds_mono hle
      have hday := hbegins.day
      have hsecond := hbegins.le
      simp only [Instant.unixSeconds, hday] at hseconds ⊢
      omega
    cases hplus : plus s n with
    | ok u =>
      obtain ⟨hseconds, hnano⟩ := plus_eq_ok hbegins.pos hplus
      refine ⟨hnano hs, ?_⟩
      intro v hv hle
      rw [Instant.le_iff_unixSeconds (hnano hs), hseconds]
      exact hbehind v hv hle
    | error e =>
      obtain ⟨rfl, hlast⟩ := lastDay_lt_of_plus_eq_error hbegins hs hplus
      have hday : t.day = lastDay := by
        have hle := t.le_lastDay
        have hwithin := hbegins.within
        have hsday := hbegins.day
        simp only [Instant.unixSeconds, secondsPerDay, hsday] at *
        omega
      have hdate : t.date = ⟨lastYear, 12, 31⟩ := by rw [Instant.date, hday, date_lastDay]
      refine ⟨⟨?_, ?_⟩, ?_⟩
      · change c.admits .months t.date.month = true at hmonth
        rw [hdate] at hmonth
        exact of_decide_eq_true hmonth
      · rw [Instant.year, hdate]
      · intro v hv hle
        have hseconds := hbehind v hv hle
        have hvday := v.le_lastDay
        have hvsecond := v.second_lt
        simp only [Instant.unixSeconds, secondsPerDay] at *
        omega
  · rw [hturn]
    exact ⟨ht, hall⟩

/-- One turn of the loop and the rest of it. -/
theorem seek_eq {limit : Int} (hyear : t.year ≤ limit) :
    c.seek limit t = (c.turn t).bind fun o => o.elim (.ok t) (c.seek limit) := by
  rw [seek, if_pos hyear]
  split
  · rename_i hturn
    rw [hturn]
    rfl
  · rename_i hturn
    rw [hturn]
    rfl
  · rename_i hturn
    rw [hturn]
    rfl

/-- The loop finds the first second that the crontab admits, to the end of the year. -/
theorem sought_seek (c : Crontab) (limit : Int) (t : Instant) (ht : t.nano = 0) :
    c.Sought limit t (c.seek limit t) := by
  -- The induction is along the loop: a turn moves the instant over nothing that is searched for.
  induction t using seek.induct c limit with
  | case1 t hyear e hturn =>
    have hturned := c.turned_turn ht
    rw [seek_eq hyear]
    rw [hturn] at hturned ⊢
    cases e with
    | nothing =>
      refine ⟨FirstOf.none_of fun u hu => hturned.2 u hu.1 hu.2.1, fun _ hin => ?_, fun h => ?_⟩
      · exact absurd hin hturned.1
      · cases h
    | brokenOff =>
      obtain ⟨⟨hmonth, hlast⟩, hnone⟩ := hturned
      refine ⟨FirstOf.none_of fun u hu => hnone u hu.1 hu.2.1, fun h => ?_, fun _ => ?_⟩
      · cases h
      · exact ⟨hmonth, by omega⟩
  | case2 t hyear hturn =>
    have hturned := c.turned_turn ht
    rw [seek_eq hyear]
    rw [hturn] at hturned ⊢
    refine ⟨⟨?_, ?_⟩, fun h => (by cases h), fun h => (by cases h)⟩
    · intro u hu
      cases hu
      exact ⟨hturned, Int.le_refl _, hyear⟩
    · intro u hu
      exact ⟨t, rfl, hu.2.1⟩
  | case3 t hyear u hturn ih =>
    have hturned := c.turned_turn ht
    rw [seek_eq hyear]
    rw [hturn] at hturned ⊢
    obtain ⟨hu, hpassed⟩ := hturned
    have hle : t ≤ u := by
      rw [Instant.le_iff_unixSeconds ht]
      exact Int.le_of_lt (unixSeconds_lt_of_turn hturn)
    refine ⟨(ih hu).first.congr fun v => ?_, (ih hu).nothing, (ih hu).brokenOff⟩
    refine and_congr_right fun hv => and_congr_left fun _ => ?_
    exact ⟨Int.le_trans hle, hpassed v hv⟩
  | case4 t hyear =>
    have hlast := le_lastYear t
    rw [seek, if_neg hyear]
    refine ⟨FirstOf.none_of fun u hu => ?_, fun _ _ => by omega, fun h => (by cases h)⟩
    have hlater := Instant.year_mono hu.2.1
    have hlimit := hu.2.2
    omega

/-! ## 6. The loop and the search through days -/

/-- From the beginning of a second on, the loop and the search through days come to the same. -/
theorem answer_seek (c : Crontab) (year : Int) {s : Instant} (hs : s.nano = 0) :
    answer (c.seek year s) = c.searchDays (daysThrough year s.day) s.day s.second := by
  obtain ⟨hfirst, hnothing, hbrokenOff⟩ := c.sought_seek year s hs
  have hsame := strikesWithin_daysThrough_iff (c := c) hs year
  have hdecember : c.admits .months (dateOfDay lastDay).month = true ↔ 12 ∈ c.months.values := by
    rw [date_lastDay, admits, decide_eq_true_eq]
    exact Iff.rfl
  have herror : c.searchDays (daysThrough year s.day) s.day s.second = .error .passed
      ↔ lastYear ≤ year
        ∧ (∀ u, ¬ c.StrikesWithin (daysThrough year s.day) s.day s.second u)
        ∧ 12 ∈ c.months.values := by
    rw [c.searchDays_eq_error_iff s.firstDay_le s.le_lastDay, lastDay_lt_daysThrough_iff, hdecember]
  have hnone : (c.seek year s).toOption = none ↔
      ∀ u, ¬ c.StrikesWithin (daysThrough year s.day) s.day s.second u := by
    rw [hfirst.eq_none_iff]
    exact forall_congr' fun u => not_congr (hsame u).symm
  cases hfound : c.searchDays (daysThrough year s.day) s.day s.second with
  | error e =>
    cases e
    obtain ⟨hlast, hempty, hmonth⟩ := herror.1 hfound
    cases hseek : c.seek year s with
    | ok u =>
      rw [hseek] at hnone
      exact absurd (hnone.2 hempty) (Option.some_ne_none u)
    | error stop =>
      cases stop with
      | nothing =>
        have hbefore := hnothing hseek hmonth
        omega
      | brokenOff => rfl
  | ok found =>
    -- There is one first, so what the loop found is what the days gave.
    have hexact := (c.firstOf_searchDays s.firstDay_le s.le_lastDay hfound).congr hsame
    have heq := FirstOf.eq_of_antisymm (fun _ _ => Instant.le_antisymm) hexact hfirst
    cases hseek : c.seek year s with
    | ok u =>
      rw [heq, hseek]
      rfl
    | error stop =>
      cases stop with
      | nothing =>
        rw [heq, hseek]
        rfl
      | brokenOff =>
        obtain ⟨hmonth, hlast⟩ := hbrokenOff hseek
        rw [hseek] at hnone
        rw [herror.2 ⟨hlast, hnone.1 rfl, hmonth⟩] at hfound
        cases hfound

theorem startOfSecond_lt_iff (t : Instant) : t.startOfSecond < t ↔ t.nano ≠ 0 := by
  have hplace : t.startOfSecond.place = t.unixSeconds * (2 * nanosPerSecond : Nat) := by
    simp [Instant.place, Instant.startOfSecond, Instant.unixSeconds]
  change t.startOfSecond.place < t.place ↔ _
  rw [hplace, Instant.place]
  omega

theorem firstSecond_eq (t : Instant) :
    firstSecond t = (wholeSecondFrom t).mapError fun _ => .brokenOff := by
  unfold firstSecond wholeSecondFrom
  rw [Instant.withNano?_zero]
  change (if t.startOfSecond < t then plus t.startOfSecond 1 else .ok t.startOfSecond) = _
  by_cases hnano : t.nano = 0
  · have hsame : t.startOfSecond = t := by
      apply Instant.eq_of_place_eq
      simp [Instant.place, Instant.startOfSecond, Instant.unixSeconds, hnano]
    rw [if_neg fun h => (startOfSecond_lt_iff t).1 h hnano, if_pos hnano, hsame]
    rfl
  · rw [if_pos ((startOfSecond_lt_iff t).2 hnano), if_neg hnano, plus]
    cases t.startOfSecond.add? (.ofSeconds 1) with
    | none => rfl
    | some s => rfl

/-- The loop finds what `next` finds, from every instant, and breaks off where `next` does. -/
theorem nextMatch_eq (c : Crontab) (t : Instant) : c.nextMatch t = c.next t := by
  unfold nextMatch
  rw [firstSecond_eq]
  cases hs : wholeSecondFrom t with
  | error e =>
    cases e
    unfold next
    rw [hs]
    rfl
  | ok s =>
    rw [next_eq_of_wholeSecondFrom hs]
    exact c.answer_seek _ (wholeSecondFrom_eq_ok hs).1

end

end Crontab

end Measurement
