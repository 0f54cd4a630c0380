/-
The search of a crontab is exact.

Everything here is one statement about several searches: what is found has the
property that is searched for and comes first among all that have it, and if
there is something to find then something is found (`FirstOf`). Two searches
that follow one another make one (`FirstOf.or`), and this is how the least time
of a day is put together from its three candidates and the search through the
days from its first day and the rest.

The search through the days goes wrong only at the end of the calendar, and then
there was nothing to find on the days before it (`searchDays_eq_error_iff`). So an
instant whose search stays within the calendar has an answer (`exists_next`), and
every answer is the first whole second that the crontab admits, within five years
(`firstOf_next`).
-/
import Measurement.Crontab.Search
import Measurement.Proofs.Time.Instant

set_option autoImplicit false

namespace Measurement

open Measurement.Time

/-! ## 1. The first that has a property -/

/-- What a search gives: the first that has a property, and nothing only if none has it. -/
structure FirstOf {α : Type} [LE α] (p : α → Prop) (found : Option α) : Prop where
  holds : ∀ a, found = some a → p a
  first : ∀ a, p a → ∃ b, found = some b ∧ b ≤ a

namespace FirstOf

variable {α : Type} [LE α] {p q : α → Prop} {x y : Option α}

theorem congr (h : FirstOf p x) (hpq : ∀ a, p a ↔ q a) : FirstOf q x :=
  ⟨fun a ha => (hpq a).1 (h.holds a ha), fun a ha => h.first a ((hpq a).2 ha)⟩

theorem none_of (h : ∀ a, ¬ p a) : FirstOf p none :=
  ⟨fun a ha => (by cases ha), fun a ha => absurd ha (h a)⟩

theorem eq_none_iff (h : FirstOf p x) : x = none ↔ ∀ a, ¬ p a := by
  constructor
  · rintro rfl a ha
    obtain ⟨b, hb, -⟩ := h.first a ha
    cases hb
  · intro hnone
    cases x with
    | none => rfl
    | some a => exact absurd (h.holds a rfl) (hnone a)

/-- There is one first at most. -/
theorem eq_of_antisymm (hle : ∀ a b : α, a ≤ b → b ≤ a → a = b) (hx : FirstOf p x)
    (hy : FirstOf p y) : x = y := by
  cases x with
  | none => exact (hy.eq_none_iff.2 (hx.eq_none_iff.1 rfl)).symm
  | some a =>
    obtain ⟨b, hb, hba⟩ := hy.first a (hx.holds a rfl)
    obtain ⟨d, hd, hdb⟩ := hx.first b (hy.holds b hb)
    rw [Option.some.injEq] at hd
    subst hd
    rw [hb, hle a b hdb hba]

/-- Two searches of which the second looks behind the first, and only if the first gives nothing. -/
theorem or (hp : FirstOf p x) (hq : x = none → FirstOf q y) (hle : ∀ a b, p a → q b → a ≤ b) :
    FirstOf (fun a => p a ∨ q a) (x.or y) := by
  cases x with
  | none =>
    have hnone : ∀ a, ¬ p a := hp.eq_none_iff.1 rfl
    exact (hq rfl).congr fun a => ⟨Or.inr, fun h => h.resolve_left (hnone a)⟩
  | some b =>
    have hb : p b := hp.holds b rfl
    refine ⟨fun a ha => ?_, fun a ha => ⟨b, rfl, ?_⟩⟩
    · rw [Option.some_or, Option.some.injEq] at ha
      rw [← ha]
      exact Or.inl hb
    · cases ha with
      | inl h =>
        obtain ⟨c, hc, hca⟩ := hp.first a h
        cases hc
        exact hca
      | inr h => exact hle b a hb h

end FirstOf

namespace Crontab

/-! ## 2. Fields -/

namespace Admitted

variable {f : Field}

theorem mem_range {a : Admitted f} {v : Nat} (h : v ∈ a.values) : v ∈ f.range := by
  rw [a.ordered] at h
  exact (List.mem_filter.1 h).1

theorem le_greatest {a : Admitted f} {v : Nat} (h : v ∈ a.values) : v ≤ f.greatest :=
  (Field.mem_range.1 (mem_range h)).2

theorem pairwise_lt (a : Admitted f) : a.values.Pairwise (· < ·) := by
  rw [a.ordered]
  exact List.Pairwise.filter _ List.pairwise_lt_range'

theorem firstOf_from? (a : Admitted f) (n : Nat) :
    FirstOf (fun v => v ∈ a.values ∧ n ≤ v) (a.from? n) := by
  refine ⟨fun v hv => ⟨List.mem_of_find?_eq_some hv, ?_⟩, ?_⟩
  · have hle := List.find?_some hv
    exact of_decide_eq_true hle
  · rintro v ⟨hv, hle⟩
    cases hfound : a.from? n with
    | none =>
      rw [from?, List.find?_eq_none] at hfound
      exact absurd (decide_eq_true hle) (hfound v hv)
    | some w =>
      rw [from?, List.find?_eq_some_iff_append] at hfound
      obtain ⟨-, before, after, heq, hbefore⟩ := hfound
      refine ⟨w, rfl, ?_⟩
      have hsorted := a.pairwise_lt
      rw [heq] at hsorted hv
      rw [List.mem_append, List.mem_cons] at hv
      obtain hin | rfl | hin := hv
      · have hlt := hbefore v hin
        simp only [Bool.not_eq_true', decide_eq_false_iff_not] at hlt
        exact absurd hle hlt
      · exact Nat.le_refl v
      · have hcons := (List.pairwise_append.1 hsorted).2.1
        exact Nat.le_of_lt ((List.pairwise_cons.1 hcons).1 v hin)

/-- The least value of a field is the first in its list. -/
theorem head?_eq_from? (a : Admitted f) : a.values.head? = a.from? 0 := by
  rw [from?]
  cases a.values with
  | nil => rfl
  | cons v vs => rfl

end Admitted

/-! ## 3. Times of day -/

/-- Whether the fields for hours, minutes and seconds admit a second of the day. -/
def AdmitsTime (c : Crontab) (n : Nat) : Prop :=
  n / 3600 ∈ c.hours.values ∧ n / 60 % 60 ∈ c.minutes.values ∧ n % 60 ∈ c.seconds.values

theorem secondOfDay_parts (hour : Nat) {minute second : Nat} (hminute : minute < 60)
    (hsecond : second < 60) :
    secondOfDay hour minute second / 3600 = hour
      ∧ secondOfDay hour minute second / 60 % 60 = minute
      ∧ secondOfDay hour minute second % 60 = second := by
  unfold secondOfDay
  omega

theorem secondOfDay_of_parts (n : Nat) : secondOfDay (n / 3600) (n / 60 % 60) (n % 60) = n := by
  unfold secondOfDay
  omega

section

variable {c : Crontab} {h m s : Nat}

theorem minute_lt (hm : m ∈ c.minutes.values) : m < 60 :=
  Nat.lt_succ_of_le (Admitted.le_greatest hm)

theorem second_lt (hs : s ∈ c.seconds.values) : s < 60 :=
  Nat.lt_succ_of_le (Admitted.le_greatest hs)

theorem admitsTime_secondOfDay (hh : h ∈ c.hours.values) (hm : m ∈ c.minutes.values)
    (hs : s ∈ c.seconds.values) : c.AdmitsTime (secondOfDay h m s) := by
  obtain ⟨h1, h2, h3⟩ := secondOfDay_parts h (minute_lt hm) (second_lt hs)
  refine ⟨?_, ?_, ?_⟩
  · rwa [h1]
  · rwa [h2]
  · rwa [h3]

end

/-- The least admitted second of the same minute. -/
theorem firstOf_sameMinute (c : Crontab) (n : Nat) :
    FirstOf (fun k => c.AdmitsTime k ∧ n ≤ k ∧ k / 60 = n / 60)
      (if n / 3600 ∈ c.hours.values ∧ n / 60 % 60 ∈ c.minutes.values then
        (c.seconds.from? (n % 60)).map fun s => secondOfDay (n / 3600) (n / 60 % 60) s
      else none) := by
  have hseconds := c.seconds.firstOf_from? (n % 60)
  split
  · rename_i h
    obtain ⟨hhour, hminute⟩ := h
    refine ⟨fun k hk => ?_, fun k hk => ?_⟩
    · obtain ⟨s, hs, rfl⟩ := Option.map_eq_some_iff.1 hk
      obtain ⟨hin, hle⟩ := hseconds.holds s hs
      refine ⟨admitsTime_secondOfDay hhour hminute hin, ?_⟩
      have hlt := second_lt hin
      unfold secondOfDay
      omega
    · obtain ⟨⟨-, -, hin⟩, hle, hsame⟩ := hk
      obtain ⟨s, hs, hleast⟩ := hseconds.first (k % 60) ⟨hin, by omega⟩
      refine ⟨_, Option.map_eq_some_iff.2 ⟨s, hs, rfl⟩, ?_⟩
      unfold secondOfDay
      omega
  · rename_i h
    refine FirstOf.none_of fun k hk => h ?_
    obtain ⟨⟨hhour, hminute, -⟩, -, hsame⟩ := hk
    rw [← hsame]
    refine ⟨?_, hminute⟩
    rwa [show n / 3600 = k / 3600 by omega]

/-- The least admitted second of a later minute of the same hour. -/
theorem firstOf_sameHour (c : Crontab) (n : Nat) :
    FirstOf (fun k => c.AdmitsTime k ∧ k / 3600 = n / 3600 ∧ n / 60 < k / 60)
      (if n / 3600 ∈ c.hours.values then
        (c.minutes.from? (n / 60 % 60 + 1)).bind fun m =>
          c.seconds.values.head?.map fun s => secondOfDay (n / 3600) m s
      else none) := by
  have hminutes := c.minutes.firstOf_from? (n / 60 % 60 + 1)
  have hseconds := c.seconds.firstOf_from? 0
  rw [c.seconds.head?_eq_from?]
  split
  · rename_i hhour
    refine ⟨fun k hk => ?_, fun k hk => ?_⟩
    · obtain ⟨m, hm, hk⟩ := Option.bind_eq_some_iff.1 hk
      obtain ⟨s, hs, rfl⟩ := Option.map_eq_some_iff.1 hk
      obtain ⟨hminute, hle⟩ := hminutes.holds m hm
      obtain ⟨hsecond, -⟩ := hseconds.holds s hs
      have hmlt := minute_lt hminute
      have hslt := second_lt hsecond
      refine ⟨admitsTime_secondOfDay hhour hminute hsecond, ?_⟩
      unfold secondOfDay
      omega
    · obtain ⟨⟨-, hminute, hsecond⟩, hsame, hlater⟩ := hk
      obtain ⟨m, hm, hmle⟩ := hminutes.first (k / 60 % 60) ⟨hminute, by omega⟩
      obtain ⟨s, hs, hsle⟩ := hseconds.first (k % 60) ⟨hsecond, Nat.zero_le _⟩
      refine ⟨_, Option.bind_eq_some_iff.2 ⟨m, hm, Option.map_eq_some_iff.2 ⟨s, hs, rfl⟩⟩, ?_⟩
      unfold secondOfDay
      omega
  · rename_i hhour
    refine FirstOf.none_of fun k hk => hhour ?_
    obtain ⟨⟨h, -, -⟩, hsame, -⟩ := hk
    rwa [← hsame]

/-- The least admitted second of a later hour. -/
theorem firstOf_laterHour (c : Crontab) (n : Nat) :
    FirstOf (fun k => c.AdmitsTime k ∧ n / 3600 < k / 3600)
      ((c.hours.from? (n / 3600 + 1)).bind fun h =>
        c.minutes.values.head?.bind fun m =>
          c.seconds.values.head?.map fun s => secondOfDay h m s) := by
  have hhours := c.hours.firstOf_from? (n / 3600 + 1)
  have hminutes := c.minutes.firstOf_from? 0
  have hseconds := c.seconds.firstOf_from? 0
  rw [c.minutes.head?_eq_from?, c.seconds.head?_eq_from?]
  refine ⟨fun k hk => ?_, fun k hk => ?_⟩
  · obtain ⟨h, hh, hk⟩ := Option.bind_eq_some_iff.1 hk
    obtain ⟨m, hm, hk⟩ := Option.bind_eq_some_iff.1 hk
    obtain ⟨s, hs, rfl⟩ := Option.map_eq_some_iff.1 hk
    obtain ⟨hhour, hle⟩ := hhours.holds h hh
    obtain ⟨hminute, -⟩ := hminutes.holds m hm
    obtain ⟨hsecond, -⟩ := hseconds.holds s hs
    refine ⟨admitsTime_secondOfDay hhour hminute hsecond, ?_⟩
    rw [(secondOfDay_parts h (minute_lt hminute) (second_lt hsecond)).1]
    exact hle
  · obtain ⟨⟨hhour, hminute, hsecond⟩, hlater⟩ := hk
    obtain ⟨h, hh, hhle⟩ := hhours.first (k / 3600) ⟨hhour, hlater⟩
    obtain ⟨m, hm, hmle⟩ := hminutes.first (k / 60 % 60) ⟨hminute, Nat.zero_le _⟩
    obtain ⟨s, hs, hsle⟩ := hseconds.first (k % 60) ⟨hsecond, Nat.zero_le _⟩
    refine ⟨_, Option.bind_eq_some_iff.2 ⟨h, hh, Option.bind_eq_some_iff.2
      ⟨m, hm, Option.map_eq_some_iff.2 ⟨s, hs, rfl⟩⟩⟩, ?_⟩
    have hparts := secondOfDay_of_parts k
    unfold secondOfDay at hparts ⊢
    omega

/-- The least admitted time from a second of the day on keeps its hour and minute, or keeps its
hour, or neither. -/
theorem firstOf_timeFrom? (c : Crontab) (n : Nat) :
    FirstOf (fun k => c.AdmitsTime k ∧ n ≤ k) (c.timeFrom? n) := by
  have hrest := (firstOf_sameHour c n).or (fun _ => firstOf_laterHour c n) fun a b ha hb => by omega
  have hall := (firstOf_sameMinute c n).or (fun _ => hrest) fun a b ha hb => by omega
  refine hall.congr fun k => ?_
  constructor
  · rintro (⟨h, hk⟩ | ⟨h, hk⟩ | ⟨h, hk⟩)
    all_goals exact ⟨h, by omega⟩
  · rintro ⟨h, hle⟩
    by_cases hminute : k / 60 = n / 60
    · exact Or.inl ⟨h, hle, hminute⟩
    · by_cases hhour : k / 3600 = n / 3600
      · exact Or.inr (Or.inl ⟨h, hhour, by omega⟩)
      · exact Or.inr (Or.inr ⟨h, by omega⟩)

/-! ## 4. Days -/

/-- Whether a whole second begins at an instant and all six fields admit it. -/
def StrikesAt (c : Crontab) (t : Instant) : Prop :=
  t.nano = 0 ∧ ∀ f : Field, component t f ∈ c.values f

theorem strikesAt_iff_matchesAt (c : Crontab) (t : Instant) :
    c.StrikesAt t ↔ t.nano = 0 ∧ c.matchesAt t = true := by
  rw [StrikesAt, matchesAt, List.all_eq_true]
  simp only [admits, decide_eq_true_eq]
  refine and_congr_right fun _ => ⟨fun h f _ => h f, fun h f => h f ?_⟩
  cases f <;> decide

/-- The fields look at the day and the time of day apart. -/
theorem strikesAt_iff (c : Crontab) (t : Instant) :
    c.StrikesAt t ↔ t.nano = 0 ∧ c.admitsDay t.day = true ∧ c.AdmitsTime t.second := by
  simp only [StrikesAt, admitsDay, admits, Bool.and_eq_true, decide_eq_true_eq, AdmitsTime]
  refine and_congr_right fun _ => ⟨fun h => ?_, fun h f => ?_⟩
  · exact ⟨⟨⟨h .months, h .days⟩, h .weekdays⟩, h .hours, h .minutes, h .seconds⟩
  · obtain ⟨⟨⟨hmonth, hday⟩, hweekday⟩, hhour, hminute, hsecond⟩ := h
    cases f
    · exact hsecond
    · exact hminute
    · exact hhour
    · exact hday
    · exact hweekday
    · exact hmonth

/-- Whether an instant comes at a second of a day or later. -/
def Reaches (day : Int) (second : Nat) (u : Instant) : Prop :=
  day < u.day ∨ (u.day = day ∧ second ≤ u.second)

theorem admitsTime_lt {c : Crontab} {n : Nat} (h : c.AdmitsTime n) : n < secondsPerDay := by
  have hhour : n / 3600 ≤ 23 := Admitted.le_greatest h.1
  unfold secondsPerDay
  omega

/-- The least admitted instant on a day, from a second of the day on. -/
def dayFrom? (c : Crontab) (day : Int) (second : Nat) : Option Instant :=
  (if c.admitsDay day then c.timeFrom? second else none).bind fun n => Instant.of? day n 0

theorem firstOf_dayFrom? (c : Crontab) {day : Int} (second : Nat) (hfirst : firstDay ≤ day)
    (hlast : day ≤ lastDay) :
    FirstOf (fun u => c.StrikesAt u ∧ u.day = day ∧ second ≤ u.second) (c.dayFrom? day second) := by
  have htime := c.firstOf_timeFrom? second
  rw [dayFrom?]
  split
  · rename_i hday
    have hof : ∀ n, n < secondsPerDay → ∃ t, Instant.of? day n 0 = some t ∧ t.day = day
        ∧ t.second = n ∧ t.nano = 0 := fun n hn =>
      ⟨_, Instant.of?_eq_some hfirst hlast hn (by decide), rfl, rfl, rfl⟩
    refine ⟨fun u hu => ?_, fun u hu => ?_⟩
    · obtain ⟨n, hn, hu⟩ := Option.bind_eq_some_iff.1 hu
      obtain ⟨hadmits, hle⟩ := htime.holds n hn
      obtain ⟨t, ht, rfl, rfl, hnano⟩ := hof n (admitsTime_lt hadmits)
      rw [ht, Option.some.injEq] at hu
      subst hu
      exact ⟨(c.strikesAt_iff t).2 ⟨hnano, hday, hadmits⟩, rfl, hle⟩
    · obtain ⟨hstrikes, hsame, hle⟩ := hu
      obtain ⟨hnano, -, hadmits⟩ := (c.strikesAt_iff u).1 hstrikes
      obtain ⟨n, hn, hnle⟩ := htime.first u.second ⟨hadmits, hle⟩
      obtain ⟨t, ht, hd, hs, htnano⟩ := hof n (admitsTime_lt (htime.holds n hn).1)
      refine ⟨t, Option.bind_eq_some_iff.2 ⟨n, hn, ht⟩, ?_⟩
      exact (Instant.le_iff_begun htnano).2 (Or.inr ⟨by rw [hsame, hd], by rw [hs]; exact hnle⟩)
  · rename_i hday
    refine FirstOf.none_of fun u hu => hday ?_
    obtain ⟨hstrikes, hsame, -⟩ := hu
    rw [← hsame]
    exact ((c.strikesAt_iff u).1 hstrikes).2.1

/-- A search stops on the first day that gives something. -/
theorem searchDays_of_some {c : Crontab} {days : Nat} {day : Int} {second : Nat} {t : Instant}
    (h : c.dayFrom? day second = some t) : c.searchDays (days + 1) day second = .ok (some t) := by
  rw [dayFrom?] at h
  simp only [searchDays, h]

theorem searchDays_of_none {c : Crontab} {days : Nat} {day : Int} {second : Nat}
    (h : c.dayFrom? day second = none) :
    c.searchDays (days + 1) day second =
      if day < lastDay then c.searchDays days (day + 1) 0
      else if c.admits .months (dateOfDay day).month then .error .passed
      else .ok none := by
  rw [dayFrom?] at h
  simp only [searchDays, h]

/-- What is searched for: a second that the crontab admits, on a number of days from a second of the
first day on. -/
def StrikesWithin (c : Crontab) (days : Nat) (day : Int) (second : Nat) (u : Instant) : Prop :=
  c.StrikesAt u ∧ Reaches day second u ∧ u.day < day + days

/-- The first day and the days behind it. -/
theorem strikesWithin_succ {c : Crontab} {days : Nat} {day : Int} {second : Nat} {u : Instant} :
    (c.StrikesAt u ∧ u.day = day ∧ second ≤ u.second) ∨ c.StrikesWithin days (day + 1) 0 u
      ↔ c.StrikesWithin (days + 1) day second u := by
  rw [StrikesWithin, StrikesWithin, ← and_or_left]
  refine and_congr_right fun _ => ?_
  unfold Reaches
  omega

/-- What a search through days gives is the first second that the crontab admits on these days. -/
theorem firstOf_searchDays (c : Crontab) {days : Nat} {day : Int} {second : Nat}
    {found : Option Instant} (hfirst : firstDay ≤ day) (hlast : day ≤ lastDay)
    (h : c.searchDays days day second = .ok found) :
    FirstOf (c.StrikesWithin days day second) found := by
  induction days generalizing day second with
  | zero =>
    cases h
    refine FirstOf.none_of fun u hu => ?_
    obtain ⟨-, hreaches, hlt⟩ := hu
    unfold Reaches at hreaches
    omega
  | succ days ih =>
    have hday := c.firstOf_dayFrom? second hfirst hlast
    have hle : ∀ a b, (c.StrikesAt a ∧ a.day = day ∧ second ≤ a.second) →
        c.StrikesWithin days (day + 1) 0 b → a ≤ b := by
      intro a b ha hb
      rw [Instant.le_iff_begun ha.1.1]
      have hreaches := hb.2.1
      unfold Reaches at hreaches
      omega
    cases hhere : c.dayFrom? day second with
    | some t =>
      rw [searchDays_of_some hhere] at h
      cases h
      rw [hhere] at hday
      exact (hday.or (y := none) (fun hnone => by cases hnone) hle).congr fun u =>
        strikesWithin_succ
    | none =>
      rw [searchDays_of_none hhere] at h
      rw [hhere] at hday
      refine (hday.or (y := found) (fun _ => ?_) hle).congr fun u => strikesWithin_succ
      by_cases hbefore : day < lastDay
      · rw [if_pos hbefore] at h
        exact ih (by omega) (by omega) h
      · rw [if_neg hbefore] at h
        split at h
        · cases h
        · cases h
          -- There are no instants behind the last day.
          refine FirstOf.none_of fun u hu => ?_
          have hend := u.le_lastDay
          have hreaches := hu.2.1
          unfold Reaches at hreaches
          omega

/-- A search runs into the end of the calendar if it would go on behind the last day, has found
nothing on the days before, and does not pass over the last month as a whole. -/
theorem searchDays_eq_error_iff (c : Crontab) {days : Nat} {day : Int} {second : Nat}
    (hfirst : firstDay ≤ day) (hlast : day ≤ lastDay) :
    c.searchDays days day second = .error .passed
      ↔ lastDay < day + days ∧ (∀ u, ¬ c.StrikesWithin days day second u)
        ∧ c.admits .months (dateOfDay lastDay).month = true := by
  induction days generalizing day second with
  | zero =>
    constructor
    · intro h
      cases h
    · intro h
      omega
  | succ days ih =>
    have hday := c.firstOf_dayFrom? second hfirst hlast
    cases hhere : c.dayFrom? day second with
    | some t =>
      have hstrikes := strikesWithin_succ.1 (Or.inl (b := c.StrikesWithin days (day + 1) 0 t)
        (hday.holds t hhere))
      rw [searchDays_of_some hhere]
      constructor
      · intro h
        cases h
      · intro h
        exact absurd hstrikes (h.2.1 t)
    | none =>
      have hnone := hday.eq_none_iff.1 hhere
      rw [searchDays_of_none hhere]
      by_cases hbefore : day < lastDay
      · have hrest : (∀ u, ¬ c.StrikesWithin (days + 1) day second u)
            ↔ ∀ u, ¬ c.StrikesWithin days (day + 1) 0 u := by
          refine forall_congr' fun u => not_congr ?_
          rw [← strikesWithin_succ]
          exact ⟨fun h => h.resolve_left (hnone u), Or.inr⟩
        have hdays : lastDay < day + 1 + days ↔ lastDay < day + (days + 1 : Nat) := by omega
        rw [if_pos hbefore, ih (by omega) (by omega), hrest, hdays]
      · -- Nothing comes behind the last day, so the months alone decide.
        obtain rfl : day = lastDay := by omega
        have hall : ∀ u, ¬ c.StrikesWithin (days + 1) lastDay second u := by
          intro u hu
          have hend := u.le_lastDay
          obtain ⟨hstrikes, hreaches, -⟩ := hu
          unfold Reaches at hreaches
          exact hnone u ⟨hstrikes, by omega⟩
        rw [if_neg hbefore]
        cases hmonth : c.admits .months (dateOfDay lastDay).month with
        | false => simp
        | true =>
          rw [if_pos rfl]
          exact ⟨fun _ => ⟨by omega, hall, rfl⟩, fun _ => rfl⟩

/-! ## 5. The next instant -/

theorem wholeSecondFrom_eq_ok {t s : Instant} (h : wholeSecondFrom t = .ok s) :
    s.nano = 0 ∧ ∀ u : Instant, u.nano = 0 → (s ≤ u ↔ t ≤ u) := by
  rw [wholeSecondFrom] at h
  split at h
  · rename_i hnano
    cases h
    exact ⟨hnano, fun u _ => Iff.rfl⟩
  · rename_i hnano
    split at h
    · rename_i v hv
      cases h
      obtain ⟨hs, hseconds⟩ := Instant.unixSeconds_of_add?_second rfl hv
      refine ⟨hs, fun u hu => ?_⟩
      have hstart : t.startOfSecond.unixSeconds = t.unixSeconds := rfl
      have hlt := t.nano_lt
      rw [Instant.le_iff_unixSeconds hs, hseconds, hstart, Instant.le_iff_place]
      simp only [Instant.place, nanosPerSecond, hu] at hlt ⊢
      omega
    · cases h

theorem exists_wholeSecondFrom {t : Instant} (h : t.day < lastDay) :
    ∃ s, wholeSecondFrom t = .ok s := by
  rw [wholeSecondFrom]
  split
  · exact ⟨t, rfl⟩
  · obtain ⟨s, hs⟩ := Instant.exists_add?_second (t := t.startOfSecond) rfl h
    rw [hs]
    exact ⟨s, rfl⟩

/-- What the next instant is searched for from `t` on: a second that the crontab admits, in the year
of `t` or one of the five after it. -/
def StrikesFrom (c : Crontab) (t u : Instant) : Prop :=
  c.StrikesAt u ∧ t ≤ u ∧ u.year ≤ t.year + 5

/-- The days from a second to the end of a year are those of the calendar up to that year. -/
theorem strikesWithin_daysThrough_iff {c : Crontab} {s : Instant} (hnano : s.nano = 0) (year : Int)
    (u : Instant) : c.StrikesWithin (daysThrough year s.day) s.day s.second u
      ↔ c.StrikesAt u ∧ s ≤ u ∧ u.year ≤ year := by
  refine and_congr_right fun _ => ?_
  rw [Instant.le_iff_begun hnano, Instant.year_le_iff]
  refine and_congr_right fun hreaches => ?_
  rw [daysThrough]
  unfold Reaches at hreaches
  omega

/-- The days to the end of a year go beyond the calendar if the year does not come before its
last. -/
theorem lastDay_lt_daysThrough_iff (s : Instant) (year : Int) :
    lastDay < s.day + daysThrough year s.day ↔ lastYear ≤ year := by
  have hday := s.le_lastDay
  have hlast : (dateOfDay lastDay).year = lastYear := by decide +kernel
  rw [← hlast, year_dateOfDay_le_iff, daysThrough]
  omega

/-- The days to the end of the fifth year after that of an instant are those of its search. -/
theorem strikesWithin_daysThrough {c : Crontab} {t s : Instant} (hs : wholeSecondFrom t = .ok s)
    (u : Instant) :
    c.StrikesWithin (daysThrough (t.year + searchYears) s.day) s.day s.second u
      ↔ c.StrikesFrom t u := by
  obtain ⟨hnano, hle⟩ := wholeSecondFrom_eq_ok hs
  rw [strikesWithin_daysThrough_iff hnano]
  refine and_congr_right fun hstrikes => ?_
  rw [hle u hstrikes.1]
  rfl

theorem next_eq_of_wholeSecondFrom {c : Crontab} {t s : Instant} (hs : wholeSecondFrom t = .ok s) :
    c.next t = c.searchDays (daysThrough (t.year + searchYears) s.day) s.day s.second := by
  rw [next, hs]
  rfl

/-- Every answer of a search is exact. -/
theorem firstOf_next {c : Crontab} {t : Instant} {found : Option Instant}
    (h : c.next t = .ok found) : FirstOf (c.StrikesFrom t) found := by
  cases hs : wholeSecondFrom t with
  | error e =>
    rw [next, hs] at h
    cases h
  | ok s =>
    rw [next_eq_of_wholeSecondFrom hs] at h
    have hfound := c.firstOf_searchDays s.firstDay_le s.le_lastDay h
    exact hfound.congr fun u => strikesWithin_daysThrough hs u

/-- A search has no answer only if it runs into the end of the calendar, in the fifth year after its
start or before, and has found nothing until then. -/
theorem eq_error_of_next {c : Crontab} {t : Instant} {e : CalendarEnd} (hday : t.day < lastDay)
    (h : c.next t = .error e) : lastYear < t.year + 6 ∧ ∀ u, ¬ c.StrikesFrom t u := by
  obtain ⟨s, hs⟩ := exists_wholeSecondFrom hday
  cases e
  rw [next_eq_of_wholeSecondFrom hs, c.searchDays_eq_error_iff s.firstDay_le s.le_lastDay] at h
  obtain ⟨hend, hnone, -⟩ := h
  refine ⟨Int.not_le.1 fun hle => ?_, fun u hu => hnone u ((strikesWithin_daysThrough hs u).2 hu)⟩
  have hmono : daysBeforeYear (t.year + 6) ≤ daysBeforeYear lastYear := daysBeforeYear_mono hle
  have hlast : daysBeforeYear lastYear - epochOffset ≤ lastDay := by decide
  have hsday := s.le_lastDay
  rw [daysThrough, searchYears, dayOfDate_newYear,
    show t.year + 5 + 1 = t.year + 6 by omega] at hend
  omega

theorem day_lt_lastDay {t : Instant} (h : t.year < lastYear) : t.day < lastDay := by
  have hday := (Instant.year_le_iff t (lastYear - 1)).1 (by omega)
  have hlast : dayOfDate ⟨lastYear - 1 + 1, 1, 1⟩ ≤ lastDay := by decide
  omega

/-- An instant six years before the end of the calendar has an answer. -/
theorem exists_next (c : Crontab) {t : Instant} (h : t.year + 6 ≤ lastYear) :
    ∃ found, c.next t = .ok found := by
  cases hnext : c.next t with
  | ok found => exact ⟨found, rfl⟩
  | error e =>
    have hend := (eq_error_of_next (day_lt_lastDay (by omega)) hnext).1
    omega

end Crontab

end Measurement
