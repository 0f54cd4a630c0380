/-
Instants in order.

An instant is before another by day, second of the day and nanoseconds, in that
order, so that instants are the same if they have one place (`eq_of_place_eq`).
What is searched for whole seconds asks for less: whether a second has begun at
an instant, which only days and seconds decide (`le_iff_begun`).

Where no leap second is involved, an instant is a number of nanoseconds, and
differences and sums are those of the numbers (`nanos_since`, `add?_eq_some_iff`).
Cut down to whole seconds, such instants are the same within one second, in the
years that leave room for their nanoseconds (`InOneSecond.wholeSecond_eq`).
-/
import Measurement.Time.Instant
import Measurement.Proofs.Time.Calendar

set_option autoImplicit false

namespace Measurement.Instant

open Measurement.Time

/-! ## 1. Order -/

theorem le_iff_place (a b : Instant) : a ≤ b ↔ a.place ≤ b.place := Iff.rfl

theorem eq_of_place_eq {a b : Instant} (h : a.place = b.place) : a = b := by
  have ha := a.second_lt
  have hb := b.second_lt
  have hna := a.nano_lt
  have hnb := b.nano_lt
  simp only [place, unixSeconds, nanosPerSecond, secondsPerDay] at *
  have hday : a.day = b.day := by omega
  have hsecond : a.second = b.second := by omega
  have hnano : a.nano = b.nano := by omega
  cases a
  cases b
  simp only at hday hsecond hnano
  subst hday hsecond hnano
  rfl

theorem le_antisymm {a b : Instant} (h : a ≤ b) (k : b ≤ a) : a = b :=
  eq_of_place_eq (Int.le_antisymm h k)

theorem not_le (a b : Instant) : ¬ a ≤ b ↔ b < a := Int.not_le

theorem lt_of_lt_of_le {a b c : Instant} (h : a < b) (k : b ≤ c) : a < c := Int.lt_of_lt_of_le h k

theorem le_of_lt {a b : Instant} (h : a < b) : a ≤ b := Int.le_of_lt h

/-- A second that begins at `s` has begun at `u` if it is no later second. -/
theorem le_iff_unixSeconds {s u : Instant} (h : s.nano = 0) :
    s ≤ u ↔ s.unixSeconds ≤ u.unixSeconds := by
  have hnano := u.nano_lt
  rw [le_iff_place]
  simp only [place, nanosPerSecond, h] at *
  omega

/-- A second has begun if it is on an earlier day, or earlier on the same day, or the same
second. -/
theorem le_iff_begun {s u : Instant} (h : s.nano = 0) :
    s ≤ u ↔ s.day < u.day ∨ (u.day = s.day ∧ s.second ≤ u.second) := by
  have hs := s.second_lt
  have hu := u.second_lt
  rw [le_iff_unixSeconds h]
  simp only [unixSeconds, secondsPerDay] at *
  omega

theorem unixSeconds_mono {a b : Instant} (h : a ≤ b) : a.unixSeconds ≤ b.unixSeconds := by
  have hb := b.nano_lt
  rw [le_iff_place] at h
  simp only [place, nanosPerSecond] at *
  omega

theorem day_mono {a b : Instant} (h : a ≤ b) : a.day ≤ b.day := by
  have ha := a.second_lt
  have hb := b.second_lt
  have hseconds := unixSeconds_mono h
  simp only [unixSeconds, secondsPerDay] at *
  omega

/-! ## 2. Years -/

/-- Years ascend with instants. -/
theorem year_mono {a b : Instant} (h : a ≤ b) : a.year ≤ b.year := year_dateOfDay_mono (day_mono h)

theorem year_le_iff (t : Instant) (year : Int) :
    t.year ≤ year ↔ t.day < dayOfDate ⟨year + 1, 1, 1⟩ := year_dateOfDay_le_iff t.day year

theorem le_year_iff (t : Instant) (year : Int) :
    year ≤ t.year ↔ dayOfDate ⟨year, 1, 1⟩ ≤ t.day := by
  have h := year_le_iff t (year - 1)
  rw [Int.sub_add_cancel] at h
  omega

/-! ## 3. The next second -/

theorem of?_eq_some {day : Int} {second nano : Nat} (hfirst : firstDay ≤ day)
    (hlast : day ≤ lastDay)
    (hsecond : second < secondsPerDay) (hnano : nano < 2 * nanosPerSecond) :
    of? day second nano = some ⟨day, second, nano, hfirst, hlast, hsecond, hnano⟩ := by
  rw [of?, dif_pos ⟨⟨hfirst, hlast⟩, hsecond, hnano⟩]

theorem tdiv_ofSeconds (n : Int) : (Span.ofSeconds n).nanos.tdiv nanosPerSecond = n :=
  Int.mul_tdiv_cancel n (by decide)

theorem tmod_ofSeconds (n : Int) : (Span.ofSeconds n).nanos.tmod nanosPerSecond = 0 :=
  Int.mul_tmod_left n nanosPerSecond

/-- A sum with whole seconds, from where a second begins. -/
theorem add?_ofSeconds {t : Instant} (hnano : t.nano = 0) (n : Int) :
    t.add? (.ofSeconds n)
      = of? ((t.unixSeconds + n) / secondsPerDay)
        ((t.unixSeconds + n) % secondsPerDay).toNat 0 := by
  have hleap : t.isLeap = false := by
    rw [isLeap, hnano]
    decide
  simp [add?, hleap, tdiv_ofSeconds, tmod_ofSeconds, ofUnix?, hnano]

theorem add?_second {t : Instant} (hnano : t.nano = 0) :
    t.add? (.ofSeconds 1)
      = of? ((t.unixSeconds + 1) / secondsPerDay) ((t.unixSeconds + 1) % secondsPerDay).toNat 0 :=
  add?_ofSeconds hnano 1

theorem unixSeconds_of_of? {day : Int} {second nano : Nat} {u : Instant}
    (h : of? day second nano = some u) :
    u.unixSeconds = day * secondsPerDay + second ∧ u.nano = nano := by
  unfold of? at h
  split at h
  · cases h
    exact ⟨rfl, rfl⟩
  · cases h

/-- Whole seconds forwards count as so many seconds, out of a leap second too. -/
theorem unixSeconds_of_add?_ofSeconds {t u : Instant} {n : Int} (hn : 0 < n)
    (h : t.add? (.ofSeconds n) = some u) :
    u.unixSeconds = t.unixSeconds + n ∧ (u.nano : Int) = (t.nano : Int) % nanosPerSecond := by
  have hlt := t.nano_lt
  simp only [add?, tdiv_ofSeconds, tmod_ofSeconds, Int.add_zero] at h
  cases hleap : t.isLeap with
  | true =>
    rw [hleap, if_pos rfl, if_pos (Or.inl hn)] at h
    have hge : nanosPerSecond ≤ t.nano := of_decide_eq_true hleap
    obtain ⟨hseconds, hnano⟩ := unixSeconds_of_of? h
    simp only [secondsPerDay, nanosPerSecond] at *
    omega
  | false =>
    rw [hleap, if_neg Bool.false_ne_true] at h
    have hplain := of_decide_eq_false hleap
    obtain ⟨hseconds, hnano⟩ := unixSeconds_of_of? h
    simp only [secondsPerDay, nanosPerSecond] at *
    omega

theorem unixSeconds_of_add?_second {t s : Instant} (hnano : t.nano = 0)
    (h : t.add? (.ofSeconds 1) = some s) : s.nano = 0 ∧ s.unixSeconds = t.unixSeconds + 1 := by
  obtain ⟨hseconds, hs⟩ := unixSeconds_of_add?_ofSeconds (by decide) h
  rw [hnano] at hs
  exact ⟨by simpa using hs, hseconds⟩

/-- A second that does not begin on the last day is followed by another one. -/
theorem exists_add?_second {t : Instant} (hnano : t.nano = 0) (hday : t.day < lastDay) :
    ∃ s, t.add? (.ofSeconds 1) = some s := by
  have hfirst := t.firstDay_le
  have hsecond := t.second_lt
  rw [add?_second hnano]
  simp only [unixSeconds, secondsPerDay] at hsecond ⊢
  rw [of?_eq_some (by omega) (by omega) (by simp only [secondsPerDay]; omega) (by decide)]
  exact ⟨_, rfl⟩

/-- The instant with these parts, or the epoch if the calendar has none with them. -/
def ofParts (day : Int) (second nano : Nat) : Instant := (of? day second nano).getD epoch

/-! ## 4. Nanoseconds -/

/-- The nanoseconds since the epoch, leap seconds not counted. -/
def nanos (t : Instant) : Int := t.unixSeconds * nanosPerSecond + t.nano

section

variable {a b t u : Instant}

theorem isLeap_eq_false_iff : t.isLeap = false ↔ t.nano < nanosPerSecond := by
  rw [isLeap, decide_eq_false_iff_not, Nat.not_le]

/-- Without leap seconds, instants are in the order of their nanoseconds. -/
theorem lt_iff_nanos (ha : a.isLeap = false) (hb : b.isLeap = false) :
    a < b ↔ a.nanos < b.nanos := by
  have hna := isLeap_eq_false_iff.1 ha
  have hnb := isLeap_eq_false_iff.1 hb
  change a.place < b.place ↔ _
  simp only [place, nanos, nanosPerSecond] at *
  omega

theorem le_iff_nanos (ha : a.isLeap = false) (hb : b.isLeap = false) :
    a ≤ b ↔ a.nanos ≤ b.nanos := by
  rw [← Int.not_lt, ← lt_iff_nanos hb ha, ← not_le]
  exact Decidable.not_not.symm

theorem eq_of_nanos_eq (ha : a.isLeap = false) (hb : b.isLeap = false) (h : a.nanos = b.nanos) :
    a = b :=
  le_antisymm ((le_iff_nanos ha hb).2 (Int.le_of_eq h))
    ((le_iff_nanos hb ha).2 (Int.le_of_eq h.symm))

theorem nanos_since (ha : a.isLeap = false) (hb : b.isLeap = false) :
    (a.since b).nanos = a.nanos - b.nanos := by
  have hsince : (a.since b).nanos
      = (a.unixSeconds - b.unixSeconds) * nanosPerSecond + ((a.nano : Int) - b.nano) := by
    simp [since, ha, hb]
  rw [hsince, nanos, nanos, nanosPerSecond]
  omega

/-- The nanoseconds at which the calendar ends. -/
def nanosOfEnd : Int := (lastDay + 1) * secondsPerDay * nanosPerSecond

theorem nanos_lt_nanosOfEnd (h : t.isLeap = false) : t.nanos < nanosOfEnd := by
  have hnano := isLeap_eq_false_iff.1 h
  have hsecond := t.second_lt
  have hday := t.le_lastDay
  simp only [nanos, nanosOfEnd, unixSeconds, nanosPerSecond, secondsPerDay] at *
  omega

theorem of?_eq_some_iff {day : Int} {second nano : Nat} :
    of? day second nano = some u ↔ u.day = day ∧ u.second = second ∧ u.nano = nano := by
  constructor
  · intro h
    rw [of?] at h
    split at h
    · cases h
      exact ⟨rfl, rfl, rfl⟩
    · cases h
  · rintro ⟨rfl, rfl, rfl⟩
    exact of?_eq_some u.firstDay_le u.le_lastDay u.second_lt u.nano_lt

theorem ofUnix?_eq_some_iff {seconds rest : Int} :
    ofUnix? seconds rest = some u
      ↔ u.isLeap = false ∧ u.nanos = seconds * nanosPerSecond + rest := by
  rw [ofUnix?, of?_eq_some_iff]
  constructor
  · rintro ⟨hday, hsecond, hnano⟩
    rw [isLeap_eq_false_iff]
    simp only [nanos, unixSeconds, nanosPerSecond, secondsPerDay] at *
    omega
  · rintro ⟨hleap, hnanos⟩
    have hnano := isLeap_eq_false_iff.1 hleap
    have hsecond := u.second_lt
    simp only [nanos, unixSeconds, nanosPerSecond, secondsPerDay] at *
    omega

theorem nanos_split (t : Instant) (d : Span) :
    (t.unixSeconds + d.nanos.tdiv nanosPerSecond) * nanosPerSecond
      + (t.nano + d.nanos.tmod nanosPerSecond) = t.nanos + d.nanos := by
  have hsplit := Int.tmod_add_mul_tdiv d.nanos nanosPerSecond
  rw [nanos]
  grind

/-- A sum of an instant and a span adds their nanoseconds. -/
theorem add?_eq_some_iff {d : Span} (h : t.isLeap = false) :
    t.add? d = some u ↔ u.isLeap = false ∧ u.nanos = t.nanos + d.nanos := by
  simp only [add?, h, Bool.false_eq_true, if_false]
  rw [ofUnix?_eq_some_iff, nanos_split]

/-- What lies between an instant and another one is an instant. -/
theorem exists_add? {d : Span} (ht : t.isLeap = false) (hu : u.isLeap = false) (hd : 0 ≤ d.nanos)
    (hle : t.nanos + d.nanos ≤ u.nanos) : ∃ s, t.add? d = some s := by
  have hfirst := t.firstDay_le
  have hlast := u.le_lastDay
  have hsecond := u.second_lt
  have hnano := isLeap_eq_false_iff.1 hu
  simp only [add?, ht, Bool.false_eq_true, if_false, ofUnix?]
  have hsum := nanos_split t d
  generalize t.unixSeconds + d.nanos.tdiv nanosPerSecond = seconds at *
  generalize (t.nano + d.nanos.tmod nanosPerSecond : Int) = rest at *
  simp only [nanos, unixSeconds, nanosPerSecond, secondsPerDay] at *
  refine ⟨_, of?_eq_some (by omega) (by omega) ?_ ?_⟩
  · simp only [secondsPerDay]
    omega
  · simp only [nanosPerSecond]
    omega

end

/-! ## 5. Whole seconds -/

/-- The nanoseconds of an instant from 1678 to 2261 fit 64 bits. -/
theorem inNanoRange_of_year {t : Instant} (hfirst : 1678 ≤ t.year) (hlast : t.year ≤ 2261) :
    t.inNanoRange = true := by
  have hday : (-106650 : Int) ≤ t.day := (le_year_iff t 1678).1 hfirst
  have hend : t.day < (106651 : Int) := (year_le_iff t 2261).1 hlast
  have hsecond := t.second_lt
  have hnano := t.nano_lt
  have hlimit : (Nat.pow 2 63 : Int) = 9223372036854775808 := rfl
  simp only [inNanoRange, hlimit, unixSeconds, nanosPerSecond, secondsPerDay] at *
  rw [decide_eq_true_eq]
  omega

theorem nanos_startOfSecond (t : Instant) :
    t.startOfSecond.nanos = t.unixSeconds * nanosPerSecond := Int.add_zero _

/-- Where instants are cut down to seconds, an instant without leap second is cut down to the
beginning of its second. -/
theorem wholeSecond_eq_startOfSecond {t : Instant} (hleap : t.isLeap = false)
    (hrange : t.inNanoRange = true) : t.wholeSecond = t.startOfSecond := by
  have hnano := isLeap_eq_false_iff.1 hleap
  -- Before the epoch, too, the remainder is what has passed of the second.
  have hrest : t.nanos % nanosPerSecond = t.nano := by
    simp only [nanos, nanosPerSecond] at *
    omega
  have hsum : t.add? ⟨-(t.nanos % nanosPerSecond)⟩ = some t.startOfSecond := by
    rw [add?_eq_some_iff hleap, nanos_startOfSecond, hrest, nanos]
    exact ⟨rfl, (Int.add_neg_cancel_right _ _).symm⟩
  rw [wholeSecond, if_pos hrange]
  exact congrArg (fun u : Option Instant => u.getD t) hsum

/-- Whether two instants lie in one second, which is none that leaps, of the years in which all
instants can be cut down to seconds. -/
structure InOneSecond (t u : Instant) : Prop where
  seconds : t.unixSeconds = u.unixSeconds
  plain : t.isLeap = false ∧ u.isLeap = false
  years : 1678 ≤ t.year ∧ t.year ≤ 2261

theorem InOneSecond.wholeSecond_eq {t u : Instant} (h : InOneSecond t u) :
    t.wholeSecond = u.wholeSecond := by
  have hstart : t.startOfSecond = u.startOfSecond := by
    refine eq_of_nanos_eq rfl rfl ?_
    rw [nanos_startOfSecond, nanos_startOfSecond, h.seconds]
  have hyear : t.year = u.year := by
    change t.startOfSecond.year = u.startOfSecond.year
    rw [hstart]
  have hrange := inNanoRange_of_year h.years.1 h.years.2
  have hrange' := inNanoRange_of_year (hyear ▸ h.years.1) (hyear ▸ h.years.2)
  rw [wholeSecond_eq_startOfSecond h.plain.1 hrange, hstart,
    wholeSecond_eq_startOfSecond h.plain.2 hrange']

end Measurement.Instant
