/-
Sums of instants and spans, leap seconds included.

Without leap seconds a sum adds nanoseconds. A leap second is the second before
it lived through once more, so forwards from inside it a sum either stays there
or goes on as from the second before, which ends when the leap second does
(`add?_of_staysIn`, `add?_of_not_staysIn`). Sums forwards therefore compose
(`add?_add?`), and what comes before an instant that a sum leads to is an instant
as well (`exists_add?_of_le`).
-/
import Measurement.Proofs.Time.Instant

set_option autoImplicit false

namespace Measurement

namespace Instant

variable {t u : Instant} {d e : Span}

/-! ## 1. Leap seconds -/

/-- A sum is no leap second, unless it stays inside the one that it started from. -/
theorem add?_cases (h : t.add? d = some u) :
    (u.isLeap = false ∧ ∃ seconds : Int,
        u.nanos = seconds * nanosPerSecond + t.nano + d.nanos.tmod nanosPerSecond)
      ∨ (t.isLeap = true ∧ u.second = t.second
        ∧ u.nano = ((t.nano : Int) + d.nanos.tmod nanosPerSecond).toNat) := by
  rw [add?] at h
  by_cases hleap : t.isLeap = true
  · simp only [hleap, if_true] at h
    split at h
    · obtain ⟨hu, hnanos⟩ := ofUnix?_eq_some_iff.1 h
      refine .inl ⟨hu, t.unixSeconds + d.nanos.tdiv nanosPerSecond - 1, ?_⟩
      rw [hnanos, Int.sub_mul]
      omega
    · split at h
      · obtain ⟨hu, hnanos⟩ := ofUnix?_eq_some_iff.1 h
        refine .inl ⟨hu, t.unixSeconds + d.nanos.tdiv nanosPerSecond, ?_⟩
        rw [hnanos, Int.add_right_comm, Int.add_mul]
        omega
      · obtain ⟨-, hsecond, hnano⟩ := of?_eq_some_iff.1 h
        exact .inr ⟨hleap, hsecond, hnano⟩
  · simp only [hleap] at h
    obtain ⟨hu, hnanos⟩ := ofUnix?_eq_some_iff.1 h
    refine .inl ⟨hu, t.unixSeconds + d.nanos.tdiv nanosPerSecond, ?_⟩
    rw [hnanos, Int.add_assoc]

/-- The instant, or the same place in the second before if it lies in a leap second. -/
def beforeLeap (t : Instant) : Instant :=
  { t with
    nano := t.nano % nanosPerSecond
    nano_lt := Nat.lt_of_le_of_lt (Nat.mod_le _ _) t.nano_lt }

theorem isLeap_beforeLeap (t : Instant) : t.beforeLeap.isLeap = false :=
  isLeap_eq_false_iff.2 (Nat.mod_lt _ (by decide))

theorem beforeLeap_of_not_leap (h : t.isLeap = false) : t.beforeLeap = t := by
  have hnano : t.nano % nanosPerSecond = t.nano := Nat.mod_eq_of_lt (isLeap_eq_false_iff.1 h)
  simp only [beforeLeap, hnano]

/-- What a leap second has left is what the second before had. -/
theorem nanos_beforeLeap (h : t.isLeap = true) : t.beforeLeap.nanos = t.nanos - nanosPerSecond := by
  have hleap : nanosPerSecond ≤ t.nano := of_decide_eq_true h
  have hnano := t.nano_lt
  show t.unixSeconds * nanosPerSecond + ((t.nano % nanosPerSecond : Nat) : Int) = _
  rw [nanos]
  simp only [nanosPerSecond] at *
  omega

/-- Whether a span leads on within the leap second. -/
def StaysIn (t : Instant) (d : Span) : Prop :=
  t.isLeap = true ∧ t.nano + d.nanos < 2 * nanosPerSecond

theorem add?_of_staysIn (hd : 0 ≤ d.nanos) (h : t.StaysIn d) :
    t.add? d = of? t.day t.second (t.nano + d.nanos.toNat) := by
  obtain ⟨hleap, hinside⟩ := h
  have hnano : nanosPerSecond ≤ t.nano := of_decide_eq_true hleap
  have hsplit := Int.mul_tdiv_add_tmod d.nanos nanosPerSecond
  have hwhole : 0 ≤ d.nanos.tdiv nanosPerSecond := Int.tdiv_nonneg hd (by decide)
  have hrest : 0 ≤ d.nanos.tmod nanosPerSecond := Int.tmod_nonneg _ hd
  have hsecond : nanosPerSecond = 1000000000 := rfl
  simp only [add?, hleap, if_true]
  generalize d.nanos.tdiv nanosPerSecond = seconds at *
  generalize d.nanos.tmod nanosPerSecond = rest at *
  -- Less than a second is added, and the leap second is not over.
  have hnone : seconds = 0 := by
    rw [hsecond] at hsplit
    omega
  subst hnone
  have hsum : ((t.nano : Int) + rest).toNat = t.nano + d.nanos.toNat := by omega
  rw [if_neg (by omega), if_neg (Int.lt_irrefl 0), hsum]

theorem add?_of_not_staysIn (hd : 0 ≤ d.nanos) (h : ¬ t.StaysIn d) :
    t.add? d = t.beforeLeap.add? d := by
  by_cases hleap : t.isLeap = true
  · have hnano : nanosPerSecond ≤ t.nano := of_decide_eq_true hleap
    have hsplit := Int.mul_tdiv_add_tmod d.nanos nanosPerSecond
    have hwhole : 0 ≤ d.nanos.tdiv nanosPerSecond := Int.tdiv_nonneg hd (by decide)
    have hbeyond : 2 * (nanosPerSecond : Int) ≤ t.nano + d.nanos := by
      apply Int.not_lt.1
      intro hinside
      exact h ⟨hleap, hinside⟩
    have hsecond : nanosPerSecond = 1000000000 := rfl
    refine Option.ext fun u => ?_
    rw [add?_eq_some_iff t.isLeap_beforeLeap, nanos_beforeLeap hleap]
    simp only [add?, hleap, if_true]
    generalize d.nanos.tdiv nanosPerSecond = seconds at *
    generalize d.nanos.tmod nanosPerSecond = rest at *
    rw [hsecond] at hsplit
    -- The leap second is left at its end, where the next second begins.
    rw [if_pos (by omega), ofUnix?_eq_some_iff, nanos, nanos, hsecond]
    refine and_congr_right fun _ => ?_
    omega
  · rw [Bool.not_eq_true] at hleap
    rw [beforeLeap_of_not_leap hleap]

/-! ## 2. Sums forwards -/

theorem add?_zero (t : Instant) : t.add? .zero = some t := by
  by_cases hleap : t.isLeap = true
  · have hstays : t.StaysIn .zero := by
      have hnano := t.nano_lt
      refine ⟨hleap, ?_⟩
      show (t.nano : Int) + 0 < 2 * nanosPerSecond
      omega
    have hnone : 0 ≤ Span.zero.nanos := Int.le_refl 0
    rw [add?_of_staysIn hnone hstays, of?_eq_some_iff]
    exact ⟨rfl, rfl, rfl⟩
  · rw [Bool.not_eq_true] at hleap
    rw [add?_eq_some_iff hleap]
    exact ⟨hleap, (Int.add_zero _).symm⟩

/-- Going on for a span and then for another one is going on for both. -/
theorem add?_add? (hd : 0 ≤ d.nanos) (he : 0 ≤ e.nanos) (h : t.add? d = some u) :
    u.add? e = t.add? ⟨d.nanos + e.nanos⟩ := by
  have hboth : 0 ≤ (⟨d.nanos + e.nanos⟩ : Span).nanos := Int.add_nonneg hd he
  by_cases hstays : t.StaysIn d
  · rw [add?_of_staysIn hd hstays] at h
    obtain ⟨hday, hsecond, hnano⟩ := of?_eq_some_iff.1 h
    have huleap : u.isLeap = true := by
      have hleap : nanosPerSecond ≤ t.nano := of_decide_eq_true hstays.1
      exact decide_eq_true (by omega)
    have hsame : u.StaysIn e ↔ t.StaysIn ⟨d.nanos + e.nanos⟩ := by
      rw [StaysIn, StaysIn]
      simp only [huleap, hstays.1, true_and, hnano]
      omega
    by_cases hinside : u.StaysIn e
    · rw [add?_of_staysIn he hinside, add?_of_staysIn hboth (hsame.1 hinside), hday, hsecond,
        hnano]
      congr 1
      simp only
      omega
    · rw [add?_of_not_staysIn he hinside, add?_of_not_staysIn hboth (mt hsame.2 hinside)]
      refine Option.ext fun v => ?_
      rw [add?_eq_some_iff u.isLeap_beforeLeap, add?_eq_some_iff t.isLeap_beforeLeap,
        nanos_beforeLeap huleap, nanos_beforeLeap hstays.1]
      have hmoved : u.nanos = t.nanos + d.nanos := by
        rw [nanos, nanos, unixSeconds, unixSeconds, hday, hsecond, hnano]
        omega
      rw [hmoved]
      refine and_congr_right fun _ => ?_
      simp only
      omega
  · have hleaves : ¬ t.StaysIn ⟨d.nanos + e.nanos⟩ := by
      rintro ⟨hleap, hinside⟩
      refine hstays ⟨hleap, ?_⟩
      simp only at hinside
      omega
    rw [add?_of_not_staysIn hd hstays] at h
    obtain ⟨hu, hnanos⟩ := (add?_eq_some_iff t.isLeap_beforeLeap).1 h
    rw [add?_of_not_staysIn hboth hleaves]
    refine Option.ext fun v => ?_
    rw [add?_eq_some_iff hu, add?_eq_some_iff t.isLeap_beforeLeap, hnanos]
    refine and_congr_right fun _ => ?_
    simp only
    omega

/-- A shorter span leads to an instant if a longer one does. -/
theorem exists_add?_of_le (hd : 0 ≤ d.nanos) (hle : d.nanos ≤ e.nanos) (h : t.add? e = some u) :
    ∃ v, t.add? d = some v := by
  by_cases hstays : t.StaysIn d
  · rw [add?_of_staysIn hd hstays]
    refine ⟨_, of?_eq_some t.firstDay_le t.le_lastDay t.second_lt ?_⟩
    have hinside := hstays.2
    omega
  · have hleaves : ¬ t.StaysIn e := by
      rintro ⟨hleap, hinside⟩
      refine hstays ⟨hleap, ?_⟩
      omega
    rw [add?_of_not_staysIn (Int.le_trans hd hle) hleaves] at h
    obtain ⟨hu, hnanos⟩ := (add?_eq_some_iff t.isLeap_beforeLeap).1 h
    rw [add?_of_not_staysIn hd hstays]
    exact exists_add? t.isLeap_beforeLeap hu hd (by omega)

end Instant

end Measurement
