/-
Scalar texts are faithful.

Seven readers stand behind one: each takes the blanks off a text and then follows
a grammar of its own. Whatever text a value was read from, the text that is
written for it is read as the value again (`Value.read_text_of_read`). Of a time
only whole microseconds are written, so what comes back is the last instant of
whole microseconds that is not after it. Of real numbers nothing is said here:
whether the decimal text of one is read as that number is a matter of that reader
alone (`Value.ReadsBack`).

The instants meant are those that a text denotes. Their type has more: in it every
second can become a leap second, and a text knows one at the end of a minute only.
Sums never lead to any of the others.
-/
import Measurement.Proofs.Address

set_option autoImplicit false

namespace Measurement

open Measurement.Time

namespace Value

/-- What is written for a value of any primitive but real numbers is read as that value, down to
the microsecond. -/
theorem read_text_of_read {p : Primitive} {s : String} {v : Value} (hp : p ≠ .real)
    (h : read p s = .ok v) : read p v.text = .ok v.toMicros := by
  have hprimitive : v.primitive = p := primitive_of_read h
  subst hprimitive
  exact read_text (isRead_of_read h) (readsBack_of_ne_real hp)

/-- A value other than a real number that some text denotes is denoted by its own text, if it is no
time with a part below the microsecond. The text of an instant denotes the last instant of whole
microseconds that is not after it. This is so of every instant that a text denotes, and sums lead
to no other. -/
theorem scalar_texts_are_faithful :
    (∀ (p : Primitive) (s : String) (v : Value), p ≠ .real → read p s = .ok v →
        (∀ t ∈ v.times, t.nano % 1000 = 0) → read p v.text = .ok v)
      ∧ (∀ t : Instant, t.IsCivil →
        ∃ u, readInstant t.text = .ok u ∧ u.nano % 1000 = 0 ∧ u ≤ t
          ∧ ∀ w : Instant, w ≤ t → w.nano % 1000 = 0 → w ≤ u)
      ∧ (∀ t : Instant, t.IsCivil ↔ ∃ s, readInstant s = .ok t)
      ∧ ∀ (t u : Instant) (d : Span), t.IsCivil → t.add? d = some u → u.IsCivil := by
  refine ⟨?_, ?_, ?_, ?_⟩
  · intro p s v hp hread hwhole
    have hback := read_text_of_read hp hread
    rwa [toMicros_of_whole hwhole] at hback
  · intro t hcivil
    exact ⟨t.toMicros, readInstant_text hcivil, t.whole_toMicros, t.toMicros_le,
      fun w hle hwhole => Instant.le_toMicros hle hwhole⟩
  · intro t
    exact exists_readInstant_iff.symm
  · intro t u d hcivil hsum
    exact Instant.isCivil_of_add? hcivil hsum

/-- A quarter into a leap second before the year one, and some nanoseconds. -/
def thatMidnight (nanos : Nat) : Instant :=
  .ofParts (dayOfDate ⟨-44, 3, 15⟩) 86399 (1250000000 + nanos)

/-- The leap second is read in one form and written in another, and it comes back without the
nanoseconds. -/
theorem that_midnight_comes_back :
    (thatMidnight 0).text = "-0044-03-15 23:59:60.250000"
      ∧ read .time " -44-3-15T23:59:60.25Z " = .ok (time (thatMidnight 0))
      ∧ read .time (time (thatMidnight 0)).text = .ok (time (thatMidnight 0))
      ∧ readInstant (thatMidnight 789).text = .ok (thatMidnight 0)
      ∧ (∀ w : Instant, w ≤ thatMidnight 789 → w.nano % 1000 = 0 → w ≤ thatMidnight 0)
      ∧ ∃ s, readInstant s = .ok (thatMidnight 789) := by
  have hread : read .time " -44-3-15T23:59:60.25Z " = .ok (time (thatMidnight 0)) := by
    decide +kernel
  have hcut : readInstant (thatMidnight 789).text = .ok (thatMidnight 0) := by decide +kernel
  have hcivil : (thatMidnight 789).IsCivil := by
    rw [Instant.IsCivil]
    decide
  obtain ⟨hback, hmicros, hdenoted, -⟩ := scalar_texts_are_faithful
  obtain ⟨u, hu, -, -, hlast⟩ := hmicros (thatMidnight 789) hcivil
  rw [hcut] at hu
  cases hu
  have hagain := hback .time _ (time (thatMidnight 0)) (by decide) hread (by decide)
  exact ⟨by decide +kernel, hread, hagain, hcut, hlast, (hdenoted _).1 hcivil⟩

end Value

end Measurement
