/-
What is written for a span is read as its whole seconds.

A text is read as a span exactly if it is a row of terms that comes to no more
seconds than there may be (`read?_eq_some_iff`). What is written for a span is the
canonical row for its whole seconds, or `0s` if it has none or is below zero
(`write_eq_iff`). So it is read as the span without what is not written
(`read?_write_of_le`), which is the span itself if that was read (`read?_write`).
-/
import Measurement.Proofs.Time.Terms

set_option autoImplicit false

namespace Measurement.Span

open Measurement.Text

/-! ## 1. Whole seconds -/

theorem nanos_ofSeconds (n : Int) : (ofSeconds n).nanos = n * 1000000000 := rfl

/-- A span with a number of nanoseconds that is not negative is cut down to milliseconds. -/
theorem wholeMillis_of_nonneg {d : Span} (h : 0 ≤ d.nanos) : d.wholeMillis = d.nanos / 1000000 :=
  Int.tdiv_eq_ediv_of_nonneg h

theorem wholeSeconds_ofSeconds (n : Nat) : (ofSeconds n).wholeSeconds = n :=
  Int.mul_tdiv_cancel _ (by decide)

theorem toNat_wholeSeconds (d : Span) :
    d.wholeSeconds.toNat = (d.nanos / 1000000000).toNat := by
  have hseconds : d.wholeSeconds = d.nanos.tdiv 1000000000 := rfl
  by_cases hnegative : d.nanos < 0
  · have hnone : 0 ≤ (-d.nanos).tdiv 1000000000 := Int.tdiv_nonneg (by omega) (by decide)
    rw [Int.neg_tdiv] at hnone
    omega
  · rw [hseconds, Int.tdiv_eq_ediv_of_nonneg (by omega)]

/-- The span in whole seconds, and none below zero, as it is written. -/
def asWritten (d : Span) : Span := .ofSeconds d.wholeSeconds.toNat

/-- What is not written is what is left of a second, or all of a span below zero. -/
theorem asWritten_eq (d : Span) :
    d.asWritten = ⟨if d.nanos < 0 then 0 else d.nanos - d.nanos % 1000000000⟩ := by
  rw [asWritten, toNat_wholeSeconds, ofSeconds, Span.mk.injEq]
  split <;> omega

/-! ## 2. Spans that are read -/

/-- A text is read as a span exactly if, without the blanks around it, it is a row of terms that
comes to no more seconds than there may be. -/
theorem read?_eq_some_iff {s : List Char} {d : Span} :
    read? s = some d ↔ ∃ terms, terms ≠ [] ∧ AreTerms units terms (trim s)
      ∧ total terms ≤ maxSeconds ∧ d = ofSeconds (total terms) := by
  rw [read?]
  by_cases hnil : trim s = []
  · rw [hnil]
    refine iff_of_false (fun h => (by cases h)) ?_
    rintro ⟨terms, hterms, hrow, -⟩
    exact hterms (hrow.eq_nil_iff.1 rfl)
  · simp only [List.isEmpty_iff, hnil, if_false, Option.bind_eq_some_iff,
      readTerms_units_eq_some_iff]
    constructor
    · rintro ⟨_, ⟨terms, hrow, rfl⟩, h⟩
      split at h
      · rename_i hle
        exact ⟨terms, fun hterms => hnil (hrow.eq_nil_iff.2 hterms), hrow, hle,
          (Option.some.inj h).symm⟩
      · cases h
    · rintro ⟨terms, -, hrow, hle, rfl⟩
      exact ⟨_, ⟨terms, hrow, rfl⟩, if_pos hle⟩

/-- A span as it can be read: whole seconds, and not too many. -/
def IsRead (d : Span) : Prop := ∃ n : Nat, n ≤ maxSeconds ∧ d = ofSeconds n

theorem isRead_of_read? {s : List Char} {d : Span} (h : read? s = some d) : d.IsRead := by
  obtain ⟨terms, -, -, hle, hd⟩ := read?_eq_some_iff.1 h
  exact ⟨total terms, hle, hd⟩

/-- A span that was read has whole seconds. -/
theorem asWritten_of_isRead {d : Span} (h : d.IsRead) : d.asWritten = d := by
  obtain ⟨n, -, rfl⟩ := h
  rw [asWritten, wholeSeconds_ofSeconds, Int.toNat_natCast]

/-! ## 3. The characters of a text -/

theorem mem_writeTerms {us : List (Char × Nat)} {n : Nat} {c : Char} (h : c ∈ writeTerms us n) :
    c.isDigit = true ∨ c ∈ us.map (·.1) := by
  induction us generalizing n with
  | nil => exact absurd h List.not_mem_nil
  | cons u us ih =>
    rw [writeTerms] at h
    rw [List.map_cons, List.mem_cons]
    split at h
    · exact (ih h).imp_right Or.inr
    · rw [List.mem_append, List.mem_cons] at h
      obtain h | rfl | h := h
      · exact Or.inl (isDigit_of_mem_decimal h)
      · exact Or.inr (Or.inl rfl)
      · exact (ih h).imp_right Or.inr

/-- The text of a span is made of digits and units. -/
theorem mem_write {d : Span} {c : Char} (h : c ∈ d.write) :
    c.isDigit = true ∨ c ∈ ['d', 'h', 'm', 's'] := by
  rw [write] at h
  split at h
  · revert h
    simp only [List.mem_cons, List.not_mem_nil, or_false]
    rintro (rfl | rfl)
    · exact Or.inl (by decide)
    · exact Or.inr (by simp)
  · exact mem_writeTerms h

theorem isBlank_of_mem_write {d : Span} {c : Char} (h : c ∈ d.write) : isBlank c = false := by
  obtain hdigit | hunit := mem_write h
  · exact isBlank_of_isDigit hdigit
  · revert hunit
    simp only [List.mem_cons, List.not_mem_nil, or_false]
    rintro (rfl | rfl | rfl | rfl) <;> decide

/-! ## 4. Reading what was written -/

/-- The text of a span is the canonical row of its whole seconds, and `0s` if there are none. -/
theorem write_eq_iff {d : Span} {s : List Char} :
    d.write = s ↔ (d.wholeSeconds.toNat = 0 ∧ s = ['0', 's'])
      ∨ ∃ terms, terms ≠ [] ∧ AreTerms units terms s ∧ AreCanonical units terms
        ∧ total terms = d.wholeSeconds.toNat := by
  rw [write]
  generalize d.wholeSeconds.toNat = n
  split
  · rename_i hzero
    subst hzero
    constructor
    · exact fun h => Or.inl ⟨rfl, h.symm⟩
    · rintro (⟨-, rfl⟩ | ⟨terms, hterms, hrow, hcanonical, htotal⟩)
      · rfl
      · exact absurd htotal (Nat.ne_of_gt (hrow.total_pos descend_units hcanonical hterms))
  · rename_i hpositive
    rw [writeTerms_units_eq_iff]
    constructor
    · rintro ⟨terms, hrow, hcanonical, rfl⟩
      refine Or.inr ⟨terms, ?_, hrow, hcanonical, rfl⟩
      rintro rfl
      exact hpositive total_nil
    · rintro (⟨hzero, -⟩ | ⟨terms, -, hrow, hcanonical, htotal⟩)
      · exact absurd hzero hpositive
      · exact ⟨terms, hrow, hcanonical, htotal⟩

/-- What is written for a span is a row of terms for its whole seconds. -/
theorem exists_areTerms_write (d : Span) :
    ∃ terms, terms ≠ [] ∧ AreTerms units terms d.write ∧ total terms = d.wholeSeconds.toNat := by
  obtain ⟨hzero, hwrite⟩ | ⟨terms, hterms, hrow, -, htotal⟩ :=
    write_eq_iff.1 (rfl : d.write = d.write)
  · refine ⟨[⟨['0'], ('s', 1)⟩], List.cons_ne_nil _ _, ⟨hwrite, fun t ht => ?_, by decide⟩,
      hzero.symm⟩
    rw [List.mem_singleton.1 ht]
    refine ⟨List.cons_ne_nil _ _, fun c hc => ?_⟩
    rw [List.mem_singleton.1 hc]
    rfl
  · exact ⟨terms, hterms, hrow, htotal⟩

/-- What is written for a span of not too many seconds is read as the span without what is not
written. -/
theorem read?_write_of_le {d : Span} (h : d.wholeSeconds.toNat ≤ maxSeconds) :
    read? d.write = some d.asWritten := by
  have hsnug : trim d.write = d.write :=
    trim_of_snug (snug_of_forall fun c hc => isBlank_of_mem_write hc)
  obtain ⟨terms, hterms, hrow, htotal⟩ := exists_areTerms_write d
  rw [← htotal] at h
  rw [read?_eq_some_iff, hsnug, asWritten, ← htotal]
  exact ⟨terms, hterms, hrow, h, rfl⟩

/-- What is written for a span that was read is read as that span. -/
theorem read?_write {d : Span} (h : d.IsRead) : read? d.write = some d := by
  have hwritten := asWritten_of_isRead h
  obtain ⟨n, hle, rfl⟩ := h
  rw [read?_write_of_le, hwritten]
  rwa [wholeSeconds_ofSeconds, Int.toNat_natCast]

end Measurement.Span
