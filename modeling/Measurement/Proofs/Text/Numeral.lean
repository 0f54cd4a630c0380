/-
Numerals in a longer text.

A reader takes digits off a text until something stands there that is none
(`EndsDigits`), so what it takes is what was written there as a number
(`takeWhile_digits`, `dropWhile_digits`). Digits denote a number whether zeros
stand in front of it or not (`digits?_eq_some_iff`, `digits?_padded`).
-/
import Measurement.Text.Blank
import Measurement.Text.Numeral
import Mathlib.Data.List.TakeWhile
import Mathlib.Logic.Basic

set_option autoImplicit false

namespace Measurement.Text

/-! ## 1. Where digits end -/

theorem isBlank_of_isDigit {c : Char} (h : c.isDigit = true) : isBlank c = false := by
  simp only [Char.isDigit, Bool.and_eq_true, decide_eq_true_eq] at h
  have hlow : 48 ≤ c.toNat := h.1
  have hhigh : c.toNat ≤ 57 := h.2
  simp only [isBlank, Bool.or_eq_false_iff, Bool.and_eq_false_iff, decide_eq_false_iff_not,
    beq_eq_false_iff_ne]
  omega

/-- Whether a text begins with no digit. -/
def EndsDigits (s : List Char) : Prop := ∀ c ∈ s.head?, c.isDigit = false

theorem endsDigits_nil : EndsDigits [] := fun c hc => (by cases hc)

theorem endsDigits_cons {c : Char} {s : List Char} (h : c.isDigit = false) :
    EndsDigits (c :: s) := by
  intro d hd
  cases hd
  exact h

theorem takeWhile_digits {ds r : List Char} (hds : ∀ c ∈ ds, c.isDigit = true) (hr : EndsDigits r) :
    (ds ++ r).takeWhile Char.isDigit = ds := by
  rw [List.takeWhile_append_of_pos hds]
  cases r with
  | nil => simp
  | cons c r => simp [hr c (by simp)]

theorem dropWhile_digits {ds r : List Char} (hds : ∀ c ∈ ds, c.isDigit = true) (hr : EndsDigits r) :
    (ds ++ r).dropWhile Char.isDigit = r := by
  rw [List.dropWhile_append_of_pos hds]
  cases r with
  | nil => rfl
  | cons c r => simp [hr c (by simp)]

/-- A text of digits and some marks is one of digits and more marks. -/
theorem digit_or_mem_mono {c : Char} {m marks : List Char} (hsub : m ⊆ marks)
    (h : c.isDigit = true ∨ c ∈ m) : c.isDigit = true ∨ c ∈ marks :=
  h.imp_right fun hmem => hsub hmem

/-! ## 2. The number of a row of digits -/

theorem digits?_eq_some_iff {s : List Char} {n : Nat} :
    digits? s = some n ↔ s ≠ [] ∧ (∀ c ∈ s, c.isDigit = true) ∧ valueOfDigits s = n := by
  have htest : (s.isEmpty || !s.all Char.isDigit) = true
      ↔ ¬ (s ≠ [] ∧ ∀ c ∈ s, c.isDigit = true) := by
    rw [Bool.or_eq_true, List.isEmpty_iff, Bool.not_eq_true', ← Bool.not_eq_true, List.all_eq_true]
    exact or_iff_not_and_not.trans (by rw [not_not, ne_eq])
  rw [digits?]
  by_cases hdigits : s ≠ [] ∧ ∀ c ∈ s, c.isDigit = true
  · rw [if_neg fun h => htest.1 h hdigits, Option.some.injEq, ← and_assoc]
    exact (and_iff_right hdigits).symm
  · rw [if_pos (htest.2 hdigits)]
    constructor
    · intro h
      cases h
    · rintro ⟨hnil, hall, -⟩
      exact absurd ⟨hnil, hall⟩ hdigits

/-- Digits denote less than the power of ten with as many zeros. -/
theorem valueOfDigits_lt {ds : List Char} (h : ∀ c ∈ ds, c.isDigit = true) :
    valueOfDigits ds < Nat.pow 10 ds.length := by
  have hgeneral : ∀ init, Nat.ofDigitChars 10 ds init < (init + 1) * 10 ^ ds.length := by
    induction ds with
    | nil => intro init; simp
    | cons c ds ih =>
      intro init
      rw [List.forall_mem_cons] at h
      have hdigit : c.toNat ≤ 57 := by
        have hc := h.1
        simp only [Char.isDigit, Bool.and_eq_true, decide_eq_true_eq] at hc
        exact hc.2
      rw [Nat.ofDigitChars_cons, List.length_cons, Nat.pow_succ]
      have hrest := ih h.2 (10 * init + (c.toNat - '0'.toNat))
      have hzero : '0'.toNat = 48 := rfl
      have hle : (10 * init + (c.toNat - '0'.toNat) + 1) * 10 ^ ds.length
          ≤ (10 * (init + 1)) * 10 ^ ds.length := Nat.mul_le_mul_right _ (by omega)
      have heq : (init + 1) * (10 ^ ds.length * 10) = (10 * (init + 1)) * 10 ^ ds.length := by
        rw [Nat.mul_comm (10 ^ ds.length), ← Nat.mul_assoc, Nat.mul_comm (init + 1)]
      omega
  have h0 := hgeneral 0
  rw [Nat.zero_add, Nat.one_mul] at h0
  exact h0

/-! ## 3. Digits that were written -/

theorem isDigit_of_mem_decimal {n : Nat} {c : Char} (h : c ∈ decimal n) : c.isDigit = true :=
  List.all_eq_true.1 (all_isDigit_decimal n) c h

theorem isDigit_of_mem_padded {width n : Nat} {c : Char} (h : c ∈ padded width n) :
    c.isDigit = true := by
  rw [padded, List.mem_append] at h
  obtain h | h := h
  · rw [List.eq_of_mem_replicate h]
    decide
  · exact isDigit_of_mem_decimal h

theorem padded_ne_nil (width n : Nat) : padded width n ≠ [] := by
  rw [padded]
  exact fun h => decimal_ne_nil n (List.append_eq_nil_iff.1 h).2

theorem length_padded {width n : Nat} (hwidth : 0 < width) (h : n < Nat.pow 10 width) :
    (padded width n).length = width := by
  have hle : (decimal n).length ≤ width := (Nat.length_toDigits_le_iff (by decide) hwidth).2 h
  rw [padded, List.length_append, List.length_replicate]
  omega

theorem valueOfDigits_padded (width n : Nat) : valueOfDigits (padded width n) = n := by
  have hzeros : ∀ k, Nat.ofDigitChars 10 (List.replicate k '0') 0 = 0 := by
    intro k
    induction k with
    | zero => rfl
    | succ k ih =>
      rw [List.replicate_succ, Nat.ofDigitChars_cons]
      exact ih
  rw [padded, valueOfDigits, Nat.ofDigitChars_append, hzeros]
  exact valueOfDigits_decimal n

theorem digits?_padded (width n : Nat) : digits? (padded width n) = some n := by
  have hall : (padded width n).all Char.isDigit = true :=
    List.all_eq_true.2 fun c hc => isDigit_of_mem_padded hc
  rw [digits?, hall, valueOfDigits_padded]
  simp [padded_ne_nil]

end Measurement.Text
