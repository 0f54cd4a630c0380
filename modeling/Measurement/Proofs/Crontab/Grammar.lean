/-
The grammar of crontabs.

A crontab is a row of six words, one for each field, and a word is a row of
terms with commas between them. A term names a stretch of values, perhaps with
a step behind a slash. How terms are written (`Term.IsWritten`) and what they
mean (`Term.Means`) is said here without the reader.

The reader takes exactly what is written that way, one lemma for each reader from
numerals up to crontabs (`natural?_eq_some_iff` to `read_eq_ok_iff`), and a field
admits the union of what it takes its terms for (`mem_values_ofTerms`). It takes
every term for what it means but one: a step of one counts as no step, and so a
single value with a step of one stands for itself alone, while with any other
step it runs to the top of the field. What a field admits is therefore what its
terms mean exactly if it admits anyway all that stands above such a value
(`reads_the_grammar`).
-/
import Measurement.Crontab.Text
import Measurement.Proofs.Readers
import Measurement.Proofs.Text.Cuts
import Measurement.Proofs.Text.Numeral

set_option autoImplicit false

namespace Measurement.Crontab

open Measurement.Text

/-! ## 1. Numerals -/

/-- Whether a text is a numeral: decimal digits, perhaps behind a plus sign, for a number that is
not too great. -/
def IsNumeral (s : List Char) (n : Nat) : Prop :=
  ∃ digits, (s = digits ∨ s = '+' :: digits) ∧ digits ≠ []
    ∧ (∀ c ∈ digits, c.isDigit = true) ∧ valueOfDigits digits = n ∧ n ≤ maxNumber

theorem natural?_eq_some_iff {s : List Char} {n : Nat} :
    natural? maxNumber s = some n ↔ IsNumeral s n := by
  have hread : ∀ digits, ((digits? digits).bind fun k => if k ≤ maxNumber then some k else none)
      = some n ↔ digits ≠ [] ∧ (∀ c ∈ digits, c.isDigit = true) ∧ valueOfDigits digits = n
        ∧ n ≤ maxNumber := by
    intro digits
    rw [Option.bind_eq_some_iff]
    constructor
    · rintro ⟨k, hk, hbound⟩
      split at hbound
      · cases hbound
        obtain ⟨hnil, hall, hvalue⟩ := digits?_eq_some_iff.1 hk
        exact ⟨hnil, hall, hvalue, by assumption⟩
      · cases hbound
    · rintro ⟨hnil, hall, hvalue, hbound⟩
      exact ⟨n, digits?_eq_some_iff.2 ⟨hnil, hall, hvalue⟩, if_pos hbound⟩
  unfold natural?
  split
  · rename_i r
    rw [hread]
    constructor
    · exact fun h => ⟨r, .inr rfl, h⟩
    · rintro ⟨digits, rfl | h, hrest⟩
      · -- A sign is no digit.
        exact absurd (hrest.2.1 '+' List.mem_cons_self) (by decide)
      · cases h
        exact hrest
  · rename_i hsign
    rw [hread]
    constructor
    · exact fun h => ⟨s, .inl rfl, h⟩
    · rintro ⟨digits, rfl | rfl, hrest⟩
      · exact hrest
      · exact absurd rfl (hsign digits)

theorem isNumeral_decimal {n : Nat} (h : n ≤ maxNumber) : IsNumeral (decimal n) n :=
  natural?_eq_some_iff.1 (natural?_decimal h)

theorem IsNumeral.mem {s : List Char} {n : Nat} (h : IsNumeral s n) {c : Char} (hc : c ∈ s) :
    c.isDigit = true ∨ c = '+' := by
  obtain ⟨digits, rfl | rfl, -, hdigits, -⟩ := h
  · exact .inl (hdigits c hc)
  · obtain rfl | hc := List.mem_cons.1 hc
    · exact .inr rfl
    · exact .inl (hdigits c hc)

theorem IsNumeral.not_mem {s : List Char} {n : Nat} (h : IsNumeral s n) {c : Char}
    (hdigit : c.isDigit = false) (hsign : c ≠ '+') : c ∉ s := by
  intro hc
  obtain hc | hc := h.mem hc
  · rw [hdigit] at hc
    cases hc
  · exact hsign hc

/-! ## 2. Terms -/

/-- The values that a term names before a step thins them out. -/
inductive Stretch where
  /-- A star. -/
  | all
  | only (v : Nat)
  | between (low high : Nat)
deriving DecidableEq

/-- One of the terms of a field. -/
structure Term where
  stretch : Stretch
  step : Option Nat
deriving DecidableEq

/-- Whether a text is a value of a field. -/
def IsValue (f : Field) (s : List Char) (v : Nat) : Prop :=
  IsNumeral s v ∧ f.least ≤ v ∧ v ≤ f.greatest

namespace Stretch

/-- How a stretch is written in a field. -/
inductive IsWritten (f : Field) : Stretch → List Char → Prop where
  | all : IsWritten f all ['*']
  | only {s : List Char} {v : Nat} : IsValue f s v → IsWritten f (only v) s
  | between {a b : List Char} {low high : Nat} : IsValue f a low → IsValue f b high →
      low ≤ high → IsWritten f (between low high) (a ++ '-' :: b)

/-- The values of a stretch. -/
def Holds (f : Field) : Stretch → Nat → Prop
  | all, v => f.least ≤ v ∧ v ≤ f.greatest
  | only a, v => v = a
  | between low high, v => low ≤ v ∧ v ≤ high

/-- Where a stretch starts. -/
def start (f : Field) : Stretch → Nat
  | all => f.least
  | only a => a
  | between low _ => low

/-- Where a stretch ends for a step: a single value runs to the top of the field. -/
def stop (f : Field) : Stretch → Nat
  | all | only _ => f.greatest
  | between _ high => high

/-- What the reader makes of a stretch with a step. -/
def item (f : Field) (n : Nat) : Stretch → Item
  | all => ⟨f.least, f.greatest, n⟩
  | only a => ⟨a, if 1 < n then f.greatest else a, n⟩
  | between low high => ⟨low, high, n⟩

end Stretch

namespace Term

/-- How a term is written in a field. -/
inductive IsWritten (f : Field) : Term → List Char → Prop where
  | plain {r : Stretch} {s : List Char} : r.IsWritten f s → IsWritten f ⟨r, none⟩ s
  | stepped {r : Stretch} {s d : List Char} {n : Nat} : r.IsWritten f s → IsNumeral d n →
      1 ≤ n → IsWritten f ⟨r, some n⟩ (s ++ '/' :: d)

/-- The values that a term means: those of its stretch, or with a step the start of the stretch and
every so many from there on that are not above its end. -/
def Means (f : Field) (t : Term) (v : Nat) : Prop :=
  match t.step with
  | none => t.stretch.Holds f v
  | some n => ∃ k, v = t.stretch.start f + k * n ∧ v ≤ t.stretch.stop f

/-- The values that the reader takes a term for. A step of one counts as no step. -/
def Admits (f : Field) (t : Term) (v : Nat) : Prop :=
  if t.step = some 1 then t.stretch.Holds f v else t.Means f v

/-- What the reader makes of a term. -/
def item (f : Field) (t : Term) : Item := t.stretch.item f (t.step.getD 1)

end Term

/-! ## 3. Terms that are read -/

variable {f : Field} {s : List Char}

theorem readValue_eq_ok_iff {v : Nat} : readValue f s = .ok v ↔ IsValue f s v := by
  rw [readValue, IsValue, ← natural?_eq_some_iff]
  cases natural? maxNumber s with
  | none => simp
  | some k =>
    simp only [Option.some.injEq, unless_eq_ok_iff]
    constructor
    · rintro ⟨hinside, h⟩
      obtain rfl := Except.ok.inj h
      exact ⟨rfl, by omega⟩
    · rintro ⟨rfl, hleast, hgreatest⟩
      exact ⟨by omega, rfl⟩

theorem readStep_eq_ok_iff {n : Nat} : readStep s = .ok n ↔ IsNumeral s n ∧ 1 ≤ n := by
  rw [readStep, ← natural?_eq_some_iff]
  cases natural? maxNumber s with
  | none => simp
  | some k =>
    simp only [Option.some.injEq, unless_eq_ok_iff]
    constructor
    · rintro ⟨hzero, h⟩
      obtain rfl := Except.ok.inj h
      exact ⟨rfl, by omega⟩
    · rintro ⟨rfl, hpos⟩
      exact ⟨by omega, rfl⟩

theorem readBounds_eq_ok_iff {n : Nat} {i : Item} :
    readBounds f s n = .ok i ↔ ∃ r : Stretch, r.IsWritten f s ∧ r.item f n = i := by
  rw [readBounds]
  constructor
  · intro h
    split at h
    · rename_i hstar
      rw [hstar]
      exact ⟨.all, .all, Except.ok.inj h⟩
    · split at h
      · rename_i a b hcut
        simp only [bind_eq_ok_iff, readValue_eq_ok_iff, unless_eq_ok_iff] at h
        obtain ⟨low, hlow, high, hhigh, hle, h⟩ := h
        have hwhole : s = a ++ '-' :: b := by
          rw [eq_append_of_cut? hcut, List.append_assoc, List.singleton_append]
        rw [hwhole]
        exact ⟨.between low high, .between hlow hhigh (Nat.not_lt.1 hle), Except.ok.inj h⟩
      · simp only [bind_eq_ok_iff, readValue_eq_ok_iff] at h
        obtain ⟨v, hv, h⟩ := h
        exact ⟨.only v, .only hv, Except.ok.inj h⟩
  · rintro ⟨r, hr, rfl⟩
    cases hr with
    | all => rfl
    | @only _ v hv =>
      -- A numeral has neither a star nor a dash, so it is no other stretch.
      have hstar : s ≠ ['*'] := by
        rintro rfl
        exact hv.1.not_mem rfl (by decide) List.mem_cons_self
      have hcut : cut? ['-'] s = none :=
        cut?_eq_none_of_not_mem List.mem_cons_self (hv.1.not_mem rfl (by decide))
      rw [if_neg hstar, hcut]
      exact bind_eq_ok_iff.2 ⟨v, readValue_eq_ok_iff.2 hv, rfl⟩
    | @between a b low high hlow hhigh hle =>
      have hstar : a ++ '-' :: b ≠ ['*'] := by
        intro h
        have hmem : '-' ∈ ['*'] := h ▸ List.mem_append_right a List.mem_cons_self
        exact absurd hmem (by decide)
      -- The first dash is the one between the bounds.
      have hcut : cut? ['-'] (a ++ '-' :: b) = some (a, b) :=
        cut?_mark (hlow.1.not_mem rfl (by decide))
      rw [if_neg hstar, hcut]
      refine bind_eq_ok_iff.2 ⟨low, readValue_eq_ok_iff.2 hlow, ?_⟩
      refine bind_eq_ok_iff.2 ⟨high, readValue_eq_ok_iff.2 hhigh, ?_⟩
      exact unless_eq_ok_iff.2 ⟨Nat.not_lt.2 hle, rfl⟩

/-- A stretch is written with digits and three marks. -/
theorem Stretch.IsWritten.not_mem {r : Stretch} (h : r.IsWritten f s) {c : Char}
    (hdigit : c.isDigit = false) (hmark : c ∉ ['+', '-', '*']) : c ∉ s := by
  simp only [List.mem_cons, List.not_mem_nil, or_false, not_or] at hmark
  obtain ⟨hplus, hdash, hstar⟩ := hmark
  cases h with
  | all => simpa using hstar
  | only hv => exact hv.1.not_mem hdigit hplus
  | between hlow hhigh =>
    rw [List.mem_append, List.mem_cons]
    rintro (h | h | h)
    · exact hlow.1.not_mem hdigit hplus h
    · exact hdash h
    · exact hhigh.1.not_mem hdigit hplus h

/-- The reader takes as an item exactly what is written as a term. -/
theorem readItem_eq_ok_iff {i : Item} :
    readItem f s = .ok i ↔ ∃ t : Term, t.IsWritten f s ∧ t.item f = i := by
  rw [readItem]
  constructor
  · intro h
    split at h
    · rename_i bounds d hcut
      rw [bind_eq_ok_iff] at h
      obtain ⟨n, hn, h⟩ := h
      obtain ⟨r, hr, hi⟩ := readBounds_eq_ok_iff.1 h
      obtain ⟨hnumeral, hpos⟩ := readStep_eq_ok_iff.1 hn
      have hwhole : s = bounds ++ '/' :: d := by
        rw [eq_append_of_cut? hcut, List.append_assoc, List.singleton_append]
      rw [hwhole]
      exact ⟨⟨r, some n⟩, .stepped hr hnumeral hpos, hi⟩
    · obtain ⟨r, hr, hi⟩ := readBounds_eq_ok_iff.1 h
      exact ⟨⟨r, none⟩, .plain hr, hi⟩
  · rintro ⟨t, ht, rfl⟩
    cases ht with
    | @plain r _ hr =>
      rw [cut?_eq_none_of_not_mem List.mem_cons_self (hr.not_mem rfl (by decide))]
      exact readBounds_eq_ok_iff.2 ⟨r, hr, rfl⟩
    | @stepped r bounds d n hr hn hpos =>
      -- No stretch has a slash, so the first one is before the step.
      rw [cut?_mark (hr.not_mem rfl (by decide))]
      refine bind_eq_ok_iff.2 ⟨n, readStep_eq_ok_iff.2 ⟨hn, hpos⟩, ?_⟩
      exact readBounds_eq_ok_iff.2 ⟨r, hr, rfl⟩

/-! ## 4. Values of terms -/

theorem admits_iff_exists {a b n v : Nat} :
    Item.admits ⟨a, b, n⟩ v = true ↔ ∃ k, v = a + k * n ∧ v ≤ b := by
  rw [Item.admits, Bool.and_eq_true, decide_eq_true_eq, beq_iff_eq]
  constructor
  · rintro ⟨⟨hfirst, hlast⟩, hmod⟩
    obtain ⟨k, hk⟩ := Nat.dvd_of_mod_eq_zero hmod
    simp only at hfirst hlast hk
    exact ⟨k, by rw [Nat.mul_comm k n, ← hk]; omega, hlast⟩
  · rintro ⟨k, rfl, hlast⟩
    refine ⟨⟨Nat.le_add_right a _, hlast⟩, ?_⟩
    rw [Nat.add_sub_cancel_left, Nat.mul_mod_left]

theorem admits_run {a b v : Nat} : Item.admits ⟨a, b, 1⟩ v = true ↔ a ≤ v ∧ v ≤ b := by
  rw [Item.admits, Nat.mod_one]
  simp

/-- With a step of one, or none, an item admits its stretch. -/
theorem Stretch.admits_item_one {r : Stretch} {v : Nat} :
    (r.item f 1).admits v = true ↔ r.Holds f v := by
  cases r with
  | all => exact admits_run
  | only a => exact admits_run.trans (by rw [Holds, if_neg (Nat.lt_irrefl 1)]; omega)
  | between low high => exact admits_run

theorem Stretch.admits_item {r : Stretch} {n v : Nat} (hn : 1 < n) :
    (r.item f n).admits v = true ↔ ∃ k, v = r.start f + k * n ∧ v ≤ r.stop f := by
  cases r with
  | all => exact admits_iff_exists
  | only a =>
    rw [item, if_pos hn]
    exact admits_iff_exists
  | between low high => exact admits_iff_exists

theorem Term.admits_item {t : Term} (h : t.IsWritten f s) (v : Nat) :
    (t.item f).admits v = true ↔ t.Admits f v := by
  cases h with
  | plain hr => exact Stretch.admits_item_one
  | @stepped r _ _ n hr hn hpos =>
    -- A step of one leaves the item as it is without a step.
    by_cases hone : n = 1
    · subst hone
      exact Stretch.admits_item_one.trans (by rw [Admits, if_pos rfl])
    · have hstep : some n ≠ some 1 := fun h => hone (Option.some.inj h)
      have hn : 1 < n := by omega
      rw [Admits, if_neg hstep]
      exact Stretch.admits_item hn

/-- A term is taken for values of its field. -/
theorem Term.mem_range_of_admits {t : Term} (h : t.IsWritten f s) {v : Nat} (hv : t.Admits f v) :
    f.least ≤ v ∧ v ≤ f.greatest := by
  have hstretch : ∀ {r : Stretch} {s}, r.IsWritten f s →
      f.least ≤ r.start f ∧ r.stop f ≤ f.greatest
        ∧ ∀ v, r.Holds f v → f.least ≤ v ∧ v ≤ f.greatest := by
    intro r s hr
    cases hr with
    | all => exact ⟨Nat.le_refl _, Nat.le_refl _, fun v hv => hv⟩
    | only hv =>
      refine ⟨hv.2.1, Nat.le_refl _, ?_⟩
      rintro v rfl
      exact hv.2
    | between hlow hhigh hle =>
      refine ⟨hlow.2.1, hhigh.2.2, ?_⟩
      rintro v ⟨hlv, hvh⟩
      exact ⟨le_trans hlow.2.1 hlv, le_trans hvh hhigh.2.2⟩
  cases h with
  | plain hr => exact (hstretch hr).2.2 v hv
  | stepped hr =>
    obtain ⟨hstart, hstop, hholds⟩ := hstretch hr
    rw [Admits] at hv
    split at hv
    · exact hholds v hv
    · obtain ⟨k, rfl, hle⟩ := hv
      exact ⟨le_trans hstart (Nat.le_add_right _ _), le_trans hle hstop⟩

/-- A term is taken at least for the start of its stretch. -/
theorem Term.admits_start {t : Term} (h : t.IsWritten f s) : t.Admits f (t.stretch.start f) := by
  have hstretch : ∀ {r : Stretch} {s}, r.IsWritten f s →
      r.Holds f (r.start f) ∧ r.start f ≤ r.stop f := by
    intro r s hr
    cases hr with
    | all =>
      have hle : f.least ≤ f.greatest := by cases f <;> decide
      exact ⟨⟨Nat.le_refl _, hle⟩, hle⟩
    | only hv => exact ⟨rfl, hv.2.2⟩
    | between _ _ hle => exact ⟨⟨Nat.le_refl _, hle⟩, hle⟩
  cases h with
  | plain hr => exact (hstretch hr).1
  | stepped hr =>
    rw [Admits]
    split
    · exact (hstretch hr).1
    · exact ⟨0, by rw [Nat.zero_mul, Nat.add_zero], (hstretch hr).2⟩

/-- A single value with a step of one means all values from there to the top of the field. -/
theorem Term.means_only_one {a v : Nat} :
    Term.Means f ⟨.only a, some 1⟩ v ↔ a ≤ v ∧ v ≤ f.greatest := by
  simp only [Means, Stretch.start, Stretch.stop, Nat.mul_one]
  constructor
  · rintro ⟨k, rfl, hle⟩
    exact ⟨Nat.le_add_right a k, hle⟩
  · rintro ⟨hle, hgreatest⟩
    exact ⟨v - a, by omega, hgreatest⟩

/-- Any other term is taken for what it means. -/
theorem Term.means_iff_admits {t : Term} (h : ∀ a, t ≠ ⟨.only a, some 1⟩) (v : Nat) :
    t.Means f v ↔ t.Admits f v := by
  rw [Admits]
  split
  · rename_i hone
    obtain ⟨r, step⟩ := t
    simp only at hone
    subst hone
    cases r with
    | only a => exact absurd rfl (h a)
    | all | between =>
      -- Every value of a stretch is some ones from its start on.
      rw [← Stretch.admits_item_one]
      exact admits_iff_exists.symm
  · exact Iff.rfl

/-- A term means everything that it is taken for. -/
theorem Term.means_of_admits {t : Term} (h : t.IsWritten f s) {v : Nat} (hv : t.Admits f v) :
    t.Means f v := by
  by_cases hone : ∃ a, t = ⟨.only a, some 1⟩
  · obtain ⟨a, rfl⟩ := hone
    have hgreatest := (Term.mem_range_of_admits h hv).2
    obtain rfl : v = a := hv
    exact Term.means_only_one.2 ⟨Nat.le_refl v, hgreatest⟩
  · rw [not_exists] at hone
    exact (Term.means_iff_admits hone v).2 hv

/-! ## 5. Rows of terms -/

/-- How the terms of a field are written: with commas between them, and one at least. -/
def AreWritten (f : Field) (ts : List Term) (s : List Char) : Prop :=
  ts ≠ [] ∧ ∃ texts, List.Forall₂ (Term.IsWritten f) ts texts ∧ s = [','].intercalate texts

theorem Term.IsWritten.comma_not_mem {t : Term} (h : t.IsWritten f s) : ',' ∉ s := by
  cases h with
  | plain hr => exact hr.not_mem rfl (by decide)
  | stepped hr hn =>
    rw [List.mem_append, List.mem_cons]
    rintro (h | h | h)
    · exact hr.not_mem rfl (by decide) h
    · exact absurd h (by decide)
    · exact hn.not_mem rfl (by decide) h

theorem isWritten_of_mem {ts : List Term} {texts : List (List Char)}
    (h : List.Forall₂ (Term.IsWritten f) ts texts) :
    (∀ t ∈ ts, ∃ w, t.IsWritten f w) ∧ ∀ w ∈ texts, ∃ t : Term, t.IsWritten f w := by
  induction h with
  | nil => exact ⟨fun t ht => absurd ht List.not_mem_nil, fun w hw => absurd hw List.not_mem_nil⟩
  | cons hhere _ ih =>
    rw [List.forall_mem_cons, List.forall_mem_cons]
    exact ⟨⟨⟨_, hhere⟩, ih.1⟩, ⟨_, hhere⟩, ih.2⟩

/-- What a field admits when it is taken for its terms. -/
def Admitted.ofTerms (f : Field) (ts : List Term) : Admitted f :=
  .select f fun v => (ts.map (Term.item f)).any fun i => i.admits v

theorem forall₂_readItem_iff {ws : List (List Char)} {is : List Item} :
    List.Forall₂ (fun w i => readItem f w = .ok i) ws is
      ↔ ∃ ts, List.Forall₂ (Term.IsWritten f) ts ws ∧ ts.map (Term.item f) = is := by
  induction ws generalizing is with
  | nil => simp [List.forall₂_nil_left_iff, List.forall₂_nil_right_iff, eq_comm]
  | cons w ws ih =>
    simp only [List.forall₂_cons_left_iff, List.forall₂_cons_right_iff, ih]
    constructor
    · rintro ⟨i, is, hi, ⟨ts, hts, rfl⟩, rfl⟩
      obtain ⟨t, ht, rfl⟩ := readItem_eq_ok_iff.1 hi
      exact ⟨t :: ts, ⟨t, ts, ht, hts, rfl⟩, List.map_cons⟩
    · rintro ⟨_, ⟨t, ts, ht, hts, rfl⟩, rfl⟩
      exact ⟨t.item f, ts.map (Term.item f), readItem_eq_ok_iff.2 ⟨t, ht, rfl⟩, ⟨ts, hts, rfl⟩,
        List.map_cons⟩

/-- The reader takes for a field exactly what is written as a row of terms. -/
theorem readField_eq_ok_iff {a : Admitted f} :
    readField f s = .ok a ↔ ∃ ts, AreWritten f ts s ∧ .ofTerms f ts = a := by
  rw [readField, bind_eq_ok_iff]
  simp only [mapM_eq_ok_iff, forall₂_readItem_iff]
  constructor
  · rintro ⟨is, ⟨ts, hts, rfl⟩, h⟩
    -- A text that is cut has at least one piece.
    refine ⟨ts, ⟨fun hnil => ?_, _, hts, (intercalate_splitOnP s).symm⟩, Except.ok.inj h⟩
    rw [hnil, List.forall₂_nil_left_iff] at hts
    exact List.splitOnP_ne_nil _ _ hts
  · rintro ⟨ts, ⟨hnil, texts, hts, rfl⟩, rfl⟩
    have htexts : texts ≠ [] := by
      rintro rfl
      exact hnil (List.forall₂_nil_right_iff.1 hts)
    have hcomma : ∀ w ∈ texts, ',' ∉ w := by
      intro w hw
      obtain ⟨t, ht⟩ := (isWritten_of_mem hts).2 w hw
      exact ht.comma_not_mem
    rw [splitOnP_intercalate htexts hcomma]
    exact ⟨_, ⟨ts, hts, rfl⟩, rfl⟩

theorem mem_ofTerms {ts : List Term} (h : AreWritten f ts s) (v : Nat) :
    v ∈ (Admitted.ofTerms f ts).values ↔ ∃ t ∈ ts, t.Admits f v := by
  obtain ⟨-, texts, hts, -⟩ := h
  rw [Admitted.ofTerms, Admitted.mem_select]
  simp only [List.any_map, List.any_eq_true, Function.comp_apply]
  constructor
  · rintro ⟨-, t, ht, hv⟩
    obtain ⟨w, hw⟩ := (isWritten_of_mem hts).1 t ht
    exact ⟨t, ht, (Term.admits_item hw v).1 hv⟩
  · rintro ⟨t, ht, hv⟩
    obtain ⟨w, hw⟩ := (isWritten_of_mem hts).1 t ht
    exact ⟨Term.mem_range_of_admits hw hv, t, ht, (Term.admits_item hw v).2 hv⟩

/-! ## 6. Crontabs -/

/-- A crontab as it can be read: each field admits something. -/
def IsRead (c : Crontab) : Prop := ∀ f, c.values f ≠ []

/-- What a field of a crontab admits. -/
def field (c : Crontab) : (f : Field) → Admitted f
  | .seconds => c.seconds
  | .minutes => c.minutes
  | .hours => c.hours
  | .days => c.days
  | .weekdays => c.weekdays
  | .months => c.months

theorem values_field (c : Crontab) (f : Field) : (c.field f).values = c.values f := by
  cases f <;> rfl

theorem ofWords_eq_ok_iff {ws : List (List Char)} {c : Crontab} :
    ofWords ws = .ok c
      ↔ ∃ texts : Field → List Char, ws = Field.all.map texts
        ∧ ∀ f, readField f (texts f) = .ok (c.field f) := by
  constructor
  · intro h
    unfold ofWords at h
    split at h
    · rename_i w₁ w₂ w₃ w₄ w₅ w₆
      simp only [bind_eq_ok_iff, readNamedField, mapError_eq_ok_iff] at h
      obtain ⟨a₁, h₁, a₂, h₂, a₃, h₃, a₄, h₄, a₅, h₅, a₆, h₆, h⟩ := h
      cases h
      refine ⟨fun | .seconds => w₁ | .minutes => w₂ | .hours => w₃ | .days => w₄
                  | .weekdays => w₅ | .months => w₆, rfl, fun f => ?_⟩
      cases f
      · exact h₁
      · exact h₂
      · exact h₃
      · exact h₄
      · exact h₅
      · exact h₆
    · cases h
  · rintro ⟨texts, rfl, h⟩
    have hnamed : ∀ f, readNamedField f (texts f) = .ok (c.field f) := fun f =>
      mapError_eq_ok_iff.2 (h f)
    simp only [Field.all, List.map_cons, List.map_nil, ofWords, hnamed]
    rfl

/-- How a crontab of some terms is written: a word for each field, with blanks between them. -/
def IsRowOf (ts : Field → List Term) (s : List Char) : Prop :=
  ∃ texts : Field → List Char, words s = Field.all.map texts ∧ ∀ f, AreWritten f (ts f) (texts f)

/-- The crontab of some terms. -/
def ofTerms (ts : Field → List Term) : Crontab where
  seconds := .ofTerms .seconds (ts .seconds)
  minutes := .ofTerms .minutes (ts .minutes)
  hours := .ofTerms .hours (ts .hours)
  days := .ofTerms .days (ts .days)
  weekdays := .ofTerms .weekdays (ts .weekdays)
  months := .ofTerms .months (ts .months)

theorem field_ofTerms (ts : Field → List Term) (f : Field) :
    (ofTerms ts).field f = .ofTerms f (ts f) := by
  cases f <;> rfl

theorem eq_of_field {c d : Crontab} (h : ∀ f, c.field f = d.field f) : c = d := by
  obtain ⟨a₁, a₂, a₃, a₄, a₅, a₆⟩ := c
  obtain ⟨b₁, b₂, b₃, b₄, b₅, b₆⟩ := d
  obtain rfl : a₁ = b₁ := h .seconds
  obtain rfl : a₂ = b₂ := h .minutes
  obtain rfl : a₃ = b₃ := h .hours
  obtain rfl : a₄ = b₄ := h .days
  obtain rfl : a₅ = b₅ := h .weekdays
  obtain rfl : a₆ = b₆ := h .months
  rfl

/-- The reader takes exactly the rows of terms, and gives the crontab of these terms. -/
theorem read_eq_ok_iff {c : Crontab} :
    read s = .ok c ↔ ∃ ts, IsRowOf ts s ∧ ofTerms ts = c := by
  rw [read, mapError_eq_ok_iff, ofWords_eq_ok_iff]
  constructor
  · rintro ⟨texts, hwords, h⟩
    have hterms : ∀ f, ∃ ts, AreWritten f ts (texts f) ∧ .ofTerms f ts = c.field f := fun f =>
      readField_eq_ok_iff.1 (h f)
    choose ts hts hfield using hterms
    exact ⟨ts, ⟨texts, hwords, hts⟩, eq_of_field fun f => (field_ofTerms ts f).trans (hfield f)⟩
  · rintro ⟨ts, ⟨texts, hwords, hts⟩, rfl⟩
    exact ⟨texts, hwords, fun f => readField_eq_ok_iff.2 ⟨ts f, hts f, (field_ofTerms ts f).symm⟩⟩

theorem exists_isWritten {ts : Field → List Term} (h : IsRowOf ts s) {f : Field} {t : Term}
    (ht : t ∈ ts f) : ∃ w, t.IsWritten f w := by
  obtain ⟨texts, -, hts⟩ := h
  obtain ⟨-, ws, hws, -⟩ := hts f
  exact (isWritten_of_mem hws).1 t ht

theorem mem_values_ofTerms {ts : Field → List Term} (h : IsRowOf ts s) (f : Field) (v : Nat) :
    v ∈ (ofTerms ts).values f ↔ ∃ t ∈ ts f, t.Admits f v := by
  obtain ⟨texts, -, hts⟩ := h
  rw [← values_field, field_ofTerms]
  exact mem_ofTerms (hts f) v

theorem isRead_of_read {c : Crontab} (h : read s = .ok c) : c.IsRead := by
  obtain ⟨ts, hts, rfl⟩ := read_eq_ok_iff.1 h
  intro f
  obtain ⟨t, ht⟩ : ∃ t, t ∈ ts f := by
    obtain ⟨texts, -, hwritten⟩ := hts
    exact List.exists_mem_of_ne_nil _ (hwritten f).1
  obtain ⟨w, hw⟩ := exists_isWritten hts ht
  exact List.ne_nil_of_mem ((mem_values_ofTerms hts f _).2 ⟨t, ht, Term.admits_start hw⟩)

/-- A text is read exactly if it is a row of terms, one row for each field with commas between them;
and then every field admits the union of what its terms are taken for. That is the union of what
they mean exactly if the field admits everything from `a` on for each of its terms that is a single
value `a` with a step of one. -/
theorem reads_the_grammar (s : List Char) :
    ((∃ c, read s = .ok c) ↔ ∃ ts, IsRowOf ts s)
      ∧ ∀ c ts, read s = .ok c → IsRowOf ts s → ∀ f,
        (∀ v, v ∈ c.values f ↔ ∃ t ∈ ts f, t.Admits f v)
        ∧ ((∀ v, v ∈ c.values f ↔ ∃ t ∈ ts f, t.Means f v)
          ↔ ∀ a, ⟨.only a, some 1⟩ ∈ ts f → ∀ v, a ≤ v → v ≤ f.greatest → v ∈ c.values f) := by
  refine ⟨?_, ?_⟩
  · simp only [read_eq_ok_iff]
    constructor
    · rintro ⟨c, ts, hts, -⟩
      exact ⟨ts, hts⟩
    · rintro ⟨ts, hts⟩
      exact ⟨_, ts, hts, rfl⟩
  · intro c ts hread hts f
    -- Whatever terms the text is a row of, it is read as the crontab of these.
    have hgiven : read s = .ok (ofTerms ts) := read_eq_ok_iff.2 ⟨ts, hts, rfl⟩
    obtain rfl : ofTerms ts = c := Except.ok.inj (hgiven.symm.trans hread)
    have hvalues : ∀ v, v ∈ (ofTerms ts).values f ↔ ∃ t ∈ ts f, t.Admits f v := fun v =>
      mem_values_ofTerms hts f v
    refine ⟨hvalues, ?_, ?_⟩
    · intro hmeans a ha v hle hgreatest
      exact (hmeans v).2 ⟨_, ha, Term.means_only_one.2 ⟨hle, hgreatest⟩⟩
    · intro hcovered v
      constructor
      · intro hv
        obtain ⟨t, ht, hadmits⟩ := (hvalues v).1 hv
        obtain ⟨w, hw⟩ := exists_isWritten hts ht
        exact ⟨t, ht, Term.means_of_admits hw hadmits⟩
      · -- Only single values with a step of one mean more than they are taken for.
        rintro ⟨t, ht, hmeans⟩
        by_cases hone : ∃ a, t = ⟨.only a, some 1⟩
        · obtain ⟨a, rfl⟩ := hone
          obtain ⟨hle, hgreatest⟩ := Term.means_only_one.1 hmeans
          exact hcovered a ht v hle hgreatest
        · rw [not_exists] at hone
          exact (hvalues v).2 ⟨t, ht, (Term.means_iff_admits hone v).1 hmeans⟩

/-! ## 7. A step of one -/

/-- Five and every second from there on. -/
def fromFive : Field → List Term
  | .seconds => [⟨.only 5, some 1⟩]
  | _ => [⟨.all, none⟩]

theorem isRowOf_fromFive : IsRowOf fromFive "5/1 * * * * *".toList := by
  have hstar : ∀ f, AreWritten f [⟨.all, none⟩] ['*'] := fun f =>
    ⟨List.cons_ne_nil _ _, [['*']], .cons (.plain .all) .nil, rfl⟩
  have hfive : AreWritten .seconds [⟨.only 5, some 1⟩] ['5', '/', '1'] := by
    have hvalue : IsValue .seconds ['5'] 5 := ⟨isNumeral_decimal (n := 5) (by decide), by decide⟩
    have hstep : IsNumeral ['1'] 1 := isNumeral_decimal (n := 1) (by decide)
    exact ⟨List.cons_ne_nil _ _, [['5', '/', '1']],
      .cons (.stepped (.only hvalue) hstep (Nat.le_refl 1)) .nil, rfl⟩
  refine ⟨fun | .seconds => ['5', '/', '1'] | _ => ['*'], by decide, fun f => ?_⟩
  cases f with
  | seconds => exact hfive
  | minutes | hours | days | weekdays | months => exact hstar _

/-- A single value with a step of one is read, but as that value alone: second 6, which it
means, is not admitted. -/
theorem value_with_step_one_stands_alone :
    ∃ c, read "5/1 * * * * *".toList = .ok c
      ∧ ¬ ∀ ts, IsRowOf ts "5/1 * * * * *".toList →
        ∀ f v, v ∈ c.values f ↔ ∃ t ∈ ts f, t.Means f v := by
  have hrow := isRowOf_fromFive
  refine ⟨ofTerms fromFive, read_eq_ok_iff.2 ⟨fromFive, hrow, rfl⟩, fun h => ?_⟩
  have hmeans : ∃ t ∈ fromFive .seconds, t.Means .seconds 6 :=
    ⟨_, List.mem_singleton_self _, Term.means_only_one.2 (by decide)⟩
  have hsix : 6 ∈ (ofTerms fromFive).values .seconds := (h fromFive hrow .seconds 6).2 hmeans
  exact absurd hsix (by decide)

end Measurement.Crontab
