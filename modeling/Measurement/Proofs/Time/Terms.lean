/-
The terms of a span.

A span is written as a row of terms, each a number with a unit behind it. The units
keep their order and none stands twice, so the units of a row are those that there
are, some of them left out (`AreTerms`).

The reader passes over units that are left out, and takes exactly such rows
(`readTerms_units_eq_some_iff`). One number of seconds has many rows. The one that is
written has no number that is zero or begins with a zero, and what it says in
smaller units never comes to one of a larger unit (`writeTerms_units_eq_iff`).
-/
import Measurement.Time.Span
import Measurement.Proofs.Text.Cuts
import Measurement.Proofs.Text.Numeral

set_option autoImplicit false

namespace Measurement.Span

open Measurement.Text

/-! ## 1. Rows of terms -/

/-- A number as it is written, and the unit behind it with its seconds. -/
structure Term where
  digits : List Char
  unit : Char × Nat
deriving DecidableEq

namespace Term

/-- The text of a term. -/
def text (t : Term) : List Char := t.digits ++ [t.unit.1]

/-- The number of a term. -/
def number (t : Term) : Nat := valueOfDigits t.digits

/-- The seconds of a term. -/
def seconds (t : Term) : Nat := t.number * t.unit.2

end Term

/-- The seconds of a row of terms. -/
def total : List Term → Nat
  | [] => 0
  | t :: ts => t.seconds + total ts

@[simp] theorem total_nil : total [] = 0 := rfl

@[simp] theorem total_cons (t : Term) (ts : List Term) : total (t :: ts) = t.seconds + total ts :=
  rfl

theorem flatMap_text_cons (t : Term) (ts : List Term) :
    (t :: ts).flatMap Term.text = t.digits ++ t.unit.1 :: ts.flatMap Term.text := by
  rw [List.flatMap_cons, Term.text, List.append_assoc, List.singleton_append]

/-- Whether a text is a row of terms: one or more digits with a unit behind them, again and again,
with the units in their order and none twice. -/
structure AreTerms (us : List (Char × Nat)) (terms : List Term) (s : List Char) : Prop where
  text : s = terms.flatMap Term.text
  digits : ∀ t ∈ terms, t.digits ≠ [] ∧ ∀ c ∈ t.digits, c.isDigit = true
  units : (terms.map Term.unit).Sublist us

section

variable {us : List (Char × Nat)} {u : Char × Nat} {terms ts : List Term} {s r ds : List Char}
  {n : Nat}

theorem areTerms_nil : AreTerms us [] [] :=
  ⟨rfl, fun _ ht => absurd ht List.not_mem_nil, List.nil_sublist us⟩

theorem AreTerms.eq_nil_iff (h : AreTerms us terms s) : s = [] ↔ terms = [] := by
  rw [h.text]
  cases terms with
  | nil => exact iff_of_true rfl rfl
  | cons t ts =>
    rw [flatMap_text_cons]
    exact iff_of_false (by simp) (List.cons_ne_nil t ts)

theorem AreTerms.unit_mem (h : AreTerms us terms s) {t : Term} (ht : t ∈ terms) : t.unit ∈ us :=
  h.units.subset (List.mem_map_of_mem ht)

/-- The largest unit is left out of a row of terms, or it is that of the first one. -/
theorem areTerms_cons_iff :
    AreTerms (u :: us) terms s ↔ AreTerms us terms s
      ∨ ∃ ds ts r, terms = ⟨ds, u⟩ :: ts ∧ s = ds ++ u.1 :: r
        ∧ (ds ≠ [] ∧ ∀ c ∈ ds, c.isDigit = true) ∧ AreTerms us ts r := by
  constructor
  · rintro ⟨htext, hdigits, hunits⟩
    obtain hleft | ⟨rest, hfirst, hrest⟩ := List.sublist_cons_iff.1 hunits
    · exact Or.inl ⟨htext, hdigits, hleft⟩
    · cases terms with
      | nil => cases hfirst
      | cons t ts =>
        obtain ⟨rfl, rfl⟩ := List.cons.inj hfirst
        obtain ⟨hfirst, hothers⟩ := List.forall_mem_cons.1 hdigits
        rw [flatMap_text_cons] at htext
        exact Or.inr ⟨t.digits, ts, _, rfl, htext, hfirst, rfl, hothers, hrest⟩
  · rintro (⟨htext, hdigits, hunits⟩ | ⟨ds, ts, r, rfl, rfl, hfirst, rfl, hothers, hunits⟩)
    · exact ⟨htext, hdigits, hunits.cons u⟩
    · exact ⟨(flatMap_text_cons ⟨ds, u⟩ ts).symm, List.forall_mem_cons.2 ⟨hfirst, hothers⟩,
        hunits.cons_cons u⟩

/-! ## 2. Reading -/

theorem readTerms_nil (us : List (Char × Nat)) : readTerms us [] = some 0 := by
  cases us with
  | nil => rfl
  | cons u us => rfl

/-- At a number with a unit behind it the reader takes both, or passes over a unit of its own. -/
theorem readTerms_term {c : Char} (hds : ds ≠ [] ∧ ∀ c ∈ ds, c.isDigit = true)
    (hc : c.isDigit = false) :
    readTerms (u :: us) (ds ++ c :: r)
      = if c = u.1 then (readTerms us r).map (valueOfDigits ds * u.2 + ·)
        else readTerms us (ds ++ c :: r) := by
  have hnumber : digits? ds = some (valueOfDigits ds) :=
    digits?_eq_some_iff.2 ⟨hds.1, hds.2, rfl⟩
  cases hs : ds ++ c :: r with
  | nil => exact absurd hs (by simp)
  | cons d s =>
    rw [readTerms]
    · rw [← hs, takeWhile_digits hds.2 (endsDigits_cons hc),
        dropWhile_digits hds.2 (endsDigits_cons hc), hnumber]
    · exact List.cons_ne_nil d s

/-- What the reader takes is a row of terms. -/
theorem exists_areTerms_of_readTerms (h : readTerms us s = some n) :
    ∃ terms, AreTerms us terms s ∧ total terms = n := by
  induction us generalizing s n with
  | nil =>
    cases s with
    | nil => exact ⟨[], areTerms_nil, Option.some.inj h⟩
    | cons d s => cases h
  | cons u us ih =>
    cases s with
    | nil => exact ⟨[], areTerms_nil, Option.some.inj h⟩
    | cons d s =>
      -- Either the first term has this unit, or the unit is left out.
      rw [readTerms] at h
      · split at h
        · rename_i v c r hnumber hrest
          obtain ⟨hnil, hall, rfl⟩ := digits?_eq_some_iff.1 hnumber
          split at h
          · rename_i hunit
            obtain ⟨m, hm, rfl⟩ := Option.map_eq_some_iff.1 h
            obtain ⟨ts, hts, rfl⟩ := ih hm
            have htext : d :: s = (d :: s).takeWhile Char.isDigit ++ u.1 :: r := by
              rw [← hunit, ← hrest, List.takeWhile_append_dropWhile]
            exact ⟨⟨_, u⟩ :: ts,
              areTerms_cons_iff.2 (Or.inr ⟨_, ts, r, rfl, htext, ⟨hnil, hall⟩, hts⟩), rfl⟩
          · obtain ⟨terms, hterms, htotal⟩ := ih h
            exact ⟨terms, areTerms_cons_iff.2 (Or.inl hterms), htotal⟩
        · cases h
      · exact List.cons_ne_nil d s

/-- A row of terms is taken for its seconds, if no unit is a digit or another one. -/
theorem readTerms_of_areTerms (hdistinct : (us.map (·.1)).Nodup)
    (hunits : ∀ c ∈ us.map (·.1), c.isDigit = false) (h : AreTerms us terms s) :
    readTerms us s = some (total terms) := by
  induction us generalizing terms s with
  | nil =>
    have hnil : terms = [] := List.map_eq_nil_iff.1 (List.sublist_nil.1 h.units)
    subst hnil
    rw [h.text]
    rfl
  | cons u us ih =>
    rw [List.map_cons, List.nodup_cons] at hdistinct
    rw [List.map_cons, List.forall_mem_cons] at hunits
    obtain hleft | ⟨ds, ts, r, rfl, rfl, hds, hts⟩ := areTerms_cons_iff.1 h
    · have hread := ih hdistinct.2 hunits.2 hleft
      cases terms with
      | nil =>
        rw [hleft.text, List.flatMap_nil, readTerms_nil]
        rfl
      | cons t ts =>
        -- The unit of the first term is one of those behind, and so another one.
        have hmem : t.unit.1 ∈ us.map (·.1) :=
          List.mem_map_of_mem (hleft.unit_mem List.mem_cons_self)
        have hother : t.unit.1 ≠ u.1 := fun heq => hdistinct.1 (heq ▸ hmem)
        rw [hleft.text, flatMap_text_cons] at hread ⊢
        rw [readTerms_term (hleft.digits t List.mem_cons_self) (hunits.2 _ hmem), if_neg hother,
          hread]
    · rw [readTerms_term hds hunits.1, if_pos rfl, ih hdistinct.2 hunits.2 hts]
      rfl

/-- The reader takes exactly the rows of terms, for their seconds. -/
theorem readTerms_units_eq_some_iff :
    readTerms units s = some n ↔ ∃ terms, AreTerms units terms s ∧ total terms = n := by
  constructor
  · exact exists_areTerms_of_readTerms
  · rintro ⟨terms, hterms, rfl⟩
    exact readTerms_of_areTerms (by decide) (eq_false_of_all (by decide)) hterms

/-! ## 3. Writing -/

/-- Whether a row of terms has no number that is zero or begins with a zero, and what it says in
smaller units never comes to one of a larger unit. -/
structure AreCanonical (us : List (Char × Nat)) (terms : List Term) : Prop where
  plain : ∀ t ∈ terms, 0 < t.number ∧ t.digits = decimal t.number
  carried : ∀ u ∈ us, total (terms.filter fun t => t.unit.2 < u.2) < u.2

/-- What units leave of a number of seconds. -/
def leftOver : List (Char × Nat) → Nat → Nat
  | [], n => n
  | (_, seconds) :: smaller, n => leftOver smaller (n % seconds)

theorem leftOver_units (n : Nat) : leftOver units n = 0 := Nat.mod_one _

/-- Whether units go from the largest to the smallest. -/
structure Descend (us : List (Char × Nat)) : Prop where
  positive : ∀ u ∈ us, 0 < u.2
  smaller : us.Pairwise fun u v => v.2 < u.2

theorem descend_units : Descend units := ⟨by decide, by decide⟩

/-- A canonical row with a term in it comes to some seconds. -/
theorem AreTerms.total_pos (h : AreTerms us terms s) (hunits : Descend us)
    (hcanonical : AreCanonical us terms) (hterms : terms ≠ []) : 0 < total terms := by
  cases terms with
  | nil => exact absurd rfl hterms
  | cons t ts =>
    have hnumber := (hcanonical.plain t List.mem_cons_self).1
    have hunit := hunits.positive _ (h.unit_mem List.mem_cons_self)
    rw [total_cons]
    exact Nat.add_pos_left (Nat.mul_pos hnumber hunit) _

theorem filter_smaller (h : AreTerms us terms s) (hsmaller : ∀ v ∈ us, v.2 < u.2) :
    terms.filter (fun t => t.unit.2 < u.2) = terms :=
  List.filter_eq_self.2 fun _ ht => decide_eq_true (hsmaller _ (h.unit_mem ht))

/-- With the largest unit left out, a row is canonical if it comes to less than one of it. -/
theorem areCanonical_left_out_iff (h : AreTerms us terms s) (hsmaller : ∀ v ∈ us, v.2 < u.2) :
    AreCanonical (u :: us) terms ↔ total terms < u.2 ∧ AreCanonical us terms := by
  constructor
  · rintro ⟨hplain, hcarried⟩
    rw [List.forall_mem_cons, filter_smaller h hsmaller] at hcarried
    exact ⟨hcarried.1, hplain, hcarried.2⟩
  · rintro ⟨hless, hplain, hcarried⟩
    refine ⟨hplain, ?_⟩
    rw [List.forall_mem_cons, filter_smaller h hsmaller]
    exact ⟨hless, hcarried⟩

/-- With the largest unit in front, a row is canonical if the terms behind it are and come to less
than one of it. -/
theorem areCanonical_cons_iff (h : AreTerms us ts r) (hsmaller : ∀ v ∈ us, v.2 < u.2) :
    AreCanonical (u :: us) (⟨ds, u⟩ :: ts)
      ↔ (0 < valueOfDigits ds ∧ ds = decimal (valueOfDigits ds)) ∧ total ts < u.2
        ∧ AreCanonical us ts := by
  have hfront : ∀ v : Char × Nat, v.2 ≤ u.2 →
      ((⟨ds, u⟩ :: ts : List Term).filter fun t => t.unit.2 < v.2)
        = ts.filter fun t => t.unit.2 < v.2 := fun v hv =>
    List.filter_cons_of_neg (by simpa using hv)
  have hbehind : ∀ v ∈ us, ((⟨ds, u⟩ :: ts : List Term).filter fun t => t.unit.2 < v.2)
      = ts.filter fun t => t.unit.2 < v.2 := fun v hv => hfront v (Nat.le_of_lt (hsmaller v hv))
  constructor
  · rintro ⟨hplain, hcarried⟩
    rw [List.forall_mem_cons] at hplain hcarried
    rw [hfront u (Nat.le_refl _), filter_smaller h hsmaller] at hcarried
    refine ⟨hplain.1, hcarried.1, hplain.2, fun v hv => ?_⟩
    rw [← hbehind v hv]
    exact hcarried.2 v hv
  · rintro ⟨hfirst, hless, hplain, hcarried⟩
    refine ⟨List.forall_mem_cons.2 ⟨hfirst, hplain⟩, List.forall_mem_cons.2 ⟨?_, fun v hv => ?_⟩⟩
    · rw [hfront u (Nat.le_refl _), filter_smaller h hsmaller]
      exact hless
    · rw [hbehind v hv]
      exact hcarried v hv

/-- What is written is a canonical row, for the seconds but for what the units leave. -/
theorem exists_areTerms_writeTerms (h : Descend us) (n : Nat) :
    ∃ terms, AreTerms us terms (writeTerms us n) ∧ AreCanonical us terms
      ∧ total terms + leftOver us n = n := by
  induction us generalizing n with
  | nil => exact ⟨[], areTerms_nil, ⟨by simp, by simp⟩, Nat.zero_add n⟩
  | cons u us ih =>
    obtain ⟨hpositive, hothers⟩ := List.forall_mem_cons.1 h.positive
    obtain ⟨hsmaller, hdescend⟩ := List.pairwise_cons.1 h.smaller
    obtain ⟨ts, hts, hcanonical, hsum⟩ := ih ⟨hothers, hdescend⟩ (n % u.2)
    -- What is left of a division is less than one of the unit, so the smaller ones never carry.
    have hdivision := Nat.div_add_mod' n u.2
    have hrest : n % u.2 < u.2 := Nat.mod_lt n hpositive
    rw [writeTerms, leftOver]
    split
    · rename_i hzero
      rw [hzero, Nat.zero_mul, Nat.zero_add] at hdivision
      refine ⟨ts, areTerms_cons_iff.2 (Or.inl hts), ?_, by omega⟩
      exact (areCanonical_left_out_iff hts hsmaller).2 ⟨by omega, hcanonical⟩
    · rename_i hnumber
      have hdigits : ∀ c ∈ decimal (n / u.2), c.isDigit = true := fun c hc =>
        isDigit_of_mem_decimal hc
      refine ⟨⟨decimal (n / u.2), u⟩ :: ts, ?_, ?_, ?_⟩
      · exact areTerms_cons_iff.2 (Or.inr ⟨_, ts, _, rfl, rfl, ⟨decimal_ne_nil _, hdigits⟩, hts⟩)
      · rw [areCanonical_cons_iff hts hsmaller, valueOfDigits_decimal]
        exact ⟨⟨Nat.pos_of_ne_zero hnumber, rfl⟩, by omega, hcanonical⟩
      · rw [total_cons, Term.seconds, Term.number, valueOfDigits_decimal]
        change n / u.2 * u.2 + total ts + leftOver us (n % u.2) = n
        omega

/-- A canonical row is what is written for its seconds. -/
theorem writeTerms_of_areCanonical (h : Descend us) (hterms : AreTerms us terms s)
    (hcanonical : AreCanonical us terms) : writeTerms us (total terms) = s := by
  induction us generalizing terms s with
  | nil =>
    have hnil : terms = [] := List.map_eq_nil_iff.1 (List.sublist_nil.1 hterms.units)
    subst hnil
    exact hterms.text.symm
  | cons u us ih =>
    obtain ⟨hpositive, hothers⟩ := List.forall_mem_cons.1 h.positive
    obtain ⟨hsmaller, hdescend⟩ := List.pairwise_cons.1 h.smaller
    have hunits : Descend us := ⟨hothers, hdescend⟩
    obtain hleft | ⟨ds, ts, r, rfl, rfl, -, hts⟩ := areTerms_cons_iff.1 hterms
    · obtain ⟨hless, hlower⟩ := (areCanonical_left_out_iff hleft hsmaller).1 hcanonical
      rw [writeTerms, Nat.div_eq_of_lt hless, if_pos rfl, Nat.mod_eq_of_lt hless]
      exact ih hunits hleft hlower
    · obtain ⟨⟨hnumber, hplain⟩, hless, hlower⟩ := (areCanonical_cons_iff hts hsmaller).1 hcanonical
      have hquotient : (valueOfDigits ds * u.2 + total ts) / u.2 = valueOfDigits ds := by
        rw [Nat.mul_comm, Nat.mul_add_div hpositive, Nat.div_eq_of_lt hless, Nat.add_zero]
      have hremainder : (valueOfDigits ds * u.2 + total ts) % u.2 = total ts := by
        rw [Nat.mul_comm, Nat.mul_add_mod, Nat.mod_eq_of_lt hless]
      rw [total_cons, Term.seconds, Term.number, writeTerms, hquotient, hremainder,
        if_neg (Nat.ne_of_gt hnumber), ih hunits hts hlower, ← hplain]

/-- The text of a number of seconds is its canonical row of terms. -/
theorem writeTerms_units_eq_iff :
    writeTerms units n = s
      ↔ ∃ terms, AreTerms units terms s ∧ AreCanonical units terms ∧ total terms = n := by
  constructor
  · rintro rfl
    obtain ⟨terms, hterms, hcanonical, hsum⟩ := exists_areTerms_writeTerms descend_units n
    rw [leftOver_units, Nat.add_zero] at hsum
    exact ⟨terms, hterms, hcanonical, hsum⟩
  · rintro ⟨terms, hterms, hcanonical, rfl⟩
    exact writeTerms_of_areCanonical descend_units hterms hcanonical

end

end Measurement.Span
