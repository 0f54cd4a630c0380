/-
What is written for a crontab is read as that crontab.

A field is written in one of three ways, and each is read as an item or a row of
items that admit what the field admits: all its values, every n-th of them, or
the maximal runs of its values, which together are those values and no others
(`mem_runs_iff`). A field that admits nothing would be written as an empty item,
but no such field is ever read (`isRead_of_read`), so every crontab that was read
comes back (`read_write`).
-/
import Measurement.Proofs.Crontab.Grammar
import Measurement.Proofs.Crontab.Search
import Measurement.Proofs.Time.Text

set_option autoImplicit false

namespace Measurement.Crontab

open Measurement.Text

/-! ## 1. Items -/

/-- A star with a step. -/
theorem readItem_every {f : Field} {n : Nat} (hn : n ≠ 0) (hbound : n ≤ maxNumber) :
    readItem f ('*' :: '/' :: decimal n) = .ok ⟨f.least, f.greatest, n⟩ := by
  have hstep : 1 ≤ n := Nat.one_le_iff_ne_zero.2 hn
  exact readItem_eq_ok_iff.2
    ⟨⟨.all, some n⟩, .stepped .all (isNumeral_decimal hbound) hstep, rfl⟩

theorem mark_not_mem_decimal {m : Char} (hm : m.isDigit = false) (n : Nat) : m ∉ decimal n := by
  intro h
  rw [isDigit_of_mem_decimal h] at hm
  cases hm

theorem mem_writeRun {r : Nat × Nat} {c : Char} (h : c ∈ writeRun r) :
    c.isDigit = true ∨ c = '-' := by
  rw [writeRun] at h
  split at h
  · rw [List.mem_append, List.mem_cons] at h
    obtain h | h | h := h
    · exact Or.inl (isDigit_of_mem_decimal h)
    · exact Or.inr h
    · exact Or.inl (isDigit_of_mem_decimal h)
  · exact Or.inl (isDigit_of_mem_decimal h)

theorem comma_not_mem_writeRun (r : Nat × Nat) : ',' ∉ writeRun r := fun h =>
  absurd (mem_writeRun h) (by decide)

theorem greatest_le_maxNumber (f : Field) : f.greatest ≤ maxNumber := by
  cases f <;> decide

theorem isValue_decimal {f : Field} {v : Nat} (h : v ∈ f.range) : IsValue f (decimal v) v := by
  have hvalue := Field.mem_range.1 h
  exact ⟨isNumeral_decimal (le_trans hvalue.2 (greatest_le_maxNumber f)), hvalue⟩

/-- A run of values of a field. -/
theorem readItem_writeRun {f : Field} {r : Nat × Nat} (h₁ : r.1 ∈ f.range) (h₂ : r.2 ∈ f.range)
    (hle : r.1 ≤ r.2) : readItem f (writeRun r) = .ok ⟨r.1, r.2, 1⟩ := by
  rw [readItem_eq_ok_iff, writeRun]
  by_cases hlt : r.1 < r.2
  · rw [if_pos hlt]
    exact ⟨⟨.between r.1 r.2, none⟩,
      .plain (.between (isValue_decimal h₁) (isValue_decimal h₂) hle), rfl⟩
  · have heq : r.2 = r.1 := by omega
    rw [if_neg hlt, heq]
    exact ⟨⟨.only r.1, none⟩, .plain (.only (isValue_decimal h₁)), rfl⟩

/-! ## 2. Runs -/

/-- The runs of a list begin and end with its values, in this order. -/
theorem bounds_of_mem_runs {vs : List Nat} {r : Nat × Nat} (h : r ∈ runs vs) :
    r.1 ∈ vs ∧ r.2 ∈ vs ∧ r.1 ≤ r.2 := by
  induction vs generalizing r with
  | nil => exact absurd h List.not_mem_nil
  | cons v vs ih =>
    have hrest : ∀ {q : Nat × Nat}, q ∈ runs vs → q.1 ∈ v :: vs ∧ q.2 ∈ v :: vs ∧ q.1 ≤ q.2 := by
      intro q hq
      obtain ⟨h₁, h₂, hle⟩ := ih hq
      exact ⟨List.mem_cons_of_mem v h₁, List.mem_cons_of_mem v h₂, hle⟩
    have hself : v ∈ v :: vs := List.mem_cons_self
    rw [runs] at h
    split at h
    · rw [List.mem_singleton] at h
      subst h
      exact ⟨hself, hself, Nat.le_refl v⟩
    · rename_i a b more hruns
      obtain ⟨-, hb, hab⟩ := hrest (q := (a, b)) (by rw [hruns]; exact List.mem_cons_self)
      split at h
      · rename_i hnext
        obtain rfl | h := List.mem_cons.1 h
        · simp only at hab ⊢
          exact ⟨hself, hb, by omega⟩
        · exact hrest (by rw [hruns]; exact List.mem_cons_of_mem _ h)
      · obtain rfl | h := List.mem_cons.1 h
        · exact ⟨hself, hself, Nat.le_refl v⟩
        · exact hrest (by rw [hruns]; exact h)

/-- The runs of a list hold its values and no others. -/
theorem mem_runs_iff (vs : List Nat) (x : Nat) :
    (∃ r ∈ runs vs, r.1 ≤ x ∧ x ≤ r.2) ↔ x ∈ vs := by
  induction vs with
  | nil => simp [runs]
  | cons v vs ih =>
    rw [List.mem_cons, ← ih, runs]
    cases hruns : runs vs with
    | nil =>
      simp only [List.mem_singleton, exists_eq_left, List.not_mem_nil, false_and, exists_false,
        or_false]
      omega
    | cons q more =>
      obtain ⟨a, b⟩ := q
      have hhead : (a, b) ∈ runs vs := by
        rw [hruns]
        exact List.mem_cons_self
      have hab : a ≤ b := (bounds_of_mem_runs hhead).2.2
      simp only
      split
      · rename_i hnext
        simp only [List.mem_cons, exists_eq_or_imp]
        rw [← or_assoc]
        refine or_congr ?_ Iff.rfl
        omega
      · simp only [List.mem_cons, exists_eq_or_imp]
        refine or_congr ?_ Iff.rfl
        omega

theorem runs_ne_nil {vs : List Nat} (h : vs ≠ []) : runs vs ≠ [] := by
  obtain ⟨v, hv⟩ := List.exists_mem_of_ne_nil vs h
  obtain ⟨r, hr, -⟩ := (mem_runs_iff vs v).2 hv
  exact List.ne_nil_of_mem hr

/-! ## 3. Fields -/

/-- A row of items that together admit what a field admits is read as that field. -/
theorem readField_intercalate {f : Field} {a : Admitted f} {α : Type} {xs : List α}
    (text : α → List Char) (item : α → Item) (hnil : xs ≠ []) (hcomma : ∀ x ∈ xs, ',' ∉ text x)
    (hread : ∀ x ∈ xs, readItem f (text x) = .ok (item x))
    (hadmits : ∀ v ∈ f.range, (∃ x ∈ xs, (item x).admits v = true) ↔ v ∈ a.values) :
    readField f ([','].intercalate (xs.map text)) = .ok a := by
  have hsplit : ([','].intercalate (xs.map text)).splitOnP (· == ',') = xs.map text :=
    splitOnP_intercalate (by simpa using hnil) (List.forall_mem_map.2 hcomma)
  have hitems : (xs.map text).mapM (readItem f) = .ok (xs.map item) := by
    rw [List.mapM_map]
    exact mapM_eq_ok hread
  have hselect : Admitted.select f (fun v => (xs.map item).any fun i => i.admits v) = a := by
    refine Admitted.ext_of_mem fun v => ?_
    rw [Admitted.mem_select, ← Field.mem_range]
    simp only [List.any_map, List.any_eq_true, Function.comp_apply]
    constructor
    · exact fun h => (hadmits v h.1).1 h.2
    · intro hv
      have hrange := Admitted.mem_range hv
      exact ⟨hrange, (hadmits v hrange).2 hv⟩
  rw [readField, hsplit, hitems]
  exact congrArg Except.ok hselect

theorem admits_every {f : Field} {n v : Nat} (h : v ∈ f.range) :
    Item.admits ⟨f.least, f.greatest, n⟩ v = ((v - f.least) % n == 0) := by
  rw [Field.mem_range] at h
  rw [Item.admits, decide_eq_true h, Bool.true_and]

/-- So is a single item that admits what the field admits. -/
theorem readField_item {f : Field} {a : Admitted f} {s : List Char} {i : Item} (hcomma : ',' ∉ s)
    (hread : readItem f s = .ok i) (hadmits : ∀ v ∈ f.range, i.admits v = true ↔ v ∈ a.values) :
    readField f s = .ok a := by
  have hone := readField_intercalate (a := a) (fun _ : Unit => s) (fun _ => i)
    (List.cons_ne_nil () []) (fun _ _ => hcomma) (fun _ _ => hread) (by simpa using hadmits)
  rwa [List.map_singleton, List.intercalate_singleton] at hone

/-- What is written for a field that admits something is read as that field. -/
theorem readField_writeField {f : Field} {a : Admitted f} (hnil : a.values ≠ []) :
    readField f (writeField f a.values) = .ok a := by
  rw [writeField]
  split
  · rename_i hall
    refine readField_item (i := ⟨f.least, f.greatest, 1⟩) (by decide) rfl fun v hv => ?_
    rw [admits_every hv, Nat.mod_one, hall]
    exact ⟨fun _ => hv, fun _ => rfl⟩
  · split
    · rename_i n hfound
      have hvalues : a.values = everyNth f n := by
        have h := List.find?_some hfound
        simpa using h
      have hrange := List.mem_range'_1.1 (List.mem_of_find?_eq_some hfound)
      have hbound : n ≤ maxNumber := by
        have hsmall := greatest_le_maxNumber f
        omega
      have hcomma : ',' ∉ decimal n := mark_not_mem_decimal rfl n
      refine readField_item (by simpa using hcomma) (readItem_every (by omega) hbound)
        fun v hv => ?_
      rw [admits_every hv, hvalues, everyNth, List.mem_filter]
      exact ⟨fun h => ⟨hv, h⟩, fun h => h.2⟩
    · refine readField_intercalate writeRun (fun r => ⟨r.1, r.2, 1⟩) (runs_ne_nil hnil)
        (fun r _ => comma_not_mem_writeRun r) ?_ ?_
      · intro r hr
        obtain ⟨h₁, h₂, hle⟩ := bounds_of_mem_runs hr
        exact readItem_writeRun (Admitted.mem_range h₁) (Admitted.mem_range h₂) hle
      · intro v _
        rw [← mem_runs_iff a.values v]
        simp only [admits_run]

/-! ## 4. Crontabs -/

/-- The text of a field is made of digits and four marks. -/
theorem not_mem_writeField {f : Field} {vs : List Nat} {c : Char} (hdigit : c.isDigit = false)
    (hmark : c ∉ ['*', '/', '-', ',']) : c ∉ writeField f vs := by
  have hnumber : ∀ n, c ∉ decimal n := fun n => mark_not_mem_decimal hdigit n
  simp only [List.mem_cons, List.not_mem_nil, or_false, not_or] at hmark
  obtain ⟨hstar, hslash, hdash, hcomma⟩ := hmark
  rw [writeField]
  split
  · simpa using hstar
  · split
    · simp [hstar, hslash, hnumber]
    · refine not_mem_intercalate (by simpa using hcomma) fun i hi => ?_
      obtain ⟨r, -, rfl⟩ := List.mem_map.1 hi
      intro h
      obtain h | h := mem_writeRun h
      · rw [hdigit] at h
        cases h
      · exact hdash h

theorem not_mem_write {c : Crontab} {d : Char} (hdigit : d.isDigit = false)
    (hmark : d ∉ ['*', '/', '-', ',', ' ']) : d ∉ c.write := by
  have hblank : d ≠ ' ' := fun h => hmark (by simp [h])
  have hothers : d ∉ ['*', '/', '-', ','] := fun h => hmark (List.mem_append_left [' '] h)
  refine not_mem_intercalate (by simpa using hblank) fun w hw => ?_
  obtain ⟨f, -, rfl⟩ := List.mem_map.1 hw
  exact not_mem_writeField hdigit hothers

theorem isBlank_of_mem_writeField {f : Field} {vs : List Nat} {c : Char} (h : c ∈ writeField f vs) :
    isBlank c = false := by
  by_contra hblank
  rw [Bool.not_eq_false] at hblank
  have hdigit : c.isDigit = false := by
    by_contra hdigit
    rw [Bool.not_eq_false] at hdigit
    rw [isBlank_of_isDigit hdigit] at hblank
    cases hblank
  refine not_mem_writeField hdigit (fun hmark => ?_) h
  revert hmark
  simp only [List.mem_cons, List.not_mem_nil, or_false]
  rintro (rfl | rfl | rfl | rfl) <;> exact absurd hblank (by decide)

theorem writeField_ne_nil {f : Field} {a : Admitted f} (hnil : a.values ≠ []) :
    writeField f a.values ≠ [] := by
  intro h
  have hread := readField_writeField hnil
  rw [h] at hread
  cases f <;> cases hread

/-- A crontab is written as a word for each field. -/
theorem words_write {c : Crontab} (h : c.IsRead) :
    words c.write = Field.all.map fun f => writeField f (c.values f) := by
  refine words_intercalate fun w hw => ?_
  obtain ⟨f, -, rfl⟩ := List.mem_map.1 hw
  refine ⟨?_, fun d hd => isBlank_of_mem_writeField hd⟩
  have hnil := h f
  rw [← values_field] at hnil ⊢
  exact writeField_ne_nil hnil

/-- What is written for a crontab whose fields all admit something is read as that crontab. -/
theorem read_write {c : Crontab} (h : c.IsRead) : read c.write = .ok c := by
  rw [read, mapError_eq_ok_iff, ofWords_eq_ok_iff]
  refine ⟨fun f => writeField f (c.values f), words_write h, fun f => ?_⟩
  have hnil := h f
  simp only [← values_field] at hnil ⊢
  exact readField_writeField hnil

end Measurement.Crontab
