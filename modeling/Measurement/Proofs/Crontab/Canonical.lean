/-
The canonical text of a crontab.

A crontab that was read is written so that it is read again (`read_write`). So
its text tells its values, and no two crontabs that admit different values share
one. The text of a field has one of three forms (`IsForm`): a star, a star with a
step, or a list of its maximal runs. The runs are built from the back, value by
value: as the values ascend, the next one in front is right before the first run
that is there, which it then joins, or apart from it (`pairwise_runs`). What lies
between runs that are apart is no value of the field, so each run is as long as it
can be (`areRunsOf_runs`).
-/
import Measurement.Proofs.Crontab.Text

set_option autoImplicit false

namespace Measurement.Crontab

open Measurement.Text

/-! ## 1. Runs -/

/-- Whether all values from one to another are in a list, and neither of those next to them. -/
structure IsMaximalRun (vs : List Nat) (r : Nat × Nat) : Prop where
  le : r.1 ≤ r.2
  holds : ∀ v, r.1 ≤ v → v ≤ r.2 → v ∈ vs
  before : ∀ v, v + 1 = r.1 → v ∉ vs
  behind : r.2 + 1 ∉ vs

/-- Whether runs are the maximal runs of a list of values, ascending. At least one value that is not
in the list lies between any two of them. -/
structure AreRunsOf (vs : List Nat) (rs : List (Nat × Nat)) : Prop where
  apart : rs.Pairwise fun q r => q.2 + 1 < r.1
  maximal : ∀ r ∈ rs, IsMaximalRun vs r
  covered : ∀ v ∈ vs, ∃ r ∈ rs, r.1 ≤ v ∧ v ≤ r.2

theorem pairwise_runs {vs : List Nat} (h : vs.Pairwise (· < ·)) :
    (runs vs).Pairwise fun q r => q.2 + 1 < r.1 := by
  induction vs with
  | nil => exact List.Pairwise.nil
  | cons v vs ih =>
    rw [List.pairwise_cons] at h
    obtain ⟨hfirst, hrest⟩ := h
    have hpairs := ih hrest
    rw [runs]
    split
    · exact List.pairwise_singleton _ _
    · rename_i a b more hruns
      rw [hruns, List.pairwise_cons] at hpairs
      obtain ⟨hfar, hmore⟩ := hpairs
      have hbounds : ∀ r ∈ (a, b) :: more, r.1 ∈ vs ∧ r.2 ∈ vs ∧ r.1 ≤ r.2 := by
        intro r hr
        exact bounds_of_mem_runs (hruns ▸ hr)
      split
      · -- The value is next to the run behind it, which ends where it ended.
        exact List.pairwise_cons.2 ⟨hfar, hmore⟩
      · rename_i hnext
        -- A gap is between the value and the first run, and all other runs are behind that one.
        refine List.pairwise_cons.2 ⟨fun r hr => ?_, List.pairwise_cons.2 ⟨hfar, hmore⟩⟩
        have hva : v < a := hfirst a (hbounds (a, b) List.mem_cons_self).1
        have hab : a ≤ b := (hbounds (a, b) List.mem_cons_self).2.2
        obtain rfl | hr := List.mem_cons.1 hr
        · simp only
          omega
        · have hbr := hfar r hr
          simp only at hbr ⊢
          omega

/-- Of two runs that stand in a row like this, one is the other or they are apart. -/
theorem eq_or_apart {rs : List (Nat × Nat)} (h : rs.Pairwise fun q r => q.2 + 1 < r.1)
    {q r : Nat × Nat} (hq : q ∈ rs) (hr : r ∈ rs) : q = r ∨ q.2 + 1 < r.1 ∨ r.2 + 1 < q.1 := by
  induction rs with
  | nil => exact absurd hq List.not_mem_nil
  | cons p rs ih =>
    rw [List.pairwise_cons] at h
    obtain hq | hq := List.mem_cons.1 hq
    · obtain hr | hr := List.mem_cons.1 hr
      · exact .inl (hq.trans hr.symm)
      · exact .inr (.inl (hq ▸ h.1 r hr))
    · obtain hr | hr := List.mem_cons.1 hr
      · exact .inr (.inr (hr ▸ h.1 q hq))
      · exact ih h.2 hq hr

theorem areRunsOf_runs {vs : List Nat} (h : vs.Pairwise (· < ·)) : AreRunsOf vs (runs vs) := by
  have hpairs := pairwise_runs h
  refine ⟨hpairs, fun r hr => ?_, fun v hv => (mem_runs_iff vs v).2 hv⟩
  obtain ⟨-, -, hle⟩ := bounds_of_mem_runs hr
  refine ⟨hle, fun v hlow hhigh => (mem_runs_iff vs v).1 ⟨r, hr, hlow, hhigh⟩, ?_, ?_⟩
  -- A value next to the run would be in a run that is neither this one nor apart from it.
  · intro v hv hmem
    obtain ⟨q, hq, hlow, hhigh⟩ := (mem_runs_iff vs v).2 hmem
    obtain rfl | hfar := eq_or_apart hpairs hq hr
    all_goals omega
  · intro hmem
    obtain ⟨q, hq, hlow, hhigh⟩ := (mem_runs_iff vs _).2 hmem
    obtain rfl | hfar := eq_or_apart hpairs hq hr
    all_goals omega

/-! ## 2. Fields -/

/-- How a field that admits some values is written: as a star, as a star with a step, or as a list
of the maximal runs of the values, with commas between them. -/
inductive IsForm (f : Field) (vs : List Nat) (s : List Char) : Prop where
  | star : (∀ v, v ∈ vs ↔ f.least ≤ v ∧ v ≤ f.greatest) → s = ['*'] → IsForm f vs s
  | every (n : Nat) : 1 < n → (∀ v, v ∈ vs ↔ ∃ k, v = f.least + k * n ∧ v ≤ f.greatest) →
      s = '*' :: '/' :: decimal n → IsForm f vs s
  | list (rs : List (Nat × Nat)) : AreRunsOf vs rs → s.splitOnP (· == ',') = rs.map writeRun →
      IsForm f vs s

theorem isForm_writeField {f : Field} (a : Admitted f) (hnil : a.values ≠ []) :
    IsForm f a.values (writeField f a.values) := by
  rw [writeField]
  split
  · rename_i hall
    refine .star (fun v => ?_) rfl
    rw [hall]
    exact Field.mem_range
  · split
    · rename_i n hfound
      have hvalues := List.find?_some hfound
      rw [beq_iff_eq] at hvalues
      obtain ⟨hstep, -⟩ := List.mem_range'_1.1 (List.mem_of_find?_eq_some hfound)
      refine .every n hstep (fun v => ?_) rfl
      rw [hvalues, everyNth, List.mem_filter, ← admits_iff_exists, Item.admits, Field.mem_range]
      simp
    · have hsome : (runs a.values).map writeRun ≠ [] := by
        rw [ne_eq, List.map_eq_nil_iff]
        exact runs_ne_nil hnil
      have hcomma : ∀ i ∈ (runs a.values).map writeRun, ',' ∉ i := by
        intro i hi
        obtain ⟨r, -, rfl⟩ := List.mem_map.1 hi
        exact comma_not_mem_writeRun r
      exact .list _ (areRunsOf_runs a.pairwise_lt) (splitOnP_intercalate hsome hcomma)

/-! ## 3. Crontabs -/

/-- What is written for a crontab that was read is read as that crontab, so it is the same for two
of them exactly if they admit the same values; and it has a word for each field, in which lists are
lists of maximal runs. -/
theorem written_form_is_canonical {s : List Char} {c : Crontab} (h : read s = .ok c) :
    read c.write = .ok c
      ∧ (∀ t d, read t = .ok d →
        (c.write = d.write ↔ ∀ f v, v ∈ c.values f ↔ v ∈ d.values f))
      ∧ ∃ texts : Field → List Char, words c.write = Field.all.map texts
        ∧ ∀ f, IsForm f (c.values f) (texts f) := by
  have hc := isRead_of_read h
  have hagain := read_write hc
  refine ⟨hagain, fun t d hd => ⟨fun hsame => ?_, fun hvalues => ?_⟩,
    fun f => writeField f (c.values f), words_write hc, fun f => ?_⟩
  · -- One text is read in one way, and either crontab is what is read from it.
    have hother := read_write (isRead_of_read hd)
    rw [← hsame, hagain] at hother
    obtain rfl : c = d := Except.ok.inj hother
    exact fun f v => Iff.rfl
  · have hfields : ∀ f, c.field f = d.field f := fun f => Admitted.ext_of_mem fun v => by
      rw [values_field, values_field]
      exact hvalues f v
    rw [eq_of_field hfields]
  · have hnil := hc f
    simp only [← values_field] at hnil ⊢
    exact isForm_writeField (c.field f) hnil

/-- Quarters of an hour become a step, and hours on either side of one another a run. -/
theorem lists_become_steps_and_runs :
    ∃ c, read "0 0,45,30,15 9-12,13-17 3,1,2,10 * *".toList = .ok c
      ∧ c.write = "0 */15 9-17 1-3,10 * *".toList ∧ read c.write = .ok c := by
  have hwritten : ∃ c, read "0 0,45,30,15 9-12,13-17 3,1,2,10 * *".toList = .ok c
      ∧ c.write = "0 */15 9-17 1-3,10 * *".toList := by decide
  obtain ⟨c, hc, hwrite⟩ := hwritten
  exact ⟨c, hc, hwrite, (written_form_is_canonical hc).1⟩

end Measurement.Crontab
