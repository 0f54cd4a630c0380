/-
Which constraints survive being written and read again.

Every constraint does whose values are no real numbers, down to the microsecond,
but for ranges of strings. Such a range is written with ` ... ` between bounds
that may hold ` ... ` themselves, and it is cut at the first one: it survives
exactly if that is the one which was put there (`CutsOnce`). Otherwise the part
that is cut off is shorter than the lower bound, so it is not the lower bound;
nor is it the upper one, since a part that the lower bound begins with is below
it. What is read is then a range of other strings, and other strings meet it.
-/
import Measurement.Proofs.Address
import Measurement.Proofs.Constraint.Choice

set_option autoImplicit false

namespace Measurement

open Measurement.Text

/-! ## 1. The part before the first separator -/

namespace Text

/-- The first separator is not behind one that is known to be there. -/
theorem prefix_of_cut? {sep a b x y : List Char} (hsep : sep ≠ [])
    (h : cut? sep (a ++ sep ++ b) = some (x, y)) : x <+: a := by
  induction a generalizing x with
  | nil =>
    rw [List.nil_append, cut?_self sep b hsep] at h
    cases h
    exact List.prefix_rfl
  | cons c a ih =>
    rw [List.cons_append, List.cons_append, cut?] at h
    split at h
    · cases h
      exact List.nil_prefix
    · obtain ⟨⟨x', y'⟩, hrest, hparts⟩ := Option.map_eq_some_iff.1 h
      cases hparts
      exact List.cons_prefix_cons.2 ⟨rfl, ih hrest⟩

/-- And it does not begin before the part that it is cut off from ends. -/
theorem not_infix_of_cut? {sep s x y : List Char} (hsep : sep ≠ [])
    (h : cut? sep s = some (x, y)) : ¬ sep <:+: x ++ sep.dropLast := by
  induction s generalizing x with
  | nil =>
    obtain ⟨r, hr, -⟩ := Option.map_eq_some_iff.1 h
    have hnil := eq_append_of_dropLead? hr
    exact absurd (List.append_eq_nil_iff.1 hnil.symm).1 hsep
  | cons c s ih =>
    have hwhole := eq_append_of_cut? h
    rw [cut?] at h
    split at h
    · cases h
      intro hwithin
      have hle := hwithin.length_le
      have hpos := List.length_pos_iff.2 hsep
      rw [List.nil_append, List.length_dropLast] at hle
      omega
    · rename_i hnone
      obtain ⟨⟨x', y'⟩, hrest, hparts⟩ := Option.map_eq_some_iff.1 h
      cases hparts
      rw [List.cons_append, List.infix_cons_iff, not_or]
      refine ⟨fun hhere => ?_, ih hrest⟩
      -- One that begins at the front would have been found there.
      have hbegin : c :: (x' ++ sep.dropLast) <+: c :: s := by
        rw [hwhole, List.append_assoc, List.cons_append]
        exact List.cons_prefix_cons.2 ⟨rfl, (List.prefix_append_right_inj x').2
          ((List.dropLast_prefix sep).trans (List.prefix_append sep y'))⟩
      obtain ⟨r, hr⟩ := hhere.trans hbegin
      rw [← hr, dropLead?_append] at hnone
      cases hnone

/-- A text that stands behind no blank begins with what is left when it is trimmed. -/
theorem trim_prefix {s : List Char} (h : ∀ c ∈ s.head?, isBlank c = false) : trim s <+: s := by
  rw [trim, trimStart_of_head h, trimEnd, ← List.reverse_suffix, List.reverse_reverse]
  exact List.dropWhile_suffix isBlank

end Text

/-- Of two strings in order the second does not begin the first, unless they are equal. -/
theorem Value.eq_of_prefix {a b : String} (horder : (string a).order? (string b) ≠ some .gt)
    (h : b.toList <+: a.toList) : a = b := by
  have hab : a ≤ b := by
    rw [order?, ne_eq, Option.some.injEq, compare_gt_iff_gt] at horder
    exact not_lt.1 horder
  have hba : b ≤ a := String.le_iff_toList_le.2 (not_lt.1 fun hlt => h.le hlt)
  exact le_antisymm hab hba

namespace Constraint

variable {p : Primitive}

/-! ## 2. Ranges of strings -/

/-- The text of a range of strings is read as the range between the parts around its first
separator. -/
theorem read_stringRange {low high : String}
    (h : AreBounds .string (.string low) (.string high)) :
    ∃ x y, cut? rangeSeparator.toList (low.toList ++ rangeSeparator.toList ++ high.toList)
        = some (x, y)
      ∧ read .string (range (.string low) (.string high)).text
        = .ok (between (.string (String.ofList (trim x))) (.string (String.ofList (trim y)))) := by
  have htrim : trim (low.toList ++ rangeSeparator.toList ++ high.toList)
      = low.toList ++ rangeSeparator.toList ++ high.toList :=
    trim_of_snug (snug_append h.lowRead h.highRead (h.lowText rfl) (h.highText rfl) _)
  have htext := toList_rangeText (.string low) (.string high)
  cases hcut : cut? rangeSeparator.toList (low.toList ++ rangeSeparator.toList ++ high.toList) with
  | none => exact absurd ⟨_, _, rfl⟩ (not_infix_of_cut?_eq_none (by decide) hcut)
  | some parts =>
    obtain ⟨x, y⟩ := parts
    refine ⟨x, y, rfl, ?_⟩
    have hvalue : ∀ s : List Char, Value.read .string (String.ofList s)
        = .ok (.string (String.ofList (trim s))) := by
      intro s
      rw [Value.read_eq_ok_iff, String.toList_ofList]
      rfl
    rw [read, htext, Value.text, Value.text, htrim, if_neg (separated_ne_absent _ _), hcut]
    simp only [hvalue, bind, Except.bind]
    rfl

theorem between_eq (a b : Value) : between a b = range a b ∨ between a b = range b a := by
  rw [between]
  split
  · exact .inr rfl
  · exact .inl rfl

/-- A range of strings that is cut elsewhere than it was put together is read as another range. -/
theorem read_of_not_cutsOnce {low high : String}
    (h : AreBounds .string (.string low) (.string high))
    (honce : ¬ (range (.string low) (.string high)).CutsOnce) :
    ∃ x y, read .string (range (.string low) (.string high)).text = .ok (range x y)
      ∧ range x y ≠ range (.string low) (.string high) := by
  obtain ⟨a, b, hcut, hread⟩ := read_stringRange h
  have hbegins : a <+: low.toList := prefix_of_cut? (by decide) hcut
  have hother : a ≠ low.toList := by
    rintro rfl
    exact honce (not_infix_of_cut? (by decide) hcut)
  have htrim : trim a <+: a := trim_prefix fun c hc => h.lowRead.1 c (head?_of_begins hbegins hc)
  have hlow : String.ofList (trim a) ≠ low := by
    rintro rfl
    rw [String.toList_ofList] at hbegins hother
    exact hother (hbegins.eq_of_length_le htrim.length_le)
  obtain hbetween | hbetween := between_eq (.string (String.ofList (trim a)))
    (.string (String.ofList (trim b)))
  · refine ⟨_, _, hbetween ▸ hread, fun he => ?_⟩
    exact hlow (Value.string.inj (range.inj he).1)
  · refine ⟨_, _, hbetween ▸ hread, fun he => ?_⟩
    -- The part that was cut off would be the upper bound, and the lower one begins with it.
    have hhigh : String.ofList (trim a) = high := Value.string.inj (range.inj he).2
    have hprefix : high.toList <+: low.toList := by
      rw [← hhigh, String.toList_ofList]
      exact htrim.trans hbegins
    exact hlow (hhigh.trans (Value.eq_of_prefix h.ordered hprefix).symm)

/-! ## 3. Ranges that admit the same values -/

/-- A range that was read is known by the values that it admits. -/
theorem range_eq_of_metBy {a b x y : Value} (hp : p ≠ .real) (h : AreBounds p a b)
    (h' : AreBounds p x y) (hmet : ∀ v, (range x y).metBy v = (range a b).metBy v) :
    range x y = range a b := by
  -- Each range admits the bounds of the other, so neither bound is beyond the other one's.
  obtain ⟨ha, hb⟩ := metBy_bounds hp h
  obtain ⟨hx, hy⟩ := metBy_bounds hp h'
  rw [← hmet, metBy, Bool.and_eq_true] at ha hb
  rw [hmet, metBy, Bool.and_eq_true] at hx hy
  have hlow : x = a := Value.eq_of_atMost (h'.lowPrimitive ▸ hp) ha.1 hx.1
  have hhigh : y = b := Value.eq_of_atMost (h'.highPrimitive ▸ hp) hy.2 hb.2
  rw [hlow, hhigh]

/-! ## 4. Constraints -/

/-- What is written for a constraint that was read is read as a constraint again: as that one unless
it is a range of strings which is cut elsewhere than it was put together, and then as one that does
not admit the same values. The bounds of a range that was read are in order, and it admits both. -/
theorem read_text_eq_self_iff {s : String} {c : Constraint} (hp : p ≠ .real)
    (h : read p s = .ok c) :
    ((∀ v ∈ c.values, ∀ t ∈ v.times, t.nano % 1000 = 0) →
      ∃ c', read p c.text = .ok c'
        ∧ (c' = c ↔ (p = .string → c.CutsOnce))
        ∧ ((∀ v, c'.metBy v = c.metBy v) ↔ c' = c))
    ∧ ∀ a b, c = range a b → a.atMost b = true ∧ c.metBy a = true ∧ c.metBy b = true := by
  have hread := isRead_of_read h
  constructor
  · intro hwhole
    by_cases honce : p = .string → c.CutsOnce
    · have hback : ∀ v ∈ c.values, v.ReadsBack := by
        intro v hv
        obtain ⟨t, ht⟩ := read_of_mem_values h v hv
        exact Value.readsBack_of_ne_real (Value.primitive_of_read ht ▸ hp)
      have hself := read_text hread hback honce
      rw [toMicros_of_whole hwhole] at hself
      exact ⟨c, hself, iff_of_true rfl honce, iff_of_true (fun _ => rfl) rfl⟩
    · rw [Classical.not_imp] at honce
      obtain ⟨rfl, honce⟩ := honce
      cases c with
      | unconstrained => exact absurd trivial honce
      | set vs => exact absurd trivial honce
      | range a b =>
        obtain ⟨low, rfl⟩ : ∃ low, a = .string low := by
          cases a with
          | string low => exact ⟨low, rfl⟩
          | _ => cases hread.lowPrimitive
        obtain ⟨high, rfl⟩ : ∃ high, b = .string high := by
          cases b with
          | string high => exact ⟨high, rfl⟩
          | _ => cases hread.highPrimitive
        obtain ⟨x, y, hagain, hne⟩ := read_of_not_cutsOnce hread honce
        have hbounds : AreBounds .string x y := isRead_of_read hagain
        refine ⟨range x y, hagain, iff_of_false hne fun hall => honce (hall rfl), ?_⟩
        exact ⟨fun hmet => range_eq_of_metBy hp hread hbounds hmet, fun he _ => by rw [he]⟩
  · rintro a b rfl
    exact ⟨Value.atMost_of_order? hread.comparable hread.ordered, metBy_bounds hp hread⟩

/-- A range of addresses is read again, whichever bound it was written with first. -/
theorem range_of_addresses_is_read_again :
    ∃ c, read .address "2001:DB8:0:0::1 ... 10.0.0.1" = .ok c
      ∧ (∀ v ∈ c.values, ∀ t ∈ v.times, t.nano % 1000 = 0)
      ∧ c.text = "10.0.0.1 ... 2001:db8::1" ∧ read .address c.text = .ok c
      ∧ ∀ v ∈ c.values, c.metBy v = true := by
  let low : Value := .address (.v4 #v[10, 0, 0, 1])
  let high : Value := .address (.v6 #v[0x2001, 0xdb8, 0, 0, 0, 0, 0, 1])
  have hread : read .address "2001:DB8:0:0::1 ... 10.0.0.1" = .ok (range low high) := by
    decide +kernel
  have hwhole : ∀ v ∈ (range low high).values, ∀ t ∈ v.times, t.nano % 1000 = 0 := by decide
  have htext : (range low high).text = "10.0.0.1 ... 2001:db8::1" := by decide +kernel
  obtain ⟨hagain, hbounds⟩ := read_text_eq_self_iff (by decide) hread
  obtain ⟨c', hc', hself, -⟩ := hagain hwhole
  rw [hself.2 fun hp => (by cases hp)] at hc'
  obtain ⟨-, hlow, hhigh⟩ := hbounds low high rfl
  refine ⟨range low high, hread, hwhole, htext, hc', ?_⟩
  simp [values, hlow, hhigh]

/-- A range of strings whose lower bound holds the separator is read as another one. -/
theorem separator_in_lower_bound_is_cut_at :
    ∃ c c', read .string "b ... a ... c" = .ok c ∧ read .string c.text = .ok c'
      ∧ c.metBy (.string "a") = false ∧ c'.metBy (.string "a") = true := by
  refine ⟨range (.string "a ... c") (.string "b"), range (.string "a") (.string "c ... b"), ?_⟩
  decide +kernel

end Constraint

end Measurement
