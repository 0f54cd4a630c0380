/-
Cutting a text at a separator.

A temporal scope or a range of values is written with words and signs between
its parts, and is read by cutting at them: at the first separator, or at the
last where the part after it is the one that cannot hold it. The lemmas say
that a cut loses nothing, so that what is read back is what was written.
-/

set_option autoImplicit false

namespace Measurement.Text

/-! ## 1. Cuts -/

/-- The text without `lead`, if it starts with it. -/
def dropLead? (lead s : List Char) : Option (List Char) :=
  if lead.isPrefixOf s then some (s.drop lead.length) else none

/-- The text without `tail`, if it ends with it. -/
def dropTail? (tail s : List Char) : Option (List Char) :=
  (dropLead? tail.reverse s.reverse).map List.reverse

/-- The parts before and after the first occurrence of `sep`. -/
def cut? (sep : List Char) : List Char → Option (List Char × List Char)
  | [] => (dropLead? sep []).map fun rest => ([], rest)
  | c :: r =>
    match dropLead? sep (c :: r) with
    | some rest => some ([], rest)
    | none => (cut? sep r).map fun p => (c :: p.1, p.2)

/-- The parts before and after the last occurrence of `sep`. -/
def cutLast? (sep : List Char) : List Char → Option (List Char × List Char)
  | [] => (dropLead? sep []).map fun rest => ([], rest)
  | c :: r =>
    match cutLast? sep r with
    | some p => some (c :: p.1, p.2)
    | none => (dropLead? sep (c :: r)).map fun rest => ([], rest)

/-! ## 2. A cut loses nothing -/

theorem eq_append_of_dropLead? {lead s r : List Char} (h : dropLead? lead s = some r) :
    s = lead ++ r := by
  unfold dropLead? at h
  split at h
  · rename_i hp
    obtain ⟨t, rfl⟩ := List.isPrefixOf_iff_prefix.1 hp
    simp only [List.drop_left, Option.some.injEq] at h
    rw [h]
  · exact absurd h (by simp)

@[simp] theorem dropLead?_append (lead r : List Char) : dropLead? lead (lead ++ r) = some r := by
  have hp : lead.isPrefixOf (lead ++ r) = true :=
    List.isPrefixOf_iff_prefix.2 (List.prefix_append lead r)
  simp [dropLead?, hp]

theorem eq_append_of_cut? {sep s a b : List Char} (h : cut? sep s = some (a, b)) :
    s = a ++ sep ++ b := by
  induction s generalizing a with
  | nil =>
    simp only [cut?, Option.map_eq_some_iff, Prod.mk.injEq] at h
    obtain ⟨r, hr, rfl, rfl⟩ := h
    simpa using eq_append_of_dropLead? hr
  | cons c r ih =>
    unfold cut? at h
    split at h
    · rename_i rest hr
      simp only [Option.some.injEq, Prod.mk.injEq] at h
      obtain ⟨rfl, rfl⟩ := h
      simpa using eq_append_of_dropLead? hr
    · simp only [Option.map_eq_some_iff, Prod.mk.injEq] at h
      obtain ⟨⟨a', b'⟩, hr, rfl, rfl⟩ := h
      simp [ih hr]

theorem eq_append_of_cutLast? {sep s a b : List Char} (h : cutLast? sep s = some (a, b)) :
    s = a ++ sep ++ b := by
  induction s generalizing a with
  | nil =>
    simp only [cutLast?, Option.map_eq_some_iff, Prod.mk.injEq] at h
    obtain ⟨r, hr, rfl, rfl⟩ := h
    simpa using eq_append_of_dropLead? hr
  | cons c r ih =>
    unfold cutLast? at h
    split at h
    · rename_i p hp
      simp only [Option.some.injEq, Prod.mk.injEq] at h
      obtain ⟨rfl, rfl⟩ := h
      have := ih (a := p.1) hp
      simp only [List.cons_append]
      rw [← this]
    · simp only [Option.map_eq_some_iff, Prod.mk.injEq] at h
      obtain ⟨r', hr, rfl, rfl⟩ := h
      simpa using eq_append_of_dropLead? hr

end Measurement.Text
