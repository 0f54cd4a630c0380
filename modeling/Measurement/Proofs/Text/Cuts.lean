/-
Written texts are taken apart where they were put together.

What is written with a separator between two parts is read by a cut, and the cut
is made in the right place if the part in front does not hold the separator and
does not run into it. The separators of this library are two or more characters
that differ, so it is enough that nowhere in that part the first of them stands
before the second (`Apart`). A cut at the last separator asks the same of the
part behind it, and there one character that is not to be found is enough.

Around all of this stand blanks that do not count, and what has been trimmed has
none (`snug_trim`).
-/
import Measurement.Text.Blank
import Measurement.Text.Numeral
import Measurement.Text.Split
import Measurement.Proofs.Text.Rows
import Mathlib.Data.List.Chain
import Mathlib.Data.List.TakeWhile

set_option autoImplicit false

namespace Measurement.Text

/-! ## 1. Snug texts -/

theorem isBlank_head?_trimStart {s : List Char} {c : Char} (h : c ∈ (trimStart s).head?) :
    isBlank c = false := by
  have hnot := List.head?_dropWhile_not isBlank s
  rw [trimStart, Option.mem_def] at h
  rw [h] at hnot
  exact hnot

theorem head?_of_begins {s t : List Char} {c : Char} (h : s <+: t) (hc : c ∈ s.head?) :
    c ∈ t.head? := by
  obtain ⟨r, rfl⟩ := h
  rw [List.head?_append]
  rw [Option.mem_def] at hc ⊢
  rw [hc]
  rfl

/-- Trimming leaves a text that neither starts nor ends with a blank. -/
theorem snug_trim (s : List Char) : Snug (trim s) := by
  have hbegins : trim s <+: trimStart s := by
    rw [trim, trimEnd]
    have hsuffix : (trimStart s).reverse.dropWhile isBlank <:+ (trimStart s).reverse :=
      List.dropWhile_suffix isBlank
    have hreverse := List.reverse_prefix.2 hsuffix
    rwa [List.reverse_reverse] at hreverse
  refine ⟨fun c hc => isBlank_head?_trimStart (head?_of_begins hbegins hc), fun c hc => ?_⟩
  rw [trim, trimEnd, List.getLast?_reverse] at hc
  exact isBlank_head?_trimStart hc

theorem trim_trim (s : List Char) : trim (trim s) = trim s := trim_of_snug (snug_trim s)

/-- Only blanks are trimmed away altogether. -/
theorem isBlank_of_trim_eq_nil {s : List Char} (h : trim s = []) : ∀ c ∈ s, isBlank c = true := by
  rw [trim, trimEnd, List.reverse_eq_nil_iff, List.dropWhile_eq_nil_iff] at h
  have hstart : trimStart s = [] := by
    cases hs : trimStart s with
    | nil => rfl
    | cons c r =>
      have hblank := h c (by rw [hs, List.mem_reverse]; exact List.mem_cons_self)
      rw [isBlank_head?_trimStart (s := s) (by rw [hs]; rfl)] at hblank
      cases hblank
  exact List.dropWhile_eq_nil_iff.1 hstart

/-- A blank behind a text that is snug and not empty is trimmed away. -/
theorem trim_append_blank {s : List Char} (h : Snug s) (hnil : s ≠ []) : trim (s ++ [' ']) = s := by
  have hstart : trimStart (s ++ [' ']) = s ++ [' '] := trimStart_of_head fun c hc => by
    rw [List.head?_append_of_ne_nil _ hnil] at hc
    exact h.1 c hc
  have hback : (' ' :: s.reverse).dropWhile isBlank = s.reverse.dropWhile isBlank :=
    List.dropWhile_cons_of_pos (by decide)
  rw [trim, hstart, trimEnd, List.reverse_append, List.reverse_singleton, List.singleton_append,
    hback]
  exact trimEnd_of_getLast h.2

theorem snug_nil : Snug [] := ⟨fun c hc => (by cases hc), fun c hc => (by cases hc)⟩

/-- Only the two ends of a text decide whether it is snug. -/
theorem snug_append {a b : List Char} (ha : Snug a) (hb : Snug b) (hanil : a ≠ []) (hbnil : b ≠ [])
    (middle : List Char) : Snug (a ++ middle ++ b) := by
  refine ⟨fun c hc => ha.1 c ?_, fun c hc => hb.2 c ?_⟩
  · rw [List.append_assoc, List.head?_append_of_ne_nil _ hanil] at hc
    exact hc
  · rw [List.getLast?_append_of_ne_nil _ hbnil] at hc
    exact hc

theorem snug_of_forall {s : List Char} (h : ∀ c ∈ s, isBlank c = false) : Snug s :=
  ⟨fun c hc => h c (List.mem_of_mem_head? hc), fun c hc => h c (List.mem_of_mem_getLast? hc)⟩

/-- A test of a whole row tells of each of its characters. -/
theorem eq_false_of_all {p : Char → Bool} {s : List Char} (h : s.all (fun c => !p c) = true) :
    ∀ c ∈ s, p c = false := by
  intro c hc
  have hnot := List.all_eq_true.1 h c hc
  rwa [Bool.not_eq_true'] at hnot

/-- A row of snug items with commas between them is snug, as a comma is no blank. -/
theorem snug_intercalate {items : List (List Char)} (h : ∀ i ∈ items, Snug i) :
    Snug ([','].intercalate items) := by
  have hcomma : ∀ s, ∀ c ∈ (',' :: s).head?, isBlank c = false := by
    intro s c hc
    cases hc
    decide
  induction items with
  | nil => exact snug_nil
  | cons i items ih =>
    rw [List.forall_mem_cons] at h
    have hrest := ih h.2
    rw [intercalate_cons]
    by_cases hitems : items = []
    · rw [behind, if_pos hitems, List.append_nil]
      exact h.1
    · rw [behind, if_neg hitems]
      refine ⟨fun c hc => ?_, fun c hc => ?_⟩
      · cases i with
        | nil => exact hcomma _ c hc
        | cons x i => exact h.1.1 c hc
      · rw [List.getLast?_append_of_ne_nil _ (List.cons_ne_nil _ _)] at hc
        cases hrow : [','].intercalate items with
        | nil =>
          rw [hrow] at hc
          exact hcomma [] c hc
        | cons x row =>
          rw [hrow, List.getLast?_cons_cons, ← hrow] at hc
          exact hrest.2 c hc

/-! ## 2. Characters apart -/

/-- Whether nowhere in a text `c` stands right before `d`. -/
def Apart (c d : Char) (s : List Char) : Prop := s.IsChain fun x y => ¬ (x = c ∧ y = d)

section

variable {c d : Char} {a b s : List Char}

theorem apart_of_not_mem_left (h : c ∉ s) : Apart c d s := by
  rw [Apart, List.isChain_iff_forall_rel_of_append_cons_cons]
  rintro x y l₁ l₂ rfl ⟨rfl, -⟩
  exact h (List.mem_append_right l₁ List.mem_cons_self)

theorem apart_of_not_mem_right (h : d ∉ s) : Apart c d s := by
  rw [Apart, List.isChain_iff_forall_rel_of_append_cons_cons]
  rintro x y l₁ l₂ rfl ⟨-, rfl⟩
  exact h (List.mem_append_right l₁ (List.mem_cons_of_mem x List.mem_cons_self))

theorem apart_append (ha : Apart c d a) (hb : Apart c d b)
    (h : c ∈ a.getLast? → d ∉ b.head?) : Apart c d (a ++ b) :=
  List.isChain_append.2 ⟨ha, hb, fun _ hx _ hy he => h (he.1 ▸ hx) (he.2 ▸ hy)⟩

theorem Apart.of_append (h : Apart c d (a ++ b)) : Apart c d a ∧ Apart c d b :=
  ⟨(List.isChain_append.1 h).1, (List.isChain_append.1 h).2.1⟩

theorem not_apart_pair {p r : List Char} : ¬ Apart c d (p ++ c :: d :: r) := by
  intro h
  have hpair := h.of_append.2
  exact (List.isChain_cons_cons.1 hpair).1 ⟨rfl, rfl⟩

end

/-! ## 3. Cuts -/

theorem dropLead?_eq_none {lead s : List Char} (h : ∀ r, s ≠ lead ++ r) :
    dropLead? lead s = none := by
  cases hs : dropLead? lead s with
  | none => rfl
  | some r => exact absurd (eq_append_of_dropLead? hs) (h r)

@[simp] theorem dropTail?_append (s tail : List Char) : dropTail? tail (s ++ tail) = some s := by
  rw [dropTail?, List.reverse_append, dropLead?_append, Option.map_some, List.reverse_reverse]

/-- A cut passes over what does not begin with the separator anywhere. -/
theorem cut?_append {sep a r : List Char}
    (h : ∀ x y, a = x ++ y → y ≠ [] → dropLead? sep (y ++ r) = none) :
    cut? sep (a ++ r) = (cut? sep r).map fun p => (a ++ p.1, p.2) := by
  induction a with
  | nil =>
    rw [List.nil_append]
    cases cut? sep r with
    | none => rfl
    | some p => rfl
  | cons c a ih =>
    have hhere := h [] (c :: a) rfl (List.cons_ne_nil c a)
    have hrest := ih fun x y he hy => h (c :: x) y (by rw [he, List.cons_append]) hy
    rw [List.cons_append] at hhere ⊢
    rw [cut?, hhere]
    simp only [hrest, Option.map_map]
    rfl

theorem cut?_self (sep b : List Char) (hsep : sep ≠ []) : cut? sep (sep ++ b) = some ([], b) := by
  cases sep with
  | nil => exact absurd rfl hsep
  | cons c rest =>
    have hlead := dropLead?_append (c :: rest) b
    rw [List.cons_append] at hlead ⊢
    rw [cut?, hlead]

/-- The first separator is behind a part if none begins in it. -/
theorem cut?_of_not_infix {sep a b : List Char} (hsep : sep ≠ [])
    (h : ¬ sep <:+: a ++ sep.dropLast) : cut? sep (a ++ sep ++ b) = some (a, b) := by
  rw [List.append_assoc, cut?_append, cut?_self _ _ hsep, Option.map_some, List.append_nil]
  intro x y he hy
  refine dropLead?_eq_none fun r hr => h ?_
  -- One that begins in `y` ends before the last character of the separator behind it.
  have hlong : sep.length ≤ (y ++ sep.dropLast).length := by
    have hpos := List.length_pos_iff.2 hy
    rw [List.length_append, List.length_dropLast]
    omega
  have hwhole : y ++ sep.dropLast <+: y ++ (sep ++ b) :=
    (List.prefix_append_right_inj y).2 ((List.dropLast_prefix sep).trans (List.prefix_append sep b))
  have hlead : sep <+: y ++ sep.dropLast :=
    List.prefix_of_prefix_length_le (hr ▸ List.prefix_append sep r) hwhole hlong
  rw [he, List.append_assoc]
  exact hlead.isInfix.trans (List.suffix_append x _).isInfix

section

variable {c d : Char} {rest a b s : List Char}

/-- The first separator is behind a part in which its first two characters stand apart. -/
theorem cut?_of_apart (hcd : c ≠ d) (h : Apart c d a) :
    cut? (c :: d :: rest) (a ++ (c :: d :: rest) ++ b) = some (a, b) := by
  rw [List.append_assoc, cut?_append, cut?_self _ _ (List.cons_ne_nil _ _), Option.map_some,
    List.append_nil]
  intro x y he hy
  refine dropLead?_eq_none fun r hr => ?_
  cases y with
  | nil => exact hy rfl
  | cons u y =>
    obtain ⟨rfl, hr⟩ := List.cons.inj hr
    cases y with
    | nil => exact hcd (List.cons.inj hr).1
    | cons v y =>
      obtain ⟨rfl, -⟩ := List.cons.inj hr
      rw [he] at h
      exact not_apart_pair h

/-- There is no separator where two of its characters stand apart. -/
theorem cut?_eq_none (front : List Char) (h : Apart c d s) :
    cut? (front ++ c :: d :: rest) s = none := by
  cases hs : cut? (front ++ c :: d :: rest) s with
  | none => rfl
  | some p =>
    obtain ⟨x, y⟩ := p
    rw [eq_append_of_cut? hs] at h
    have heq : x ++ (front ++ c :: d :: rest) ++ y = (x ++ front) ++ c :: d :: (rest ++ y) := by
      simp
    rw [heq] at h
    exact absurd h not_apart_pair

/-- A mark is found behind a part that does not hold it. -/
theorem cut?_mark (h : c ∉ a) : cut? [c] (a ++ c :: b) = some (a, b) := by
  rw [cut?_append, show c :: b = [c] ++ b from rfl, cut?_self _ _ (List.cons_ne_nil _ _),
    Option.map_some, List.append_nil]
  intro x y he hy
  refine dropLead?_eq_none fun r hr => ?_
  cases y with
  | nil => exact hy rfl
  | cons u y =>
    obtain ⟨rfl, -⟩ := List.cons.inj hr
    exact h (he ▸ List.mem_append_right x List.mem_cons_self)

theorem cut?_eq_none_of_not_mem {sep : List Char} (hc : c ∈ sep) (h : c ∉ s) :
    cut? sep s = none := by
  cases hs : cut? sep s with
  | none => rfl
  | some p =>
    obtain ⟨x, y⟩ := p
    rw [eq_append_of_cut? hs] at h
    exact absurd (List.mem_append_left y (List.mem_append_right x hc)) h

theorem cutLast?_eq_none {sep : List Char} (hm : d ∈ sep) (h : d ∉ s) : cutLast? sep s = none := by
  cases hs : cutLast? sep s with
  | none => rfl
  | some p =>
    obtain ⟨x, y⟩ := p
    rw [eq_append_of_cutLast? hs] at h
    exact absurd (List.mem_append_left y (List.mem_append_right x hm)) h

/-- The last separator is before a part that does not hold its second character. -/
theorem cutLast?_of_not_mem (hrest : d ∉ rest) (hb : d ∉ b) :
    cutLast? (c :: d :: rest) (a ++ (c :: d :: rest) ++ b) = some (a, b) := by
  have hbehind : cutLast? (c :: d :: rest) (d :: (rest ++ b)) = none := by
    cases hs : cutLast? (c :: d :: rest) (d :: (rest ++ b)) with
    | none => rfl
    | some p =>
      obtain ⟨x, y⟩ := p
      have he := eq_append_of_cutLast? hs
      have hin : d ∈ rest ++ b := by
        cases x with
        | nil =>
          rw [(List.cons.inj he).2]
          exact List.mem_cons_self
        | cons u x =>
          rw [(List.cons.inj he).2]
          simp
      rw [List.mem_append] at hin
      exact absurd hin (not_or.2 ⟨hrest, hb⟩)
  have hself : cutLast? (c :: d :: rest) (c :: d :: rest ++ b) = some ([], b) := by
    have hlead := dropLead?_append (c :: d :: rest) b
    simp only [List.cons_append] at hlead ⊢
    rw [cutLast?, hbehind]
    simp only [hlead, Option.map_some]
  rw [List.append_assoc]
  induction a with
  | nil => exact hself
  | cons u a ih => rw [List.cons_append, cutLast?, ih]

end

/-! ## 4. Rows of words -/

theorem words_nil : words [] = [] := by
  rw [words, List.splitOnP_nil]
  rfl

theorem words_cons {w r : List Char} (hw : w ≠ []) (hblank : ∀ c ∈ w, isBlank c = false) :
    words (w ++ ' ' :: r) = w :: words r := by
  rw [words, List.splitOnP_append_cons_of_forall_mem hblank ' ' (by decide),
    List.filter_cons_of_pos (by simpa using hw), words]

theorem words_singleton {w : List Char} (hw : w ≠ []) (hblank : ∀ c ∈ w, isBlank c = false) :
    words w = [w] := by
  rw [words, List.splitOnP_eq_singleton hblank, List.filter_cons_of_pos (by simpa using hw)]
  rfl

/-- Words with a blank between any two of them are the words of the row. -/
theorem words_intercalate {ws : List (List Char)}
    (h : ∀ w ∈ ws, w ≠ [] ∧ ∀ c ∈ w, isBlank c = false) : words ([' '].intercalate ws) = ws := by
  induction ws with
  | nil => exact words_nil
  | cons w ws ih =>
    rw [List.forall_mem_cons] at h
    by_cases hws : ws = []
    · rw [hws, List.intercalate_singleton]
      exact words_singleton h.1.1 h.1.2
    · rw [List.intercalate_cons_of_ne_nil hws, List.append_assoc, List.singleton_append,
        words_cons h.1.1 h.1.2, ih h.2]

/-- Items without commas are what a row of them is split into. -/
theorem splitOnP_intercalate {items : List (List Char)} (hnil : items ≠ [])
    (h : ∀ i ∈ items, ',' ∉ i) : ([','].intercalate items).splitOnP (· == ',') = items := by
  rw [← List.splitOn_eq_splitOnP]
  exact List.splitOn_intercalate ',' h hnil

/-- No item of a split holds a comma. -/
theorem comma_not_mem_of_mem_splitOnP {s w : List Char} (h : w ∈ s.splitOnP (· == ',')) :
    ',' ∉ w := by
  induction s generalizing w with
  | nil =>
    rw [List.splitOnP_nil, List.mem_singleton] at h
    subst h
    exact List.not_mem_nil
  | cons c s ih =>
    rw [List.splitOnP_cons_eq_if_modifyHead] at h
    split at h
    · obtain rfl | h := List.mem_cons.1 h
      · exact List.not_mem_nil
      · exact ih h
    · rename_i hc
      cases hs : s.splitOnP (· == ',') with
      | nil => exact absurd hs (List.splitOnP_ne_nil _ _)
      | cons v vs =>
        rw [hs, List.modifyHead_cons] at h
        rw [hs] at ih
        obtain rfl | h := List.mem_cons.1 h
        · rw [List.mem_cons, not_or]
          exact ⟨fun he => hc (beq_iff_eq.2 he.symm), ih List.mem_cons_self⟩
        · exact ih (List.mem_cons_of_mem v h)

/-! ## 5. What stands within a text -/

theorem trim_within (s : List Char) : trim s <:+: s := by
  have hend : trim s <+: trimStart s := by
    rw [trim, trimEnd, ← List.reverse_suffix, List.reverse_reverse]
    exact List.dropWhile_suffix isBlank
  exact hend.isInfix.trans (List.dropWhile_suffix isBlank).isInfix

/-- A separator that stands somewhere is found. -/
theorem not_infix_of_cut?_eq_none {sep s : List Char} (hsep : sep ≠ []) (h : cut? sep s = none) :
    ¬ sep <:+: s := by
  rintro ⟨x, y, rfl⟩
  rw [List.append_assoc] at h
  induction x with
  | nil =>
    rw [List.nil_append, cut?_self _ _ hsep] at h
    cases h
  | cons c x ih =>
    rw [List.cons_append, cut?] at h
    split at h
    · cases h
    · exact ih (Option.map_eq_none_iff.1 h)

theorem cut?_eq_none_of_not_within {sep s : List Char} (h : ¬ sep <:+: s) : cut? sep s = none := by
  cases hs : cut? sep s with
  | none => rfl
  | some p => exact absurd ⟨p.1, p.2, (eq_append_of_cut? hs).symm⟩ h

/-- What stands within a row and holds no comma stands within an item. -/
theorem infix_intercalate {sep : List Char} (hcomma : ',' ∉ sep) (hsep : sep ≠ [])
    {items : List (List Char)} (h : sep <:+: [','].intercalate items) :
    ∃ i ∈ items, sep <:+: i := by
  induction items with
  | nil => exact absurd (List.infix_nil.1 h) hsep
  | cons i items ih =>
    by_cases hitems : items = []
    · rw [hitems, List.intercalate_singleton] at h
      exact ⟨i, List.mem_cons_self, h⟩
    · rw [List.intercalate_cons_of_ne_nil hitems, List.append_assoc, List.singleton_append,
        List.infix_append_iff, List.infix_cons_iff] at h
      obtain h | (h | h) | ⟨a, b, rfl, ha, hb⟩ := h
      · exact ⟨i, List.mem_cons_self, h⟩
      · cases sep with
        | nil => exact absurd rfl hsep
        | cons c sep =>
          obtain ⟨rfl, -⟩ := List.cons_prefix_cons.1 h
          exact absurd List.mem_cons_self hcomma
      · obtain ⟨j, hj, hwithin⟩ := ih h
        exact ⟨j, List.mem_cons_of_mem i hj, hwithin⟩
      · cases b with
        | nil =>
          rw [List.append_nil]
          exact ⟨i, List.mem_cons_self, ha.isInfix⟩
        | cons c b =>
          obtain ⟨rfl, -⟩ := List.cons_prefix_cons.1 hb
          exact absurd (List.mem_append_right a List.mem_cons_self) hcomma

/-- The items of a row stand within it. -/
theorem infix_of_mem_intercalate {items : List (List Char)} {i : List Char} (h : i ∈ items) :
    i <:+: [','].intercalate items := by
  induction items with
  | nil => exact absurd h List.not_mem_nil
  | cons j items ih =>
    rw [intercalate_cons]
    obtain rfl | h := List.mem_cons.1 h
    · exact (List.prefix_append i _).isInfix
    · have hitems : items ≠ [] := List.ne_nil_of_mem h
      rw [behind, if_neg hitems]
      exact (ih h).trans ((List.suffix_cons ',' _).trans (List.suffix_append j _)).isInfix

theorem intercalate_splitOnP (s : List Char) : [','].intercalate (s.splitOnP (· == ',')) = s := by
  rw [← List.splitOn_eq_splitOnP]
  exact List.intercalate_splitOn ','

end Measurement.Text
