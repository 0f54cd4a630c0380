/-
Rows of texts that can be taken apart again.

Items stand in a row with commas between them, and nothing is escaped. A row
has only one reading if its items hold no commas, up to an empty item that stands
alone. It also has only one reading if its items keep apart: none is empty, and
behind a comma inside an item nothing goes on as another item does. So it is with
bindings `name=text` whose text has no equals sign behind a comma.
-/
import Mathlib.Data.List.Basic

set_option autoImplicit false

namespace Measurement.Text

/-! ## 1. Rows -/

/-- A text is cut in only one way at a mark that the parts in front do not hold. -/
theorem append_mark_inj {c : Char} {a b r s : List Char} (ha : c ∉ a) (hb : c ∉ b)
    (h : a ++ c :: r = b ++ c :: s) : a = b ∧ r = s := by
  induction a generalizing b with
  | nil =>
    cases b with
    | nil => exact ⟨rfl, (List.cons.inj h).2⟩
    | cons y b =>
      obtain rfl : c = y := (List.cons.inj h).1
      exact absurd List.mem_cons_self hb
  | cons x a ih =>
    cases b with
    | nil =>
      obtain rfl : x = c := (List.cons.inj h).1
      exact absurd List.mem_cons_self ha
    | cons y b =>
      rw [List.mem_cons, not_or] at ha hb
      obtain ⟨rfl, hrest⟩ := List.cons.inj h
      obtain ⟨rfl, hr⟩ := ih ha.2 hb.2 hrest
      exact ⟨rfl, hr⟩

theorem not_mem_intercalate {c : Char} {mark : List Char} {items : List (List Char)}
    (hmark : c ∉ mark) (hitems : ∀ i ∈ items, c ∉ i) : c ∉ mark.intercalate items := by
  induction items with
  | nil => exact List.not_mem_nil
  | cons i items ih =>
    rw [List.forall_mem_cons] at hitems
    by_cases hnil : items = []
    · rw [hnil, List.intercalate_singleton]
      exact hitems.1
    · rw [List.intercalate_cons_of_ne_nil hnil, List.mem_append, List.mem_append, not_or, not_or]
      exact ⟨⟨hitems.1, hmark⟩, ih hitems.2⟩

theorem mem_of_mem_intercalate {c : Char} {mark : List Char} {items : List (List Char)}
    (h : c ∈ mark.intercalate items) : c ∈ mark ∨ ∃ i ∈ items, c ∈ i := by
  by_contra hnot
  rw [not_or] at hnot
  exact not_mem_intercalate hnot.1 (fun i hi hc => hnot.2 ⟨i, hi, hc⟩) h

/-- What stands behind an item of a row: nothing, or a comma and more. -/
def Follows (s : List Char) : Prop := s = [] ∨ ∃ r, s = ',' :: r

/-- Whether items of a form keep apart in a row. -/
structure KeepApart (form : List Char → Prop) : Prop where
  ne_nil : ∀ {i}, form i → i ≠ []
  /-- What is behind a comma in an item is not the beginning of another item. -/
  uncut : ∀ {a c i rest more}, form (a ++ ',' :: c) → form i → Follows rest → Follows more →
    c ++ rest ≠ i ++ more

/-- What stands behind the first item of a row. -/
def behind (items : List (List Char)) : List Char :=
  if items = [] then [] else ',' :: [','].intercalate items

theorem intercalate_cons (i : List Char) (items : List (List Char)) :
    [','].intercalate (i :: items) = i ++ behind items := by
  unfold behind
  split
  · rename_i h
    rw [h, List.intercalate_singleton, List.append_nil]
  · rename_i h
    rw [List.intercalate_cons_of_ne_nil h]
    simp

theorem follows_behind (items : List (List Char)) : Follows (behind items) := by
  unfold behind
  split
  · exact .inl rfl
  · exact .inr ⟨_, rfl⟩

section Rows

variable {form : List Char → Prop}

/-- An item of one row does not go on where the item of the other ends. -/
theorem eq_nil_of_behind (h : KeepApart form) {a c rest : List Char} {items : List (List Char)}
    (hac : form (a ++ c)) (hitems : ∀ i ∈ items, form i) (hrest : Follows rest)
    (he : behind items = c ++ rest) : c = [] := by
  cases c with
  | nil => rfl
  | cons x c =>
    exfalso
    cases items with
    | nil =>
      rw [behind, if_pos rfl, List.cons_append] at he
      exact List.cons_ne_nil _ _ he.symm
    | cons i items =>
      rw [behind, if_neg (List.cons_ne_nil _ _), intercalate_cons, List.cons_append,
        List.cons.injEq] at he
      obtain ⟨rfl, he⟩ := he
      exact h.uncut hac (hitems i List.mem_cons_self) hrest (follows_behind items) he.symm

theorem item_eq (h : KeepApart form) {a b : List Char} {items others : List (List Char)}
    (ha : form a) (hb : form b) (hitems : ∀ i ∈ items, form i) (hothers : ∀ i ∈ others, form i)
    (he : a ++ behind items = b ++ behind others) : a = b := by
  rcases List.append_eq_append_iff.1 he with ⟨c, rfl, hc⟩ | ⟨c, rfl, hc⟩
  · rw [eq_nil_of_behind h hb hitems (follows_behind others) hc, List.append_nil]
  · rw [eq_nil_of_behind h ha hothers (follows_behind items) hc, List.append_nil]

/-- Rows of items that keep apart are equal only if their items are. -/
theorem intercalate_injective (h : KeepApart form) {items others : List (List Char)}
    (hitems : ∀ i ∈ items, form i) (hothers : ∀ i ∈ others, form i)
    (he : [','].intercalate items = [','].intercalate others) : items = others := by
  induction items generalizing others with
  | nil =>
    cases others with
    | nil => rfl
    | cons b others =>
      rw [intercalate_cons, List.intercalate_nil] at he
      exact absurd (List.append_eq_nil_iff.1 he.symm).1 (h.ne_nil (hothers b List.mem_cons_self))
  | cons a items ih =>
    cases others with
    | nil =>
      rw [intercalate_cons, List.intercalate_nil] at he
      exact absurd (List.append_eq_nil_iff.1 he).1 (h.ne_nil (hitems a List.mem_cons_self))
    | cons b others =>
      rw [List.forall_mem_cons] at hitems hothers
      rw [intercalate_cons, intercalate_cons] at he
      obtain rfl : a = b := item_eq h hitems.1 hothers.1 hitems.2 hothers.2 he
      have hbehind : behind items = behind others := List.append_cancel_left he
      by_cases hi : items = []
      · by_cases ho : others = []
        · rw [hi, ho]
        · rw [behind, if_pos hi, behind, if_neg ho] at hbehind
          exact absurd hbehind.symm (List.cons_ne_nil _ _)
      · by_cases ho : others = []
        · rw [behind, if_neg hi, behind, if_pos ho] at hbehind
          exact absurd hbehind (List.cons_ne_nil _ _)
        · rw [behind, if_neg hi, behind, if_neg ho, List.cons.injEq] at hbehind
          rw [ih hitems.2 hothers.2 hbehind.2]

end Rows

/-! ## 2. Names -/

/-- Rows of names without commas are equal only if the names are. No name and one empty name make
the same row. -/
theorem intercalate_names_injective {names others : List (List Char)}
    (hn : ∀ n ∈ names, ',' ∉ n) (ho : ∀ n ∈ others, ',' ∉ n) (hne : names ≠ [[]])
    (hoe : others ≠ [[]]) (h : [','].intercalate names = [','].intercalate others) :
    names = others := by
  have hempty : ∀ {ns : List (List Char)}, (∀ n ∈ ns, ',' ∉ n) → ns ≠ [[]] →
      [','].intercalate ns = [] → ns = [] := by
    intro ns hns hne hnil
    by_contra hcons
    have hsplit := List.splitOn_intercalate ',' hns hcons
    rw [hnil, List.splitOn_nil] at hsplit
    exact hne hsplit.symm
  by_cases hnil : names = []
  · rw [hnil, List.intercalate_nil] at h
    rw [hnil, hempty ho hoe h.symm]
  · by_cases honil : others = []
    · rw [honil, List.intercalate_nil] at h
      exact absurd (hempty hn hne h) hnil
    · rw [← List.splitOn_intercalate ',' hn hnil, h, List.splitOn_intercalate ',' ho honil]

/-! ## 3. Bindings -/

/-- Whether a text is a name, an equals sign and more, and has no equals sign behind a comma. -/
def IsBinding (i : List Char) : Prop :=
  (∃ name text, i = name ++ '=' :: text ∧ ',' ∉ name ∧ '=' ∉ name)
    ∧ ∀ a c, i = a ++ ',' :: c → '=' ∉ c

theorem keepApart_bindings : KeepApart IsBinding := by
  constructor
  · rintro i ⟨⟨name, text, rfl, -⟩, -⟩ hnil
    exact absurd hnil (by simp)
  · rintro a c i rest more ⟨-, hcut⟩ ⟨⟨name, text, rfl, hcomma, -⟩, -⟩ hrest - he
    have hc : '=' ∉ c := hcut a c rfl
    rw [List.append_assoc] at he
    rcases List.append_eq_append_iff.1 he with ⟨d, rfl, hd⟩ | ⟨d, rfl, hd⟩
    · -- The piece ends within the name, where there is neither an end nor a comma.
      rcases hrest with rfl | ⟨r, rfl⟩
      · exact absurd hd (by simp)
      · cases d with
        | nil => exact absurd (List.cons.inj hd).1 (by decide)
        | cons x d =>
          obtain rfl : ',' = x := (List.cons.inj hd).1
          exact hcomma (List.mem_append_right c List.mem_cons_self)
    · cases d with
      | nil =>
        -- The piece is the name itself, and an equals sign follows.
        rcases hrest with rfl | ⟨r, rfl⟩
        · exact absurd hd (by simp)
        · exact absurd (List.cons.inj hd).1 (by decide)
      | cons x d =>
        obtain rfl : '=' = x := (List.cons.inj hd).1
        exact hc (List.mem_append_right name List.mem_cons_self)

/-- What stands behind a comma also stands behind the first comma. -/
theorem mem_dropWhile_of_mem {a c : List Char} {x : Char} (h : x ∈ c) :
    x ∈ (a ++ ',' :: c).dropWhile (· != ',') := by
  induction a with
  | nil => exact List.mem_cons_of_mem _ h
  | cons y a ih =>
    by_cases hy : y = ','
    · subst hy
      exact List.mem_cons_of_mem _ (List.mem_append_right a (List.mem_cons_of_mem _ h))
    · rw [List.cons_append, List.dropWhile_cons_of_pos (by simpa using hy)]
      exact ih

theorem isBinding_of_clear {name text : List Char} (hcomma : ',' ∉ name) (hequals : '=' ∉ name)
    (htext : '=' ∉ text.dropWhile (· != ',')) : IsBinding (name ++ '=' :: text) := by
  refine ⟨⟨name, text, rfl, hcomma, hequals⟩, ?_⟩
  intro a c he hc
  rcases List.append_eq_append_iff.1 he with ⟨d, rfl, hd⟩ | ⟨d, rfl, hd⟩
  · cases d with
    | nil => exact absurd (List.cons.inj hd).1 (by decide)
    | cons x d =>
      rw [(List.cons.inj hd).2] at htext
      exact htext (mem_dropWhile_of_mem hc)
  · cases d with
    | nil => exact absurd (List.cons.inj hd).1 (by decide)
    | cons x d =>
      obtain rfl : ',' = x := (List.cons.inj hd).1
      exact hcomma (List.mem_append_right a List.mem_cons_self)

end Measurement.Text
