/-
What can be read off the content of a statement.

The content is hashed as lines of text in which nothing is escaped, so a text
that holds line breaks, commas or equals signs of its own can be taken for
another. The content of a statement is legible if that cannot happen: its names
hold none of the three, its other texts hold no line breaks, and no equals sign
stands behind a comma in the text of a parameter or of metadata. Where exports
lead may be any text, for it comes last.

Between constraint and value stands a colon, which both may hold. So legible
contents tell the values of equally named parameters apart only if these have
one constraint, or constraints without colons (`Comparable`).

Two statements with legible and comparable contents that give the same text say
the same (`sameContent_of_linesText`). The converse holds of all statements
(`SameContent.contentLines_eq`), for texts are put in order before they are
joined.
-/
import Measurement.Statement.Identity
import Measurement.Proofs.Digest
import Measurement.Proofs.Scope.Text

set_option autoImplicit false

namespace Measurement.Statement

open Measurement.Text Measurement.Digest

/-! ## 1. Legible contents -/

/-- Whether the binding of a name to a text can be read off a row of bindings in a line. -/
def Clear (name text : String) : Prop :=
  (',' ∉ name.toList ∧ '=' ∉ name.toList ∧ '\n' ∉ name.toList)
    ∧ '\n' ∉ text.toList ∧ '=' ∉ text.toList.dropWhile (· != ',')

instance (name text : String) : Decidable (Clear name text) :=
  inferInstanceAs (Decidable ((_ ∧ _ ∧ _) ∧ _ ∧ _))

/-- What is said of a parameter behind its name. -/
def settingText (p : Parameter) : String :=
  p.constraint.text ++ ":" ++ Value.textOrAbsent p.value

/-- Whether the content of a statement has only one reading. -/
structure Legible (s : Statement) : Prop where
  verb : '\n' ∉ s.verb.toList
  parameters : ∀ p ∈ s.parameters.values, Clear p.name (settingText p)
  metadata : ∀ m ∈ s.metadata.values, Clear m.name m.value.text
  columns : ∀ c ∈ s.columns.names, c ≠ "" ∧ ',' ∉ c.toList ∧ '\n' ∉ c.toList

instance (s : Statement) : Decidable s.Legible :=
  decidable_of_iff ('\n' ∉ s.verb.toList
      ∧ (∀ p ∈ s.parameters.values, Clear p.name (settingText p))
      ∧ (∀ m ∈ s.metadata.values, Clear m.name m.value.text)
      ∧ ∀ c ∈ s.columns.names, c ≠ "" ∧ ',' ∉ c.toList ∧ '\n' ∉ c.toList)
    ⟨fun h => ⟨h.1, h.2.1, h.2.2.1, h.2.2.2⟩, fun h => ⟨h.1, h.2, h.3, h.4⟩⟩

/-- Whether equally named parameters of two statements have one constraint, or constraints that
end at the first colon. -/
def Comparable (s t : Statement) : Prop :=
  ∀ p ∈ s.parameters.values, ∀ q ∈ t.parameters.values, p.name = q.name →
    p.constraint.text = q.constraint.text
      ∨ (':' ∉ p.constraint.text.toList ∧ ':' ∉ q.constraint.text.toList)

instance (s t : Statement) : Decidable (s.Comparable t) :=
  inferInstanceAs (Decidable (∀ p ∈ s.parameters.values, ∀ q ∈ t.parameters.values,
    p.name = q.name → _ ∨ (_ ∧ _)))

/-- Whether two statements have the same content: all that a component acts on but the registry,
with values, constraints and scopes as they are written, and in whatever order it was added. -/
structure SameContent (s t : Statement) : Prop where
  verb : s.verb = t.verb
  scope : s.scope.text = t.scope.text
  parameters : (s.parameters.values.map fun p =>
      (p.name, p.constraint.text, Value.textOrAbsent p.value)).Perm
    (t.parameters.values.map fun p => (p.name, p.constraint.text, Value.textOrAbsent p.value))
  metadata : (s.metadata.values.map fun m => (m.name, m.value.text)).Perm
    (t.metadata.values.map fun m => (m.name, m.value.text))
  columns : s.columns.names.Perm t.columns.names
  exportUri : s.exportUri.getD "" = t.exportUri.getD ""

/-! ## 2. Rows in order -/

theorem toList_inOrder (texts : List String) : (inOrder texts).toList =
    [','].intercalate ((texts.mergeSort fun a b => decide (a ≤ b)).map String.toList) := by
  rw [inOrder, String.toList_intercalate]
  rfl

theorem inOrder_of_pairwise {texts : List String}
    (h : texts.Pairwise fun a b => decide (a ≤ b) = true) :
    inOrder texts = ",".intercalate texts := by
  rw [inOrder, List.mergeSort_of_pairwise h]

theorem lineBreak_not_mem_labelled {label text : String} (hl : '\n' ∉ label.toList)
    (ht : '\n' ∉ text.toList) : '\n' ∉ (label ++ text).toList := by
  rw [String.toList_append, List.mem_append, not_or]
  exact ⟨hl, ht⟩

theorem lineBreak_not_mem_inOrder {texts : List String} (h : ∀ t ∈ texts, '\n' ∉ t.toList) :
    '\n' ∉ (inOrder texts).toList := by
  rw [toList_inOrder]
  refine not_mem_intercalate (by decide) ?_
  intro i hi
  obtain ⟨t, ht, rfl⟩ := List.mem_map.1 hi
  exact h t ((List.mergeSort_perm texts _).mem_iff.1 ht)

theorem pairwise_mergeSort_texts (texts : List String) :
    (texts.mergeSort fun a b => decide (a ≤ b)).Pairwise (· ≤ ·) := by
  have htrans : ∀ a b c : String, decide (a ≤ b) = true → decide (b ≤ c) = true →
      decide (a ≤ c) = true := fun a b c hab hbc =>
    decide_eq_true (String.le_trans (of_decide_eq_true hab) (of_decide_eq_true hbc))
  have htotal : ∀ a b : String, (decide (a ≤ b) || decide (b ≤ a)) = true := by
    intro a b
    rw [Bool.or_eq_true, decide_eq_true_eq, decide_eq_true_eq]
    exact String.le_total a b
  have hsorted := List.pairwise_mergeSort htrans htotal texts
  exact hsorted.imp of_decide_eq_true

/-- The order in which texts were added does not count. -/
theorem inOrder_of_perm {texts others : List String} (h : texts.Perm others) :
    inOrder texts = inOrder others := by
  have hperm : (texts.mergeSort fun a b => decide (a ≤ b)).Perm
      (others.mergeSort fun a b => decide (a ≤ b)) :=
    ((List.mergeSort_perm texts _).trans h).trans (List.mergeSort_perm others _).symm
  -- Two rows in ascending order with the same items are the same row.
  have hsame := hperm.eq_of_pairwise (fun a b _ _ hab hba => String.le_antisymm hab hba)
    (pairwise_mergeSort_texts texts) (pairwise_mergeSort_texts others)
  rw [inOrder, inOrder, hsame]

theorem mem_mergeSort_texts {texts : List String} {p : List Char → Prop}
    (h : ∀ t ∈ texts, p t.toList) :
    ∀ i ∈ (texts.mergeSort fun a b => decide (a ≤ b)).map String.toList, p i := by
  intro i hi
  obtain ⟨t, hmem, rfl⟩ := List.mem_map.1 hi
  exact h t ((List.mergeSort_perm texts _).mem_iff.1 hmem)

theorem perm_of_mergeSort_texts {texts others : List String}
    (h : (texts.mergeSort fun a b => decide (a ≤ b)).map String.toList
      = (others.mergeSort fun a b => decide (a ≤ b)).map String.toList) : texts.Perm others := by
  have htexts := List.map_injective_iff.2 (fun _ _ => String.toList_inj.1) h
  have hperm := List.mergeSort_perm texts fun a b => decide (a ≤ b)
  rw [htexts] at hperm
  exact hperm.symm.trans (List.mergeSort_perm others _)

/-- Texts that keep apart in a row can be read off it, up to their order. -/
theorem perm_of_inOrder {form : List Char → Prop} (hform : KeepApart form)
    {texts others : List String} (ht : ∀ t ∈ texts, form t.toList)
    (ho : ∀ t ∈ others, form t.toList) (h : inOrder texts = inOrder others) :
    texts.Perm others := by
  have hrow := congrArg String.toList h
  rw [toList_inOrder, toList_inOrder] at hrow
  exact perm_of_mergeSort_texts
    (intercalate_injective hform (mem_mergeSort_texts ht) (mem_mergeSort_texts ho) hrow)

/-- Names without commas can be read off a row, up to their order and one empty name. -/
theorem perm_names {names others : List String} (hn : ∀ n ∈ names, ',' ∉ n.toList)
    (ho : ∀ n ∈ others, ',' ∉ n.toList) (hne : names ≠ [""]) (hoe : others ≠ [""])
    (h : inOrder names = inOrder others) : names.Perm others := by
  have halone : ∀ {ns : List String}, ns ≠ [""] →
      (ns.mergeSort fun a b => decide (a ≤ b)).map String.toList ≠ [[]] := by
    intro ns hns hsorted
    obtain ⟨n, hone, hn⟩ := List.map_eq_singleton_iff.1 hsorted
    have hperm := List.mergeSort_perm ns fun a b => decide (a ≤ b)
    rw [hone, String.toList_eq_nil_iff.1 hn] at hperm
    exact hns (List.singleton_perm.1 hperm).symm
  have hrow := congrArg String.toList h
  rw [toList_inOrder, toList_inOrder] at hrow
  exact perm_of_mergeSort_texts
    (intercalate_names_injective (mem_mergeSort_texts (p := fun i => ',' ∉ i) hn)
      (mem_mergeSort_texts (p := fun i => ',' ∉ i) ho) (halone hne) (halone hoe) hrow)

/-- What the items of two lists have as texts determines whatever those texts determine. -/
theorem perm_map_of_perm_map {α β γ : Type} {f : α → β} {g : α → γ} {xs ys : List α}
    (h : (xs.map f).Perm (ys.map f)) (hg : ∀ x ∈ xs, ∀ y ∈ ys, f x = f y → g x = g y) :
    (xs.map g).Perm (ys.map g) := by
  induction xs generalizing ys with
  | nil =>
    rw [List.map_nil, List.nil_perm, List.map_eq_nil_iff] at h
    rw [h]
  | cons x xs ih =>
    -- Some item of the other list has the text of `x`; without the two, the texts still agree.
    have hx : f x ∈ ys.map f := h.subset List.mem_cons_self
    obtain ⟨y, hy, hfy⟩ := List.mem_map.1 hx
    obtain ⟨front, back, rfl⟩ := List.append_of_mem hy
    have hrest : (xs.map f).Perm ((front ++ back).map f) := by
      have hf := h.trans (List.perm_middle.map f)
      rw [List.map_cons, List.map_cons, hfy] at hf
      exact hf.cons_inv
    have hsub : ∀ z ∈ front ++ back, z ∈ front ++ y :: back := by
      intro z hz
      rw [List.mem_append] at hz ⊢
      exact hz.imp_right (List.mem_cons_of_mem y)
    rw [List.map_cons, hg x List.mem_cons_self y hy hfy.symm]
    have hmiddle : ((front ++ y :: back).map g).Perm (g y :: (front ++ back).map g) :=
      List.perm_middle.map g
    refine List.Perm.trans (List.Perm.cons _ (ih hrest ?_)) hmiddle.symm
    intro a ha b hb
    exact hg a (List.mem_cons_of_mem x ha) b (hsub b hb)

/-! ## 3. Bindings -/

theorem isBinding_clear {name text : String} (h : Clear name text) :
    IsBinding (name.toList ++ '=' :: text.toList) :=
  isBinding_of_clear h.1.1 h.1.2.1 h.2.2

theorem clear_inj {name other text more : String} (h : Clear name text) (k : Clear other more)
    (he : name.toList ++ '=' :: text.toList = other.toList ++ '=' :: more.toList) :
    name = other ∧ text = more := by
  obtain ⟨hname, htext⟩ := append_mark_inj h.1.2.1 k.1.2.1 he
  exact ⟨String.toList_inj.1 hname, String.toList_inj.1 htext⟩

section Bindings

variable {α : Type} {binding name text : α → String}
  (hbinding : ∀ a, (binding a).toList = (name a).toList ++ '=' :: (text a).toList)

include hbinding

/-- A row of clear bindings determines names and texts, up to their order. -/
theorem perm_bindings {items others : List α} (hi : ∀ a ∈ items, Clear (name a) (text a))
    (ho : ∀ a ∈ others, Clear (name a) (text a))
    (h : inOrder (items.map binding) = inOrder (others.map binding)) :
    (items.map fun a => (name a, text a)).Perm (others.map fun a => (name a, text a)) := by
  have hform : ∀ {as : List α}, (∀ a ∈ as, Clear (name a) (text a)) →
      ∀ row ∈ as.map binding, IsBinding row.toList := by
    intro as has row hrow
    obtain ⟨a, ha, rfl⟩ := List.mem_map.1 hrow
    rw [hbinding]
    exact isBinding_clear (has a ha)
  refine perm_map_of_perm_map (perm_of_inOrder keepApart_bindings (hform hi) (hform ho) h) ?_
  intro a ha b hb he
  have hrow := congrArg String.toList he
  rw [hbinding, hbinding] at hrow
  obtain ⟨hname, htext⟩ := clear_inj (hi a ha) (ho b hb) hrow
  rw [hname, htext]

theorem lineBreak_not_mem_bindings {items : List α} (h : ∀ a ∈ items, Clear (name a) (text a)) :
    '\n' ∉ (inOrder (items.map binding)).toList := by
  refine lineBreak_not_mem_inOrder ?_
  intro row hrow
  obtain ⟨a, ha, rfl⟩ := List.mem_map.1 hrow
  obtain ⟨hname, htext, -⟩ := h a ha
  rw [hbinding, List.mem_append, List.mem_cons, not_or, not_or]
  exact ⟨hname.2.2, by decide, htext⟩

end Bindings

theorem toList_parameterText (p : Parameter) :
    (parameterText p).toList = p.name.toList ++ '=' :: (settingText p).toList := by
  simp [parameterText, settingText]

theorem toList_metadataText (m : Metavalue) :
    (metadataText m).toList = m.name.toList ++ '=' :: m.value.text.toList := by
  simp [metadataText]

theorem toList_settingText (p : Parameter) :
    (settingText p).toList
      = p.constraint.text.toList ++ ':' :: (Value.textOrAbsent p.value).toList := by
  simp [settingText]

theorem settingText_inj {p q : Parameter}
    (hc : p.constraint.text = q.constraint.text
      ∨ (':' ∉ p.constraint.text.toList ∧ ':' ∉ q.constraint.text.toList))
    (h : settingText p = settingText q) :
    p.constraint.text = q.constraint.text
      ∧ Value.textOrAbsent p.value = Value.textOrAbsent q.value := by
  have ht := congrArg String.toList h
  rw [toList_settingText, toList_settingText] at ht
  rcases hc with hc | ⟨hp, hq⟩
  · rw [hc] at ht
    exact ⟨hc, String.toList_inj.1 (List.cons.inj (List.append_cancel_left ht)).2⟩
  · obtain ⟨hconstraint, hvalue⟩ := append_mark_inj hp hq ht
    exact ⟨String.toList_inj.1 hconstraint, String.toList_inj.1 hvalue⟩

/-- Parameters with one value, or both without, are told apart by their constraints alone. -/
theorem settingText_inj_of_value {p q : Parameter}
    (hv : Value.textOrAbsent p.value = Value.textOrAbsent q.value)
    (h : settingText p = settingText q) : p.constraint.text = q.constraint.text := by
  have ht := congrArg String.toList h
  rw [toList_settingText, toList_settingText, hv] at ht
  exact String.toList_inj.1 (List.append_cancel_right ht)

/-- Whether what is said of equally named parameters of two statements tells their constraints and
values. -/
def ToldApart (s t : Statement) : Prop :=
  ∀ p ∈ s.parameters.values, ∀ q ∈ t.parameters.values, p.name = q.name →
    settingText p = settingText q → p.constraint.text = q.constraint.text
      ∧ Value.textOrAbsent p.value = Value.textOrAbsent q.value

theorem Comparable.toldApart {s t : Statement} (h : s.Comparable t) : s.ToldApart t :=
  fun p hp q hq hname hsetting => settingText_inj (h p hp q hq hname) hsetting

/-! ## 4. Contents -/

theorem perm_parameters {s t : Statement} (hs : s.Legible) (ht : t.Legible) (hc : s.ToldApart t)
    (h : inOrder (s.parameters.values.map parameterText)
      = inOrder (t.parameters.values.map parameterText)) :
    (s.parameters.values.map fun p =>
        (p.name, p.constraint.text, Value.textOrAbsent p.value)).Perm
      (t.parameters.values.map fun p =>
        (p.name, p.constraint.text, Value.textOrAbsent p.value)) := by
  refine perm_map_of_perm_map (perm_bindings toList_parameterText hs.parameters ht.parameters h) ?_
  intro p hp q hq he
  obtain ⟨hname, hsetting⟩ := Prod.mk.inj he
  obtain ⟨hconstraint, hvalue⟩ := hc p hp q hq hname hsetting
  rw [hname, hconstraint, hvalue]

theorem perm_metadata {s t : Statement} (hs : s.Legible) (ht : t.Legible)
    (h : inOrder (s.metadata.values.map metadataText)
      = inOrder (t.metadata.values.map metadataText)) :
    (s.metadata.values.map fun m => (m.name, m.value.text)).Perm
      (t.metadata.values.map fun m => (m.name, m.value.text)) :=
  perm_bindings toList_metadataText hs.metadata ht.metadata h

theorem perm_columns {s t : Statement} (hs : s.Legible) (ht : t.Legible)
    (h : inOrder s.columns.names = inOrder t.columns.names) :
    s.columns.names.Perm t.columns.names := by
  have halone : ∀ {u : Statement}, u.Legible → u.columns.names ≠ [""] := by
    intro u hu hone
    exact (hu.columns "" (by rw [hone]; exact List.mem_singleton.2 rfl)).1 rfl
  exact perm_names (fun c hc => (hs.columns c hc).2.1) (fun c hc => (ht.columns c hc).2.1)
    (halone hs) (halone ht) h

/-- All lines of a legible content but the last are lines. -/
theorem Legible.lines {s : Statement} (h : s.Legible) :
    ∀ line ∈ s.contentLines.dropLast, '\n' ∉ line.toList := by
  have hparameters := lineBreak_not_mem_bindings toList_parameterText h.parameters
  have hmetadata := lineBreak_not_mem_bindings toList_metadataText h.metadata
  have hcolumns : '\n' ∉ (inOrder s.columns.names).toList :=
    lineBreak_not_mem_inOrder fun c hc => (h.columns c hc).2.2
  intro line hline
  rw [contentLines] at hline
  simp only [List.dropLast, List.mem_cons, List.not_mem_nil, or_false] at hline
  rcases hline with rfl | rfl | rfl | rfl | rfl
  · exact lineBreak_not_mem_labelled (by decide) h.verb
  · exact lineBreak_not_mem_labelled (by decide) s.scope.lineBreak_not_mem_text
  · exact lineBreak_not_mem_labelled (by decide) hparameters
  · exact lineBreak_not_mem_labelled (by decide) hmetadata
  · exact lineBreak_not_mem_labelled (by decide) hcolumns

/-- Legible contents that give the same text are the same, if their parameters are told apart. -/
theorem sameContent_of_toldApart {s t : Statement} (hs : s.Legible) (ht : t.Legible)
    (hc : s.ToldApart t) (h : linesText s.contentLines = linesText t.contentLines) :
    SameContent s t := by
  have hls := hs.lines
  have hlt := ht.lines
  rw [contentLines] at hls hlt
  simp only [List.dropLast, List.forall_mem_cons] at hls hlt
  obtain ⟨hsv, hsw, hsp, hsm, hsr, -⟩ := hls
  obtain ⟨htv, htw, htp, htm, htr, -⟩ := hlt
  obtain ⟨hv, h⟩ := linesText_cons_inj hsv htv h
  obtain ⟨hw, h⟩ := linesText_cons_inj hsw htw h
  obtain ⟨hp, h⟩ := linesText_cons_inj hsp htp h
  obtain ⟨hm, h⟩ := linesText_cons_inj hsm htm h
  obtain ⟨hr, h⟩ := linesText_cons_inj hsr htr h
  have he := linesText_singleton_inj h
  exact ⟨(String.append_right_inj _).1 hv, (String.append_right_inj _).1 hw,
    perm_parameters hs ht hc ((String.append_right_inj _).1 hp),
    perm_metadata hs ht ((String.append_right_inj _).1 hm),
    perm_columns hs ht ((String.append_right_inj _).1 hr), (String.append_right_inj _).1 he⟩

/-- Legible and comparable contents that give the same text are the same. -/
theorem sameContent_of_linesText {s t : Statement} (hs : s.Legible) (ht : t.Legible)
    (hc : s.Comparable t) (h : linesText s.contentLines = linesText t.contentLines) :
    SameContent s t := sameContent_of_toldApart hs ht hc.toldApart h

/-- Statements with the same content give the same text, in whatever order their parts were
added. -/
theorem SameContent.contentLines_eq {s t : Statement} (h : s.SameContent t) :
    s.contentLines = t.contentLines := by
  have hparameters : inOrder (s.parameters.values.map parameterText)
      = inOrder (t.parameters.values.map parameterText) := by
    have hperm := h.parameters.map fun p => p.1 ++ "=" ++ p.2.1 ++ ":" ++ p.2.2
    rw [List.map_map, List.map_map] at hperm
    exact inOrder_of_perm hperm
  have hmetadata : inOrder (s.metadata.values.map metadataText)
      = inOrder (t.metadata.values.map metadataText) := by
    have hperm := h.metadata.map fun m => m.1 ++ "=" ++ m.2
    rw [List.map_map, List.map_map] at hperm
    exact inOrder_of_perm hperm
  rw [contentLines, contentLines, h.verb, h.scope, hparameters, hmetadata,
    inOrder_of_perm h.columns, h.exportUri]

end Measurement.Statement
