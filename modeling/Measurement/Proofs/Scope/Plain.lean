/-
What is written for a plain scope that was read is read as that scope, down to
the microsecond.

The parts of a plain scope are bounds and spans, whose texts hold none of the
signs between them: a blank in an instant stands before a digit, and so not
before a plus sign, a point or a slash, and the plus sign of a far year stands
before a digit and not before a blank.
-/
import Measurement.Scope.Text
import Measurement.Proofs.Time.Span
import Measurement.Proofs.Value

set_option autoImplicit false

namespace Measurement

open Measurement.Text Measurement.Time

/-! ## 1. What can be read -/

/-- A bound as it can be read. -/
def Bound.IsRead : Bound → Prop
  | .fixed t => t.IsCivil
  | _ => True

/-- An extent as it can be read. -/
def Extent.IsRead : Extent → Prop
  | .point => True
  | .through last => last.IsRead
  | .lasting d => d.IsRead

/-- A plain scope as it can be read. -/
structure PlainScope.IsRead (p : PlainScope) : Prop where
  start : p.start.IsRead
  extent : p.extent.IsRead
  period : ∀ d ∈ p.period, d.IsRead

/-- The bound cut down to microseconds. -/
def Bound.toMicros : Bound → Bound
  | .fixed t => .fixed t.toMicros
  | b => b

/-- The extent cut down to microseconds. -/
def Extent.toMicros : Extent → Extent
  | .through last => .through last.toMicros
  | e => e

/-- The time that a bound names. -/
def Bound.times : Bound → List Instant
  | .fixed t => [t]
  | _ => []

/-- The time that an extent names. -/
def Extent.times : Extent → List Instant
  | .through last => last.times
  | _ => []

/-- The plain scope with its bounds cut down to microseconds. -/
def PlainScope.toMicros (p : PlainScope) : PlainScope :=
  { p with start := p.start.toMicros, extent := p.extent.toMicros }

theorem Bound.toMicros_of_whole {b : Bound} (h : ∀ t ∈ b.times, t.nano % 1000 = 0) :
    b.toMicros = b := by
  cases b with
  | fixed t =>
    exact congrArg Bound.fixed (Instant.toMicros_of_whole (h t (List.mem_singleton.2 rfl)))
  | _ => rfl

theorem Extent.toMicros_of_whole {e : Extent} (h : ∀ t ∈ e.times, t.nano % 1000 = 0) :
    e.toMicros = e := by
  cases e with
  | through last => exact congrArg Extent.through (Bound.toMicros_of_whole h)
  | _ => rfl

theorem Bound.text_toMicros (b : Bound) : b.toMicros.text = b.text := by
  cases b with
  | fixed t => exact congrArg String.ofList t.write_toMicros
  | _ => rfl

theorem Extent.extentText_toMicros (e : Extent) :
    Scope.extentText e.toMicros = Scope.extentText e := by
  cases e with
  | through last => exact congrArg (" ... " ++ ·) last.text_toMicros
  | _ => rfl

/-! ## 2. Bounds -/

namespace Bound

/-- The characters of a bound. -/
theorem mem_text {b : Bound} {c : Char} (h : c ∈ b.text.toList) :
    c.isDigit = true ∨ c ∈ "pastnowfuture-+ :.".toList := by
  have hword : ∀ {w : List Char}, w ⊆ "pastnowfuture-+ :.".toList → c ∈ w →
      c.isDigit = true ∨ c ∈ "pastnowfuture-+ :.".toList := fun hsub hc => Or.inr (hsub hc)
  cases b with
  | past => exact hword (by decide) h
  | now => exact hword (by decide) h
  | future => exact hword (by decide) h
  | fixed t =>
    rw [text, Instant.text, String.toList_ofList] at h
    exact digit_or_mem_mono (by decide) (Instant.mem_write h)

theorem text_ne_nil (b : Bound) : b.text.toList ≠ [] := by
  cases b with
  | past => decide
  | now => decide
  | future => decide
  | fixed t =>
    rw [text, Instant.text, String.toList_ofList, Instant.write_eq, Instant.writeWith]
    exact List.append_ne_nil_of_left_ne_nil (Instant.writeDate_ne_nil _) _

theorem snug_text (b : Bound) : Snug b.text.toList := by
  cases b with
  | past => exact snug_of_forall (eq_false_of_all (by decide))
  | now => exact snug_of_forall (eq_false_of_all (by decide))
  | future => exact snug_of_forall (eq_false_of_all (by decide))
  | fixed t =>
    rw [text, Instant.text, String.toList_ofList]
    exact Instant.snug_write t

/-- What a bound can begin with. -/
theorem head?_text {b : Bound} {c : Char} (h : c ∈ b.text.toList.head?) :
    c.isDigit = true ∨ c ∈ ['p', 'n', 'f', '-', '+'] := by
  cases b with
  | past =>
    obtain rfl : 'p' = c := Option.some.inj h
    exact Or.inr (by decide)
  | now =>
    obtain rfl : 'n' = c := Option.some.inj h
    exact Or.inr (by decide)
  | future =>
    obtain rfl : 'f' = c := Option.some.inj h
    exact Or.inr (by decide)
  | fixed t =>
    rw [text, Instant.text, String.toList_ofList] at h
    exact (Instant.head?_write h).imp_right fun hmark => by
      rw [List.mem_cons, List.mem_singleton] at hmark
      obtain rfl | rfl := hmark <;> decide

/-- A blank in a bound stands before a digit. -/
theorem apart_blank_text (b : Bound) {d : Char} (hd : d.isDigit = false) :
    Apart ' ' d b.text.toList := by
  cases b with
  | past => exact apart_of_not_mem_left (by decide)
  | now => exact apart_of_not_mem_left (by decide)
  | future => exact apart_of_not_mem_left (by decide)
  | fixed t =>
    rw [text, Instant.text, String.toList_ofList]
    exact Instant.apart_blank_write t hd

/-- A plus sign in a bound stands before a digit. -/
theorem apart_sign_text (b : Bound) : Apart '+' ' ' b.text.toList := by
  cases b with
  | past => exact apart_of_not_mem_left (by decide)
  | now => exact apart_of_not_mem_left (by decide)
  | future => exact apart_of_not_mem_left (by decide)
  | fixed t =>
    rw [text, Instant.text, String.toList_ofList]
    exact Instant.apart_sign_write t

/-- A bound does not end with a plus sign. -/
theorem sign_not_mem_getLast?_text (b : Bound) : '+' ∉ b.text.toList.getLast? := by
  cases b with
  | past => decide
  | now => decide
  | future => decide
  | fixed t =>
    rw [text, Instant.text, String.toList_ofList]
    exact fun h => absurd (Instant.isDigit_getLast?_write h) (by decide)

theorem read_text {b : Bound} (h : b.IsRead) : read b.text.toList = .ok b.toMicros := by
  rw [read, trim_of_snug b.snug_text, String.ofList_toList]
  cases b with
  | past => rfl
  | now => rfl
  | future => rfl
  | fixed t =>
    have hword : ∀ {w : String} {c : Char}, c ∈ w.toList.head? → c.isDigit = false →
        c ∉ ['-', '+'] → (fixed t).text ≠ w := by
      intro w c hc hdigit hmark he
      rw [← he, text, Instant.text, String.toList_ofList] at hc
      obtain h | h := Instant.head?_write hc
      · rw [hdigit] at h
        cases h
      · exact hmark h
    rw [if_neg (hword (c := 'p') rfl rfl (by decide)),
      if_neg (hword (c := 'n') rfl rfl (by decide)),
      if_neg (hword (c := 'f') rfl rfl (by decide))]
    have hread : readInstant (fixed t).text = .ok t.toMicros := readInstant_text h
    rw [hread]
    rfl

theorem isRead_of_read {s : List Char} {b : Bound} (h : read s = .ok b) : b.IsRead := by
  rw [read] at h
  split at h
  · cases h
    trivial
  · split at h
    · cases h
      trivial
    · split at h
      · cases h
        trivial
      · obtain ⟨t, ht, rfl⟩ := map_eq_ok_iff.1 h
        exact Instant.isCivil_of_read? (readInstant_eq_ok_iff.1 ht)

end Bound

/-! ## 3. Spans -/

namespace Span

theorem read_text {d : Span} (h : d.IsRead) : read d.text.toList = .ok d := by
  rw [read, text, String.toList_ofList, read?_write h]

theorem isRead_of_read {s : List Char} {d : Span} (h : read s = .ok d) : d.IsRead := by
  rw [read] at h
  split at h
  · rename_i e he
    cases h
    exact isRead_of_read? he
  · cases h

theorem mem_text {d : Span} {c : Char} (h : c ∈ d.text.toList) :
    c.isDigit = true ∨ c ∈ "dhms".toList := by
  rw [text, String.toList_ofList] at h
  exact mem_write h

theorem text_ne_nil {d : Span} (h : d.IsRead) : d.text.toList ≠ [] := by
  intro hnil
  have hread := read_text h
  rw [hnil] at hread
  cases hread

theorem snug_text (d : Span) : Snug d.text.toList := by
  rw [text, String.toList_ofList]
  exact snug_of_forall fun c hc => isBlank_of_mem_write hc

end Span

/-! ## 4. Plain scopes -/

namespace PlainScope

/-- The text of a plain scope. -/
def text (p : PlainScope) : String :=
  p.start.text ++ Scope.extentText p.extent ++ Scope.periodText p.period

/-- The characters of a start and an extent. -/
theorem mem_body {b : Bound} {e : Extent} {c : Char}
    (h : c ∈ (b.text ++ Scope.extentText e).toList) :
    c.isDigit = true ∨ c ∈ "pastnowfuture-+ :.dhm".toList := by
  rw [String.toList_append, List.mem_append] at h
  obtain h | h := h
  · exact digit_or_mem_mono (by decide) (Bound.mem_text h)
  · cases e with
    | point => exact absurd h List.not_mem_nil
    | through last =>
      rw [Scope.extentText, String.toList_append, List.mem_append] at h
      obtain h | h := h
      · exact digit_or_mem_mono (m := " ... ".toList) (by decide) (Or.inr h)
      · exact digit_or_mem_mono (by decide) (Bound.mem_text h)
    | lasting d =>
      rw [Scope.extentText, String.toList_append, List.mem_append] at h
      obtain h | h := h
      · exact digit_or_mem_mono (m := " + ".toList) (by decide) (Or.inr h)
      · exact digit_or_mem_mono (by decide) (Span.mem_text h)

/-- The characters of a plain scope. -/
theorem mem_text {p : PlainScope} {c : Char} (h : c ∈ p.text.toList) :
    c.isDigit = true ∨ c ∈ "pastnowfuture-+ :.dhm/".toList := by
  rw [text, String.toList_append, List.mem_append] at h
  obtain h | h := h
  · exact digit_or_mem_mono (by decide) (mem_body h)
  · revert h
    cases p.period with
    | none => exact fun h => absurd h List.not_mem_nil
    | some d =>
      intro h
      rw [Scope.periodText, String.toList_append, List.mem_append] at h
      obtain h | h := h
      · exact digit_or_mem_mono (m := " / ".toList) (by decide) (Or.inr h)
      · exact digit_or_mem_mono (by decide) (Span.mem_text h)

theorem snug_body {b : Bound} {e : Extent} (he : e.IsRead) :
    Snug (b.text ++ Scope.extentText e).toList := by
  cases e with
  | point =>
    rw [Scope.extentText, String.append_empty]
    exact b.snug_text
  | through last =>
    rw [Scope.extentText, ← String.append_assoc, String.toList_append, String.toList_append]
    exact snug_append b.snug_text last.snug_text b.text_ne_nil last.text_ne_nil _
  | lasting d =>
    rw [Scope.extentText, ← String.append_assoc, String.toList_append, String.toList_append]
    exact snug_append b.snug_text d.snug_text b.text_ne_nil (Span.text_ne_nil he) _

theorem body_ne_nil (b : Bound) (e : Extent) : (b.text ++ Scope.extentText e).toList ≠ [] := by
  rw [String.toList_append]
  exact List.append_ne_nil_of_left_ne_nil b.text_ne_nil _

theorem text_ne_nil (p : PlainScope) : p.text.toList ≠ [] := by
  rw [text, String.toList_append]
  exact List.append_ne_nil_of_left_ne_nil (body_ne_nil _ _) _

theorem snug_text {p : PlainScope} (h : p.IsRead) : Snug p.text.toList := by
  rw [text]
  cases hp : p.period with
  | none =>
    rw [Scope.periodText, String.append_empty]
    exact snug_body h.extent
  | some d =>
    rw [Scope.periodText, ← String.append_assoc, String.toList_append, String.toList_append]
    exact snug_append (snug_body h.extent) d.snug_text (body_ne_nil _ _)
      (Span.text_ne_nil (h.period d hp)) _

/-- The sign between two parts tells an extent. -/
theorem readBody_text {b : Bound} {e : Extent} (hb : b.IsRead) (he : e.IsRead)
    (period : Option Span) :
    readBody (b.text ++ Scope.extentText e).toList period
      = .ok ⟨b.toMicros, e.toMicros, period⟩ := by
  cases e with
  | point =>
    have hduration : cut? durationSign b.text.toList = none :=
      cut?_eq_none [] (b.apart_blank_text (d := '+') rfl)
    have hrange : cut? rangeSign b.text.toList = none :=
      cut?_eq_none [] (b.apart_blank_text (d := '.') rfl)
    rw [Scope.extentText, String.append_empty, readBody, hduration]
    simp only [hrange, Bound.read_text hb]
    rfl
  | through last =>
    have hrange : cut? rangeSign (b.text.toList ++ rangeSign ++ last.text.toList)
        = some (b.text.toList, last.text.toList) :=
      cut?_of_apart (by decide) (b.apart_blank_text rfl)
    have hapart : Apart '+' ' ' (b.text.toList ++ rangeSign ++ last.text.toList) := by
      refine apart_append (apart_append b.apart_sign_text ?_ ?_) last.apart_sign_text ?_
      · exact apart_of_not_mem_left (by decide)
      · exact fun h => absurd h b.sign_not_mem_getLast?_text
      · rw [List.getLast?_append_of_ne_nil _ (by decide)]
        exact fun h => absurd h (by decide)
    have hduration : cut? durationSign (b.text.toList ++ rangeSign ++ last.text.toList) = none :=
      cut?_eq_none [' '] hapart
    have htext : (b.text ++ Scope.extentText (.through last)).toList
        = b.text.toList ++ rangeSign ++ last.text.toList := by
      rw [Scope.extentText, ← String.append_assoc, String.toList_append, String.toList_append]
      rfl
    rw [htext, readBody, hduration]
    simp only [hrange, Bound.read_text hb, Bound.read_text (show last.IsRead from he)]
    rfl
  | lasting d =>
    have hduration : cut? durationSign (b.text.toList ++ durationSign ++ d.text.toList)
        = some (b.text.toList, d.text.toList) :=
      cut?_of_apart (by decide) (b.apart_blank_text rfl)
    have htext : (b.text ++ Scope.extentText (.lasting d)).toList
        = b.text.toList ++ durationSign ++ d.text.toList := by
      rw [Scope.extentText, ← String.append_assoc, String.toList_append, String.toList_append]
      rfl
    rw [htext, readBody, hduration]
    simp only [Bound.read_text hb, Span.read_text (show d.IsRead from he)]
    rfl

theorem read_text {p : PlainScope} (h : p.IsRead) : read p.text.toList = .ok p.toMicros := by
  have hbody : ∀ period, readBody (trim (p.start.text ++ Scope.extentText p.extent).toList) period
      = .ok ⟨p.start.toMicros, p.extent.toMicros, period⟩ := by
    intro period
    rw [trim_of_snug (snug_body h.extent)]
    exact readBody_text h.start h.extent period
  have hnil : (trim (p.start.text ++ Scope.extentText p.extent).toList).isEmpty = false := by
    rw [trim_of_snug (snug_body h.extent)]
    simpa using body_ne_nil p.start p.extent
  rw [read, text]
  cases hp : p.period with
  | none =>
    have hcut : cutLast? periodSign (p.start.text ++ Scope.extentText p.extent).toList = none :=
      cutLast?_eq_none (d := '/') (by decide) fun hmem => by
        exact absurd (mem_body hmem) (by decide)
    rw [Scope.periodText, String.append_empty, hcut]
    simp only [bind, Except.bind, hnil, hbody]
    rw [toMicros, hp]
    rfl
  | some d =>
    have hslash : '/' ∉ d.text.toList := fun hmem => by
      exact absurd (Span.mem_text hmem) (by decide)
    have hcut : cutLast? periodSign
        ((p.start.text ++ Scope.extentText p.extent).toList ++ periodSign ++ d.text.toList)
          = some ((p.start.text ++ Scope.extentText p.extent).toList, d.text.toList) :=
      cutLast?_of_not_mem (by decide) hslash
    have htext : (p.start.text ++ Scope.extentText p.extent ++ Scope.periodText (some d)).toList
        = (p.start.text ++ Scope.extentText p.extent).toList ++ periodSign ++ d.text.toList := by
      rw [Scope.periodText, ← String.append_assoc, String.toList_append, String.toList_append]
      rfl
    rw [htext, hcut]
    simp only [Span.read_text (h.period d hp), Except.map, bind, Except.bind, hnil, hbody]
    rw [toMicros, hp]
    rfl

theorem isRead_of_read {s : List Char} {p : PlainScope} (h : read s = .ok p) : p.IsRead := by
  have hbody : ∀ {body : List Char} {period : Option Span}, (∀ d ∈ period, d.IsRead) →
      readBody body period = .ok p → p.IsRead := by
    intro body period hperiod h
    rw [readBody] at h
    split at h
    · simp only [bind_eq_ok_iff] at h
      obtain ⟨start, hstart, d, hd, h⟩ := h
      cases h
      exact ⟨Bound.isRead_of_read hstart, Span.isRead_of_read hd, hperiod⟩
    · split at h
      · simp only [bind_eq_ok_iff] at h
        obtain ⟨start, hstart, last, hlast, h⟩ := h
        cases h
        exact ⟨Bound.isRead_of_read hstart, Bound.isRead_of_read hlast, hperiod⟩
      · simp only [bind_eq_ok_iff] at h
        obtain ⟨start, hstart, h⟩ := h
        cases h
        exact ⟨Bound.isRead_of_read hstart, trivial, hperiod⟩
  rw [read] at h
  split at h
  · obtain ⟨⟨body, period⟩, hperiod, h⟩ := bind_eq_ok_iff.1 h
    obtain ⟨e, he, heq⟩ := map_eq_ok_iff.1 hperiod
    cases heq
    simp only at h
    split at h
    · cases h
    · refine hbody (fun d hd => ?_) h
      cases hd
      exact Span.isRead_of_read he
  · obtain ⟨⟨body, period⟩, hperiod, h⟩ := bind_eq_ok_iff.1 h
    cases hperiod
    simp only at h
    split at h
    · cases h
    · exact hbody (fun d hd => (by cases hd)) h

end PlainScope

end Measurement
