/-
What is written for a scope that was read is read as that scope, down to the
microsecond.

A repeated scope holds a plain scope, perhaps a crontab, and another plain
scope between braces. The braces and words between them hold characters that
none of these do, so each part is found where it was put. No part holds a line
break.
-/
import Measurement.Proofs.Crontab.Text
import Measurement.Proofs.Scope.Plain

set_option autoImplicit false

namespace Measurement

open Measurement.Text Measurement.Time

/-! ## 1. Scopes that were read -/

/-- An inner scope as it can be read. -/
structure Inner.IsRead (i : Inner) : Prop where
  duration : ∀ d ∈ i.duration, d.IsRead
  period : ∀ d ∈ i.period, d.IsRead

/-- A cadence as it can be read. -/
def Cadence.IsRead : Cadence → Prop
  | .once period => ∀ d ∈ period, d.IsRead
  | .every period inner => period.IsRead ∧ inner.IsRead
  | .cron table inner => table.IsRead ∧ inner.IsRead

/-- A scope as it can be read. -/
structure Scope.IsRead (s : Scope) : Prop where
  start : s.start.IsRead
  extent : s.extent.IsRead
  cadence : s.cadence.IsRead
  fault : s.fault? = none

/-- The scope with its bounds cut down to microseconds. -/
def Scope.toMicros (s : Scope) : Scope :=
  { s with start := s.start.toMicros, extent := s.extent.toMicros }

/-! ## 2. Inner scopes -/

/-- An inner scope is written as a plain one that starts when it is due. -/
def Inner.plain (i : Inner) : PlainScope :=
  ⟨.now, match i.duration with
    | some d => .lasting d
    | none => .point, i.period⟩

theorem Inner.isRead_plain (i : Inner) (h : i.IsRead) : i.plain.IsRead := by
  refine ⟨trivial, ?_, h.period⟩
  rw [plain]
  cases hd : i.duration with
  | none => trivial
  | some d => exact h.duration d hd

theorem Inner.toMicros_plain (i : Inner) : i.plain.toMicros = i.plain := by
  rw [plain]
  cases i.duration <;> rfl

namespace Scope

/-- What stands before the inner scope. -/
def openSign : List Char := " \x7b ".toList

/-- What stands behind the inner scope. -/
def closeSign : List Char := " \x7d".toList

/-- What stands before the crontab. -/
def cronSign : List Char := " cron ".toList

/-- What stands before a repeated scope. -/
def repeatSign : List Char := "repeat ".toList

theorem toList_innerText (i : Inner) :
    (innerText i).toList = openSign ++ (i.plain.text.toList ++ closeSign) := by
  rw [innerText, Inner.plain, PlainScope.text]
  cases i.duration with
  | none => simp [extentText, openSign, closeSign, Bound.text]
  | some d => simp [extentText, openSign, closeSign, Bound.text]

theorem readInner_text {i : Inner} (h : i.IsRead) (whole : List Char) :
    readInner (i.plain.text.toList ++ closeSign) whole = .ok i := by
  have hplain := i.isRead_plain h
  have htrim : trimEnd (i.plain.text.toList ++ closeSign) = i.plain.text.toList ++ closeSign := by
    refine trimEnd_of_getLast fun c hc => ?_
    rw [List.getLast?_append_of_ne_nil _ (by decide)] at hc
    cases hc
    decide
  have hopen : dropTail? ['\x7d'] (i.plain.text.toList ++ closeSign)
      = some (i.plain.text.toList ++ [' ']) := by
    rw [show closeSign = [' '] ++ ['\x7d'] from rfl, ← List.append_assoc]
    exact dropTail?_append _ _
  have hread : PlainScope.read (trim (i.plain.text.toList ++ [' '])) = .ok i.plain := by
    rw [trim_append_blank (PlainScope.snug_text hplain) (PlainScope.text_ne_nil _),
      PlainScope.read_text hplain, Inner.toMicros_plain]
  rw [readInner, htrim, hopen]
  simp only [hread, bind, Except.bind]
  rw [Inner.plain]
  cases hd : i.duration with
  | none =>
    simp only [← hd]
  | some d => simp only [← hd]

theorem isRead_of_readInner {s whole : List Char} {i : Inner} (h : readInner s whole = .ok i) :
    i.IsRead := by
  rw [readInner] at h
  split at h
  · cases h
  · obtain ⟨p, hp, h⟩ := bind_eq_ok_iff.1 h
    have hread := PlainScope.isRead_of_read hp
    split at h
    · cases h
      exact ⟨fun d hd => (by cases hd), hread.period⟩
    · rename_i d hstart hextent
      cases h
      refine ⟨fun e he => ?_, hread.period⟩
      cases he
      have hlasting := hread.extent
      rw [hextent] at hlasting
      exact hlasting
    · cases h

/-! ## 3. Scopes -/

/-- The plain scope in a scope: the whole of one that is not repeated. -/
def plain (s : Scope) : PlainScope := ⟨s.start, s.extent, s.period?⟩

/-- The text of a scope as a row of characters. -/
theorem toList_text (s : Scope) : s.text.toList =
    match s.cadence with
    | .once _ => s.plain.text.toList
    | .every _ i =>
      repeatSign ++ (s.plain.text.toList ++ openSign ++ (i.plain.text.toList ++ closeSign))
    | .cron table i =>
      repeatSign ++ (s.plain.text.toList ++ cronSign ++ table.write ++ openSign
        ++ (i.plain.text.toList ++ closeSign)) := by
  rw [text]
  cases hc : s.cadence with
  | once period => rfl
  | every period i =>
    simp only [String.toList_append, toList_innerText, List.append_assoc]
    simp only [plain, PlainScope.text, String.toList_append, List.append_assoc]
    rfl
  | cron table i =>
    simp only [String.toList_append, toList_innerText, List.append_assoc, String.toList_ofList]
    simp only [plain, PlainScope.text, String.toList_append, List.append_assoc]
    rfl

theorem isRead_plain {s : Scope} (h : s.IsRead) : s.plain.IsRead := by
  refine ⟨h.start, h.extent, ?_⟩
  have hcadence := h.cadence
  rw [plain, period?]
  cases hc : s.cadence with
  | once period =>
    rw [hc] at hcadence
    exact hcadence
  | every period i =>
    rw [hc] at hcadence
    rintro d ⟨⟩
    exact hcadence.1
  | cron table i => rintro d ⟨⟩

/-- Cutting bounds to microseconds breaks no rule: a fixed bound stays one. -/
theorem fault?_toMicros (s : Scope) : s.toMicros.fault? = s.fault? := by
  obtain ⟨start, extent, cadence⟩ := s
  have hopen : (start.toMicros = .future ↔ start = .future)
      ∧ (start.toMicros = .past ↔ start = .past) := by
    cases start <;> simp [Bound.toMicros]
  have hlast : last? ⟨start.toMicros, extent.toMicros, cadence⟩ = some .past
      ↔ last? ⟨start, extent, cadence⟩ = some .past := by
    cases extent with
    | through last => cases last <;> simp [last?, Extent.toMicros, Bound.toMicros]
    | _ => rfl
  have hlasting : extent.toMicros.isLasting = extent.isLasting := by cases extent <;> rfl
  simp only [toMicros, fault?, hopen, hlast, hlasting]
  rfl

/-- No plain scope begins like a repeated one. -/
theorem dropLead?_repeatSign (p : PlainScope) : dropLead? repeatSign p.text.toList = none := by
  refine dropLead?_eq_none fun r hr => ?_
  have hhead : 'r' ∈ p.start.text.toList.head? := by
    have h : 'r' ∈ p.text.toList.head? := by
      rw [hr]
      rfl
    rw [PlainScope.text, String.toList_append, String.toList_append, List.append_assoc,
      List.head?_append_of_ne_nil _ p.start.text_ne_nil] at h
    exact h
  exact absurd (Bound.head?_text hhead) (by decide)

/-- A plain scope is written with digits and the characters of its words and marks. -/
theorem not_mem_text {p : PlainScope} {c : Char} (hdigit : c.isDigit = false)
    (hmark : c ∉ "pastnowfuture-+ :.dhm/".toList) : c ∉ p.text.toList := by
  intro h
  obtain h | h := PlainScope.mem_text h
  · rw [hdigit] at h
    cases h
  · exact hmark h

/-- The text of a scope is one line. -/
theorem lineBreak_not_mem_text (s : Scope) : '\n' ∉ s.text.toList := by
  have hplain : ∀ p : PlainScope, '\n' ∉ p.text.toList := fun p =>
    not_mem_text (by decide) (by decide)
  rw [toList_text]
  cases s.cadence with
  | once period => exact hplain _
  | every period i =>
    simp only [List.mem_append, not_or]
    exact ⟨by decide, ⟨hplain _, by decide⟩, hplain _, by decide⟩
  | cron table i =>
    have htable : '\n' ∉ table.write := Crontab.not_mem_write (by decide) (by decide)
    simp only [List.mem_append, not_or]
    exact ⟨by decide, ⟨⟨⟨hplain _, by decide⟩, htable⟩, by decide⟩, hplain _, by decide⟩

/-- The inner scope begins at the first brace. -/
theorem cut?_openSign {outer : List Char} (h : '\x7b' ∉ outer) (rest : List Char) :
    cut? openSign (outer ++ openSign ++ rest) = some (outer, rest) :=
  cut?_of_apart (by decide) (apart_of_not_mem_right h)

theorem readRepeated_every {p : PlainScope} {d : Span} {i : Inner} (hp : p.IsRead)
    (hd : p.period = some d) (hi : i.IsRead) (whole : List Char) :
    readRepeated (p.text.toList ++ openSign ++ (i.plain.text.toList ++ closeSign)) whole
      = checked ⟨p.start.toMicros, p.extent.toMicros, .every d i⟩ whole := by
  have hbrace : '\x7b' ∉ p.text.toList := not_mem_text (by decide) (by decide)
  have hcut : cut? " \x7b ".toList
      (p.text.toList ++ openSign ++ (i.plain.text.toList ++ closeSign)) = _ :=
    cut?_openSign hbrace _
  have hcron : cut? " cron ".toList p.text.toList = none :=
    cut?_eq_none_of_not_mem (c := 'c') (by decide) (not_mem_text (by decide) (by decide))
  rw [readRepeated, hcut]
  simp only [readInner_text hi, hcron, PlainScope.read_text hp, bind, Except.bind]
  simp only [PlainScope.toMicros, hd]

theorem readRepeated_cron {p : PlainScope} {table : Crontab} {i : Inner} (hp : p.IsRead)
    (hperiod : p.period = none) (ht : table.IsRead) (hi : i.IsRead) (whole : List Char) :
    readRepeated (p.text.toList ++ cronSign ++ table.write ++ openSign
      ++ (i.plain.text.toList ++ closeSign)) whole
      = checked ⟨p.start.toMicros, p.extent.toMicros, .cron table i⟩ whole := by
  have hbrace : '\x7b' ∉ p.text.toList ++ cronSign ++ table.write := by
    rw [List.mem_append, List.mem_append, not_or, not_or]
    exact ⟨⟨not_mem_text (by decide) (by decide), by decide⟩,
      Crontab.not_mem_write (by decide) (by decide)⟩
  have hcut : cut? " \x7b ".toList (p.text.toList ++ cronSign ++ table.write ++ openSign
      ++ (i.plain.text.toList ++ closeSign)) = _ :=
    cut?_openSign hbrace _
  have hcron : cut? " cron ".toList (p.text.toList ++ cronSign ++ table.write)
      = some (p.text.toList, table.write) :=
    cut?_of_apart (by decide) (apart_of_not_mem_right (not_mem_text (by decide) (by decide)))
  rw [readRepeated, hcut]
  simp only [readInner_text hi, hcron, Crontab.read_write ht, PlainScope.read_text hp, bind,
    Except.bind, Except.map]
  simp only [PlainScope.toMicros, hperiod]

theorem checked_eq_ok {s : Scope} (h : s.fault? = none) (whole : List Char) :
    checked s whole = .ok s := by
  rw [checked, h]

theorem read_repeated {s : String} {outer rest : List Char}
    (h : s.toList = repeatSign ++ (outer ++ (rest ++ closeSign))) :
    read s = readRepeated (outer ++ (rest ++ closeSign)) s.toList := by
  have hsnug : Snug s.toList := by
    rw [h]
    refine ⟨fun c hc => ?_, fun c hc => ?_⟩
    · obtain rfl : 'r' = c := Option.some.inj hc
      decide
    · rw [← List.append_assoc, ← List.append_assoc, List.getLast?_append_of_ne_nil _ (by decide)]
      at hc
      obtain rfl : '\x7d' = c := Option.some.inj hc
      decide
  have hlead : dropLead? "repeat ".toList s.toList = some (outer ++ (rest ++ closeSign)) := by
    rw [h]
    exact dropLead?_append repeatSign _
  rw [read, trim_of_snug hsnug]
  simp only [hlead]

/-- What is written for a plain scope is read part by part, and then it is looked at whether it
breaks a rule. -/
theorem read_text_of_once {s : Scope} {period : Option Span} (h : s.plain.IsRead)
    (hcadence : s.cadence = .once period) : read s.text = checked s.toMicros s.text.toList := by
  have hperiod : s.plain.period = period := by rw [plain, period?, hcadence]
  have hlead : dropLead? "repeat ".toList s.plain.text.toList = none :=
    dropLead?_repeatSign s.plain
  have htext := s.toList_text
  rw [hcadence] at htext
  simp only at htext
  rw [read, htext, trim_of_snug (PlainScope.snug_text h)]
  simp only [hlead, PlainScope.read_text h, bind, Except.bind, PlainScope.toMicros, hperiod]
  rw [toMicros, hcadence]
  rfl

/-- What is written for a scope that was read is read as that scope, down to the microsecond. -/
theorem read_text {s : Scope} (h : s.IsRead) : read s.text = .ok s.toMicros := by
  have hplain := isRead_plain h
  have hcadence := h.cadence
  have hchecked : ∀ whole, checked s.toMicros whole = .ok s.toMicros :=
    checked_eq_ok (s.fault?_toMicros.trans h.fault)
  have htext := s.toList_text
  cases hc : s.cadence with
  | once period => rw [read_text_of_once hplain hc, hchecked]
  | every period i =>
    rw [hc] at htext hcadence
    have hperiod : s.plain.period = some period := by rw [plain, period?, hc]
    rw [read_repeated htext, readRepeated_every hplain hperiod hcadence.2, ← hchecked, toMicros, hc]
    rfl
  | cron table i =>
    rw [hc] at htext hcadence
    have hperiod : s.plain.period = none := by rw [plain, period?, hc]
    rw [read_repeated htext, readRepeated_cron hplain hperiod hcadence.1 hcadence.2, ← hchecked,
      toMicros, hc]
    rfl

theorem isRead_of_checked {s t : Scope} {whole : List Char} (hstart : s.start.IsRead)
    (hextent : s.extent.IsRead) (hcadence : s.cadence.IsRead) (h : checked s whole = .ok t) :
    t.IsRead := by
  rw [checked] at h
  split at h
  · cases h
  · rename_i hfault
    cases h
    exact ⟨hstart, hextent, hcadence, hfault⟩

theorem isRead_of_readRepeated {s whole : List Char} {t : Scope}
    (h : readRepeated s whole = .ok t) :
    t.IsRead := by
  rw [readRepeated] at h
  split at h
  · cases h
  · obtain ⟨i, hi, h⟩ := bind_eq_ok_iff.1 h
    have hinner := isRead_of_readInner hi
    split at h
    · obtain ⟨⟨outer, table⟩, htable, h⟩ := bind_eq_ok_iff.1 h
      obtain ⟨c, hc, heq⟩ := map_eq_ok_iff.1 htable
      cases heq
      obtain ⟨p, hp, h⟩ := bind_eq_ok_iff.1 h
      have hread := PlainScope.isRead_of_read hp
      cases hperiod : p.period with
      | some d =>
        rw [hperiod] at h
        cases h
      | none =>
        rw [hperiod] at h
        exact isRead_of_checked hread.start hread.extent
          (show Cadence.IsRead (.cron c i) from ⟨Crontab.isRead_of_read hc, hinner⟩) h
    · obtain ⟨⟨outer, table⟩, htable, h⟩ := bind_eq_ok_iff.1 h
      cases htable
      obtain ⟨p, hp, h⟩ := bind_eq_ok_iff.1 h
      have hread := PlainScope.isRead_of_read hp
      cases hperiod : p.period with
      | some d =>
        rw [hperiod] at h
        exact isRead_of_checked hread.start hread.extent
          (show Cadence.IsRead (.every d i) from ⟨hread.period d hperiod, hinner⟩) h
      | none =>
        rw [hperiod] at h
        cases h

theorem isRead_of_read {s : String} {t : Scope} (h : read s = .ok t) : t.IsRead := by
  rw [read] at h
  split at h
  · exact isRead_of_readRepeated h
  · obtain ⟨p, hp, h⟩ := bind_eq_ok_iff.1 h
    have hread := PlainScope.isRead_of_read hp
    exact isRead_of_checked hread.start hread.extent
      (show Cadence.IsRead (.once _) from hread.period) h

theorem isRead_nowToFuture : nowToFuture.IsRead :=
  ⟨trivial, trivial, fun d hd => (by cases hd), by decide⟩

/-! ## 4. Times -/

/-- The times that a scope names. -/
def times (s : Scope) : List Instant := s.start.times ++ s.extent.times

/-- A time that a scope names was read with it. -/
theorem isCivil_of_mem_times {s : Scope} (h : s.IsRead) {t : Instant} (ht : t ∈ s.times) :
    t.IsCivil := by
  have hbound : ∀ {b : Bound}, b.IsRead → t ∈ b.times → t.IsCivil := by
    intro b hb hmem
    cases b with
    | fixed u =>
      rw [List.mem_singleton.1 hmem]
      exact hb
    | _ => cases hmem
  rw [times, List.mem_append] at ht
  obtain hstart | hextent := ht
  · exact hbound h.start hstart
  · have hread := h.extent
    cases he : s.extent with
    | through last =>
      rw [he] at hextent hread
      exact hbound (show last.IsRead from hread) hextent
    | _ =>
      rw [he] at hextent
      cases hextent

theorem toMicros_of_whole {s : Scope} (h : ∀ t ∈ s.times, t.nano % 1000 = 0) : s.toMicros = s := by
  rw [times, List.forall_mem_append] at h
  rw [toMicros, Bound.toMicros_of_whole h.1, Extent.toMicros_of_whole h.2]

@[simp] theorem text_toMicros (s : Scope) : s.toMicros.text = s.text := by
  have hstart : s.toMicros.start.text = s.start.text := Bound.text_toMicros _
  have hextent : extentText s.toMicros.extent = extentText s.extent :=
    Extent.extentText_toMicros _
  simp only [text, hstart, hextent]
  rfl

/-! ## 5. The way back -/

/-- A scope that was read from a text, and whose times have no part below a microsecond, is what its
own text denotes. So no other such scope is written as it is, and its text stays as it is when it is
read and written again. -/
theorem written_scope_comes_back {source : String} {s : Scope} (hread : read source = .ok s)
    (hwhole : ∀ t ∈ s.times, t.nano % 1000 = 0) :
    read s.text = .ok s
      ∧ (∀ (other : String) (r : Scope), read other = .ok r →
        (∀ t ∈ r.times, t.nano % 1000 = 0) → r.text = s.text → r = s)
      ∧ (read s.text).map text = .ok s.text := by
  have hback : ∀ (source : String) (r : Scope), read source = .ok r →
      (∀ t ∈ r.times, t.nano % 1000 = 0) → read r.text = .ok r := by
    intro source r hr hwhole
    rw [read_text (isRead_of_read hr), toMicros_of_whole hwhole]
  have hself := hback source s hread hwhole
  refine ⟨hself, fun other r hr hrwhole htext => ?_, ?_⟩
  · have hother := hback other r hr hrwhole
    rw [htext, hself] at hother
    exact (Except.ok.inj hother).symm
  · rw [hself]
    rfl

/-- Every hour and a half, from a leap second before our era to the last year of the calendar. -/
def fromLeapSecond : Scope :=
  ⟨.fixed (.ofParts (dayOfDate ⟨-12, 12, 31⟩) 86399 1250000000),
    .through (.fixed (.ofParts (dayOfDate ⟨262142, 1, 1⟩) 0 0)),
    .every (.ofSeconds 5400) ⟨some (.ofSeconds 300), some (.ofSeconds 1)⟩⟩

theorem fromLeapSecond_comes_back :
    read " repeat  -12-12-31T23:59:60.25 ... +262142-01-01 / 90m \x7b now + 300s / 1s\x7d"
        = .ok fromLeapSecond
      ∧ (∀ t ∈ fromLeapSecond.times, t.nano % 1000 = 0)
      ∧ read fromLeapSecond.text = .ok fromLeapSecond := by
  have hread :
      read " repeat  -12-12-31T23:59:60.25 ... +262142-01-01 / 90m \x7b now + 300s / 1s\x7d"
      = .ok fromLeapSecond := by
    decide +kernel
  have hwhole : ∀ t ∈ fromLeapSecond.times, t.nano % 1000 = 0 := by decide +kernel
  exact ⟨hread, hwhole, (written_scope_comes_back hread hwhole).1⟩

end Scope

end Measurement
