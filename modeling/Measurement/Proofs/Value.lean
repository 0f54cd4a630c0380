/-
Values and their texts.

The text of a value holds no blanks at its ends and, if it is no string, nothing
that stands between values: no comma unless it is a URL, and no blank before a
point. So values are found again where several are written in a row. What is
written for a value that was read is read as that value, down to the microsecond;
of real numbers and addresses this is supposed here (`Value.ReadsBack`), and of
addresses it is so (`Value.readsBack_of_ne_real`).
-/
import Measurement.Value
import Measurement.Proofs.Readers
import Measurement.Proofs.Time.Text
import Mathlib.Data.String.Basic

set_option autoImplicit false

namespace Measurement

open Measurement.Text

/-! ## 1. The characters of numbers and addresses -/

theorem Binary64.mem_plainDigits {x : Scaled} {c : Char} (h : c ∈ plainDigits x) :
    c.isDigit = true ∨ c = '.' := by
  have hzero : ∀ {n : Nat}, c ∈ List.replicate n '0' → c.isDigit = true := by
    intro n hc
    rw [List.eq_of_mem_replicate hc]
    decide
  unfold plainDigits at h
  dsimp only at h
  split at h
  · exact Or.inl ((List.mem_append.1 h).elim isDigit_of_mem_decimal hzero)
  · split at h
    · rw [List.mem_append, List.mem_cons] at h
      obtain h | rfl | h := h
      · exact Or.inl (isDigit_of_mem_decimal (List.mem_of_mem_take h))
      · exact Or.inr rfl
      · exact Or.inl (isDigit_of_mem_decimal (List.mem_of_mem_drop h))
    · rw [List.mem_cons, List.mem_cons, List.mem_append] at h
      obtain rfl | rfl | h | h := h
      · exact Or.inl (by decide)
      · exact Or.inr rfl
      · exact Or.inl (hzero h)
      · exact Or.inl (isDigit_of_mem_decimal h)

theorem Binary64.mem_plain {x : Binary64} {c : Char} (h : c ∈ x.plain.toList) :
    c.isDigit = true ∨ c ∈ "NaNinf-.".toList := by
  have hword : ∀ {w : List Char}, w ⊆ "NaNinf-.".toList → c ∈ w →
      c.isDigit = true ∨ c ∈ "NaNinf-.".toList := fun hsub hc => Or.inr (hsub hc)
  cases x with
  | nan => exact hword (by decide) h
  | number negative rank =>
    have hsigned : ∀ {w : String}, c ∈ ((if negative = true then "-" else "") ++ w).toList →
        (c ∈ w.toList → c.isDigit = true ∨ c ∈ "NaNinf-.".toList) →
        c.isDigit = true ∨ c ∈ "NaNinf-.".toList := by
      intro w hc hw
      rw [String.toList_append, List.mem_append] at hc
      refine hc.elim (fun hsign => hword (w := ['-']) (by decide) ?_) hw
      cases negative
      · exact absurd hsign List.not_mem_nil
      · exact hsign
    unfold plain at h
    dsimp only at h
    split at h
    · exact hsigned h fun _ => Or.inl (by simp_all)
    · split at h
      · exact hsigned h fun hc => hword (by decide) hc
      · refine hsigned h fun hc => ?_
        rw [String.toList_ofList] at hc
        obtain hc | rfl := mem_plainDigits hc
        · exact Or.inl hc
        · exact hword (w := ['.']) (by decide) List.mem_cons_self

theorem Text.mem_hexadecimal {n : Nat} {c : Char} (h : c ∈ hexadecimal n) :
    c.isDigit = true ∨ c ∈ "abcdef".toList := by
  have hdigit : ∀ d < 16, (Nat.digitChar d).isDigit = true ∨ Nat.digitChar d ∈ "abcdef".toList := by
    decide
  induction n using Nat.strongRecOn with
  | ind n ih =>
    rw [hexadecimal, Nat.toDigits_eq_if (by decide)] at h
    split at h
    · rename_i hlt
      rw [List.mem_singleton.1 h]
      exact hdigit n hlt
    · rename_i hle
      rw [List.mem_append, List.mem_singleton] at h
      obtain h | rfl := h
      · exact ih (n / 16) (by omega) h
      · exact hdigit (n % 16) (Nat.mod_lt n (by decide))

theorem Address.writeV6_form (gs : List UInt16) :
    (∃ os, writeV6 gs = "::ffff:".toList ++ writeOctets os)
      ∨ (∃ xs ys, writeV6 gs
        = writeGroups xs ++ ':' :: ':' :: writeGroups ys)
      ∨ writeV6 gs = writeGroups gs := by
  unfold writeV6
  split
  · exact Or.inl ⟨_, rfl⟩
  · dsimp only
    split
    · exact Or.inr (Or.inl ⟨_, _, rfl⟩)
    · exact Or.inr (Or.inr rfl)

theorem Address.mem_write {a : Address} {c : Char} (h : c ∈ a.write) :
    c.isDigit = true ∨ c ∈ "abcdef.:".toList := by
  have hoctets : ∀ {os : List UInt8}, c ∈ writeOctets os →
      c.isDigit = true ∨ c ∈ "abcdef.:".toList := by
    intro os hc
    obtain hc | ⟨i, hi, hc⟩ := mem_of_mem_intercalate hc
    · rw [List.mem_singleton.1 hc]
      exact Or.inr (by decide)
    · obtain ⟨o, -, rfl⟩ := List.mem_map.1 hi
      exact Or.inl (isDigit_of_mem_decimal hc)
  have hgroups : ∀ {gs : List UInt16}, c ∈ writeGroups gs →
      c.isDigit = true ∨ c ∈ "abcdef.:".toList := by
    intro gs hc
    obtain hc | ⟨i, hi, hc⟩ := mem_of_mem_intercalate hc
    · rw [List.mem_singleton.1 hc]
      exact Or.inr (by decide)
    · obtain ⟨g, -, rfl⟩ := List.mem_map.1 hi
      exact digit_or_mem_mono (by decide) (mem_hexadecimal hc)
  cases a with
  | v4 octets => exact hoctets h
  | v6 groups =>
    rw [write] at h
    obtain ⟨os, he⟩ | ⟨xs, ys, he⟩ | he := writeV6_form groups.toList
    · rw [he, List.mem_append] at h
      have hsub : "::ffff:".toList ⊆ "abcdef.:".toList := by decide
      exact h.elim (fun hc => Or.inr (hsub hc)) hoctets
    · rw [he, List.mem_append, List.mem_cons, List.mem_cons] at h
      obtain h | rfl | rfl | h := h
      · exact hgroups h
      · exact Or.inr (by decide)
      · exact Or.inr (by decide)
      · exact hgroups h
    · rw [he] at h
      exact hgroups h

/-! ## 2. The texts of instants -/

theorem readInstant_eq_ok_iff {s : String} {t : Instant} :
    readInstant s = .ok t ↔ Instant.read? s.toList = some t := by
  have hread : readInstant s = (Instant.read? s.toList).elim (.error (.invalidTime s)) .ok := by
    delta readInstant
    cases Instant.read? s.toList <;> rfl
  rw [hread]
  cases Instant.read? s.toList with
  | none => exact ⟨fun h => (by cases h), fun h => (by cases h)⟩
  | some u =>
    exact ⟨fun h => congrArg some (Except.ok.inj h),
      fun h => congrArg Except.ok (Option.some.inj h)⟩

/-- What is written for an instant is read as the instant, to the microsecond. -/
theorem readInstant_text {t : Instant} (h : t.IsCivil) : readInstant t.text = .ok t.toMicros := by
  rw [readInstant_eq_ok_iff, Instant.text, String.toList_ofList]
  exact Instant.read?_write h

/-- Those instants can be read that can be written and read again. -/
theorem exists_readInstant_iff {t : Instant} : (∃ s, readInstant s = .ok t) ↔ t.IsCivil := by
  constructor
  · rintro ⟨s, hs⟩
    exact Instant.isCivil_of_read? (readInstant_eq_ok_iff.1 hs)
  · intro h
    obtain ⟨s, hs⟩ := Instant.exists_read? h
    refine ⟨String.ofList s, ?_⟩
    rw [readInstant_eq_ok_iff, String.toList_ofList]
    exact hs

namespace Value

/-! ## 3. The primitive of a value that is read -/

theorem primitive_of_ofSnug? {p : Primitive} {s : List Char} {v : Value}
    (h : ofSnug? p s = some v) : v.primitive = p := by
  cases p with
  | string =>
    cases h
    rfl
  | natural =>
    obtain ⟨n, -, rfl⟩ := Option.map_eq_some_iff.1 h
    rfl
  | real =>
    obtain ⟨x, -, rfl⟩ := Option.map_eq_some_iff.1 h
    rfl
  | boolean =>
    rw [ofSnug?] at h
    split at h
    · cases h
      rfl
    · split at h
      · cases h
        rfl
      · cases h
  | time =>
    obtain ⟨t, -, rfl⟩ := Option.map_eq_some_iff.1 h
    rfl
  | address =>
    obtain ⟨a, -, rfl⟩ := Option.map_eq_some_iff.1 h
    rfl
  | url =>
    rw [ofSnug?] at h
    split at h
    · cases h
      rfl
    · cases h

theorem read_eq_ok_iff {p : Primitive} {s : String} {v : Value} :
    read p s = .ok v ↔ ofSnug? p (trim s.toList) = some v := by
  rw [read]
  split
  · rename_i w hw
    rw [hw, Except.ok.injEq, Option.some.injEq]
  · rename_i hnone
    rw [hnone]
    exact ⟨fun h => (by cases h), fun h => (by cases h)⟩

theorem primitive_of_read {p : Primitive} {s : String} {v : Value} (h : read p s = .ok v) :
    v.primitive = p :=
  primitive_of_ofSnug? (read_eq_ok_iff.1 h)

theorem readOptional_eq_some_iff {p : Primitive} {s : String} {v : Value} :
    readOptional p s = .ok (some v) ↔ trim s.toList ≠ absent.toList ∧ read p s = .ok v := by
  rw [readOptional]
  split
  · rename_i habsent
    exact ⟨fun h => (by cases h), fun h => absurd habsent h.1⟩
  · rename_i habsent
    rw [map_eq_ok_iff]
    constructor
    · rintro ⟨w, hw, hv⟩
      cases hv
      exact ⟨habsent, hw⟩
    · exact fun h => ⟨v, h.2, rfl⟩

theorem primitive_of_readOptional {p : Primitive} {s : String} {v : Value}
    (h : readOptional p s = .ok (some v)) : v.primitive = p :=
  primitive_of_read (readOptional_eq_some_iff.1 h).2

/-! ## 4. Values that were read -/

/-- A value as it can be read. -/
def IsRead : Value → Prop
  | string s => Snug s.toList
  | time t => t.IsCivil
  | url s => ':' ∈ s.toList ∧ ∀ c ∈ s.toList, isBlank c = false
  | _ => True

/-- Whether the text of a real number or of an address is read as what it was written for. -/
def ReadsBack : Value → Prop
  | real x => Binary64.read? x.plain.toList = some x
  | address a => Address.read? a.write = some a
  | _ => True

instance (v : Value) : Decidable v.ReadsBack :=
  match v with
  | string _ | natural _ | boolean _ | time _ | url _ => isTrue trivial
  | real x => inferInstanceAs (Decidable (Binary64.read? x.plain.toList = some x))
  | address a => inferInstanceAs (Decidable (Address.read? a.write = some a))

theorem isRead_of_read {p : Primitive} {s : String} {v : Value} (h : read p s = .ok v) :
    v.IsRead := by
  rw [read_eq_ok_iff] at h
  cases p with
  | string =>
    cases h
    rw [IsRead, String.toList_ofList]
    exact snug_trim _
  | natural =>
    obtain ⟨n, -, rfl⟩ := Option.map_eq_some_iff.1 h
    trivial
  | real =>
    obtain ⟨x, -, rfl⟩ := Option.map_eq_some_iff.1 h
    trivial
  | boolean =>
    rw [ofSnug?] at h
    split at h
    · cases h
      trivial
    · split at h
      · cases h
        trivial
      · cases h
  | time =>
    obtain ⟨t, ht, rfl⟩ := Option.map_eq_some_iff.1 h
    exact Instant.isCivil_of_read? ht
  | address =>
    obtain ⟨a, -, rfl⟩ := Option.map_eq_some_iff.1 h
    trivial
  | url =>
    rw [ofSnug?] at h
    split at h
    · rename_i hform
      rw [Bool.and_eq_true, List.contains_iff_mem, Bool.not_eq_true'] at hform
      cases h
      rw [IsRead, String.toList_ofList]
      exact ⟨hform.1, fun c hc => Bool.eq_false_iff.2 (List.any_eq_false.1 hform.2 c hc)⟩
    · cases h

/-! ## 5. The characters of a text -/

/-- The texts of all but strings, times and URLs are made of digits and a few other characters. -/
theorem mem_text {v : Value} {c : Char} (hstring : v.primitive ≠ .string)
    (htime : v.primitive ≠ .time) (hurl : v.primitive ≠ .url) (h : c ∈ v.text.toList) :
    c.isDigit = true ∨ c ∈ "NaNinf-.abcdef:TrueFalse".toList := by
  cases v with
  | string s => exact absurd rfl hstring
  | time t => exact absurd rfl htime
  | url s => exact absurd rfl hurl
  | natural n =>
    rw [text, String.toList_ofList] at h
    exact Or.inl (isDigit_of_mem_decimal h)
  | real x => exact digit_or_mem_mono (by decide) (Binary64.mem_plain h)
  | boolean b =>
    refine digit_or_mem_mono (m := "TrueFalse".toList) (by decide) (Or.inr ?_)
    cases b
    · exact List.mem_append_right "True".toList h
    · exact List.mem_append_left "False".toList h
  | address a =>
    rw [text, String.toList_ofList] at h
    exact digit_or_mem_mono (by decide) (Address.mem_write h)

/-- So are those of times, with a blank and a sign. -/
theorem mem_text_or_time {v : Value} {c : Char} (hstring : v.primitive ≠ .string)
    (hurl : v.primitive ≠ .url) (h : c ∈ v.text.toList) :
    c.isDigit = true ∨ c ∈ "NaNinf-.abcdef:TrueFalse +".toList := by
  by_cases htime : v.primitive = .time
  · cases v with
    | time t =>
      rw [text, Instant.text, String.toList_ofList] at h
      exact digit_or_mem_mono (by decide) (Instant.mem_write h)
    | _ => cases htime
  · exact digit_or_mem_mono (by decide) (mem_text hstring htime hurl h)

/-- Where the text of a value holds blanks, it is a string or a time. -/
theorem isBlank_of_mem_text {v : Value} {c : Char} (hstring : v.primitive ≠ .string)
    (htime : v.primitive ≠ .time) (hread : v.IsRead) (h : c ∈ v.text.toList) :
    isBlank c = false := by
  by_cases hurl : v.primitive = .url
  · cases v with
    | url s => exact hread.2 c h
    | _ => cases hurl
  · obtain hdigit | hmark := mem_text hstring htime hurl h
    · exact isBlank_of_isDigit hdigit
    · have hmarks : ∀ d ∈ "NaNinf-.abcdef:TrueFalse".toList, isBlank d = false :=
        eq_false_of_all (by decide)
      exact hmarks c hmark

theorem snug_text {v : Value} (h : v.IsRead) : Snug v.text.toList := by
  by_cases hstring : v.primitive = .string
  · cases v with
    | string s => exact h
    | _ => cases hstring
  · by_cases htime : v.primitive = .time
    · cases v with
      | time t =>
        rw [text, Instant.text, String.toList_ofList]
        exact Instant.snug_write t
      | _ => cases htime
    · exact snug_of_forall fun c hc => isBlank_of_mem_text hstring htime h hc

/-- No blank stands before a point in the text of a value that is no string. -/
theorem apart_text {v : Value} (hstring : v.primitive ≠ .string) (h : v.IsRead) :
    Apart ' ' '.' v.text.toList := by
  by_cases htime : v.primitive = .time
  · cases v with
    | time t =>
      rw [text, Instant.text, String.toList_ofList]
      exact Instant.apart_blank_write t rfl
    | _ => cases htime
  · refine apart_of_not_mem_left fun hc => ?_
    have hblank := isBlank_of_mem_text hstring htime h hc
    exact absurd hblank (by decide)

/-- No comma stands in the text of a value that is neither a string nor a URL. -/
theorem comma_not_mem_text {v : Value} (hstring : v.primitive ≠ .string)
    (hurl : v.primitive ≠ .url) : ',' ∉ v.text.toList := fun h =>
  absurd (mem_text_or_time hstring hurl h) (by decide)

/-- Only a string is written like an absent value. -/
theorem text_ne_absent {v : Value} (hstring : v.primitive ≠ .string) (h : v.IsRead) :
    v.text.toList ≠ absent.toList := by
  intro he
  by_cases hurl : v.primitive = .url
  · cases v with
    | url s =>
      have hcolon : ':' ∈ absent.toList := he ▸ h.1
      exact absurd hcolon (by decide)
    | _ => cases hurl
  · have hstar : '*' ∈ v.text.toList := by
      rw [he]
      exact List.mem_cons_self
    exact absurd (mem_text_or_time hstring hurl hstar) (by decide)

/-- The text of a string or a URL is the one that it was read from, without the blanks around it. -/
theorem text_of_read {p : Primitive} {s : String} {v : Value} (hp : p = .string ∨ p = .url)
    (h : read p s = .ok v) : v.text.toList = trim s.toList := by
  rw [read_eq_ok_iff] at h
  obtain rfl | rfl := hp
  · cases h
    exact String.toList_ofList
  · rw [ofSnug?] at h
    split at h
    · cases h
      exact String.toList_ofList
    · cases h

/-! ## 6. Reading what is written -/

/-- The value, a time cut down to microseconds. -/
def toMicros : Value → Value
  | time t => time t.toMicros
  | v => v

/-- The time that a value is. -/
def times : Value → List Instant
  | time t => [t]
  | _ => []

theorem toMicros_of_whole {v : Value} (h : ∀ t ∈ v.times, t.nano % 1000 = 0) : v.toMicros = v := by
  cases v with
  | time t => exact congrArg time (Instant.toMicros_of_whole (h t (List.mem_singleton.2 rfl)))
  | _ => rfl

@[simp] theorem text_toMicros (v : Value) : v.toMicros.text = v.text := by
  cases v with
  | time t => exact congrArg String.ofList t.write_toMicros
  | _ => rfl

/-- What is written for a value that was read is read as that value. -/
theorem read_text {v : Value} (h : v.IsRead) (hback : v.ReadsBack) :
    read v.primitive v.text = .ok v.toMicros := by
  rw [read_eq_ok_iff, trim_of_snug (snug_text h)]
  cases v with
  | string s => exact congrArg (fun t => some (string t)) (String.ofList_toList (s := s))
  | natural n =>
    have hbound : n.toNat ≤ Nat.pow 2 64 - 1 := Nat.le_sub_one_of_lt n.toNat_lt
    rw [text, String.toList_ofList, primitive, ofSnug?, natural?_decimal hbound]
    exact congrArg (fun k => some (natural k)) (UInt64.ofNat_toNat (x := n))
  | real x => exact congrArg (Option.map real) hback
  | boolean b => cases b <;> rfl
  | time t =>
    rw [text, Instant.text, String.toList_ofList, primitive, ofSnug?, Instant.read?_write h]
    rfl
  | address a =>
    rw [text, String.toList_ofList]
    exact congrArg (Option.map address) hback
  | url s =>
    have hform : (s.toList.contains ':' && !s.toList.any isBlank) = true := by
      rw [Bool.and_eq_true, List.contains_iff_mem, Bool.not_eq_true', List.any_eq_false]
      exact ⟨h.1, fun c hc => Bool.eq_false_iff.1 (h.2 c hc)⟩
    rw [text, primitive, ofSnug?, if_pos hform, String.ofList_toList]
    rfl

theorem text_ne_nil {v : Value} (hstring : v.primitive ≠ .string) (h : v.IsRead)
    (hback : v.ReadsBack) : v.text.toList ≠ [] := by
  intro hnil
  have hread := read_text h hback
  rw [read_eq_ok_iff, hnil] at hread
  cases v with
  | string s => exact hstring rfl
  | _ => cases hread

/-- Only for a string the text of a value can stand for none. -/
theorem readOptional_of_read {p : Primitive} {s : String} {v : Value} (h : read p s = .ok v)
    (hv : v ≠ .string absent) : readOptional p s = .ok (some v) := by
  refine readOptional_eq_some_iff.2 ⟨fun habsent => ?_, h⟩
  rw [read_eq_ok_iff, habsent] at h
  cases p with
  | string =>
    cases h
    exact hv rfl
  | _ => cases h

/-- So is the text of a value that may be absent. -/
theorem readOptional_textOrAbsent {p : Primitive} {s : String} {o : Option Value}
    (h : readOptional p s = .ok o) (hback : ∀ v ∈ o, v.ReadsBack) :
    readOptional p (textOrAbsent o) = .ok (o.map toMicros) := by
  cases o with
  | none => rfl
  | some v =>
    obtain ⟨habsent, hread⟩ := readOptional_eq_some_iff.1 h
    have hv := isRead_of_read hread
    have hprimitive := primitive_of_read hread
    subst hprimitive
    refine readOptional_eq_some_iff.2 ⟨?_, read_text hv (hback v rfl)⟩
    rw [textOrAbsent, trim_of_snug (snug_text hv)]
    by_cases hstring : v.primitive = .string
    · rw [text_of_read (Or.inl hstring) hread]
      exact habsent
    · exact text_ne_absent hstring hv

end Value

end Measurement
