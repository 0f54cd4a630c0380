/-
What is written for an instant is read as that instant, to the microsecond.

The text of an instant has the first of the forms that are tried: a date, a blank
and a time of day to the second, with six places of the second or none. Every
item of the form takes what was written for it and leaves the rest, since
numbers are written with as many digits as are taken, or with a mark behind them.
With nine places instead of six nothing is lost (`Instant.read?_writeWith`).

A leap second is written as second 60, and that is read as one after second 59.
So an instant can be read back if its leap second, if it is in one, is the last
of a minute. These are the instants that texts denote (`Instant.isCivil_of_read?`,
`Instant.exists_read?`).
-/
import Measurement.Time.Text
import Measurement.Proofs.Text.Cuts
import Measurement.Proofs.Text.Numeral
import Measurement.Proofs.Time.Sums

set_option autoImplicit false

namespace Measurement

open Measurement.Text Measurement.Time

/-! ## 1. Items -/

namespace Time

theorem takeNumber_digits {width n : Nat} {ds r : List Char} (hds : ∀ c ∈ ds, c.isDigit = true)
    (hn : digits? ds = some n) (hwidth : ds.length = width) :
    takeNumber width (ds ++ r) = some (n, r) := by
  have htake : ((ds ++ r).take width).takeWhile Char.isDigit = ds := by
    rw [← hwidth, List.take_left]
    have htakeWhile := takeWhile_digits hds endsDigits_nil
    rwa [List.append_nil] at htakeWhile
  rw [takeNumber]
  simp only [htake, hn, Option.map_some, List.drop_left]

/-- A number is taken to its end if there is no limit to its digits. -/
theorem takeNumber_all {n : Nat} {ds r : List Char} (hds : ∀ c ∈ ds, c.isDigit = true)
    (hr : EndsDigits r) (hn : digits? ds = some n) :
    takeNumber (ds ++ r).length (ds ++ r) = some (n, r) := by
  have htake : ((ds ++ r).take (ds ++ r).length).takeWhile Char.isDigit = ds := by
    rw [List.take_length]
    exact takeWhile_digits hds hr
  rw [takeNumber]
  simp only [htake, hn, Option.map_some, List.drop_left]

theorem trimStart_cons {c : Char} {s : List Char} (h : isBlank c = false) :
    trimStart (c :: s) = c :: s := by
  refine trimStart_of_head fun d hd => ?_
  cases hd
  exact h

theorem trimStart_digits {ds r : List Char} (hds : ∀ c ∈ ds, c.isDigit = true) (hnil : ds ≠ []) :
    trimStart (ds ++ r) = ds ++ r := by
  refine trimStart_of_head fun c hc => ?_
  rw [List.head?_append_of_ne_nil _ hnil] at hc
  exact isBlank_of_isDigit (hds c (List.mem_of_mem_head? hc))

/-- A number below one hundred. -/
theorem takePair_padded {n : Nat} (h : n < 100) (r : List Char) :
    takePair (padded 2 n ++ r) = some (n, r) := by
  have hdigits : ∀ c ∈ padded 2 n, c.isDigit = true := fun c hc => isDigit_of_mem_padded hc
  rw [takePair, trimStart_digits hdigits (padded_ne_nil 2 n)]
  exact takeNumber_digits hdigits (digits?_padded 2 n) (length_padded (by decide) h)

theorem takeYear_writeYear (year : Int) {r : List Char} (hr : EndsDigits r) :
    takeYear (writeYear year ++ r) = some (year, r) := by
  have hdigits : ∀ n, ∀ c ∈ padded 4 n, c.isDigit = true := fun n c hc => isDigit_of_mem_padded hc
  have hsigned : ∀ n, takeNumber (padded 4 n ++ r).length (padded 4 n ++ r) = some (n, r) :=
    fun n => takeNumber_all (hdigits n) hr (digits?_padded 4 n)
  rw [writeYear]
  split
  · rename_i h
    have hplaces : year.toNat < 10000 := by omega
    have hnumber : takeNumber 4 (padded 4 year.toNat ++ r) = some (year.toNat, r) :=
      takeNumber_digits (hdigits _) (digits?_padded 4 _) (length_padded (by decide) hplaces)
    rw [takeYear, trimStart_digits (hdigits _) (padded_ne_nil 4 _)]
    cases hcons : padded 4 year.toNat with
    | nil => exact absurd hcons (padded_ne_nil 4 _)
    | cons c ds =>
      have hc : c.isDigit = true := hdigits year.toNat c (by rw [hcons]; exact List.mem_cons_self)
      rw [hcons, List.cons_append] at hnumber
      rw [List.cons_append]
      split
      · rename_i heq
        rw [(List.cons.inj heq).1] at hc
        exact absurd hc (by decide)
      · rename_i heq
        rw [(List.cons.inj heq).1] at hc
        exact absurd hc (by decide)
      · rw [hnumber, Option.map_some, Option.some.injEq, Prod.mk.injEq]
        exact ⟨Int.toNat_of_nonneg h.1, rfl⟩
  · rename_i h
    by_cases hnegative : year < 0
    · rw [if_pos hnegative, List.cons_append, takeYear, trimStart_cons (by decide)]
      simp only [hsigned, Option.map_some, Option.some.injEq, Prod.mk.injEq, and_true]
      omega
    · rw [if_neg hnegative, List.cons_append, takeYear, trimStart_cons (by decide)]
      simp only [hsigned, Option.map_some, Option.some.injEq, Prod.mk.injEq, and_true]
      omega

/-- Up to nine places of the second are taken to their end. -/
theorem takeFraction_padded {width n : Nat} (hwidth : 0 < width) (hplaces : width ≤ 9)
    (h : n < Nat.pow 10 width) :
    takeFraction ('.' :: padded width n) = some (n * Nat.pow 10 (9 - width), []) := by
  have hdigits : ∀ c ∈ padded width n, c.isDigit = true := fun c hc => isDigit_of_mem_padded hc
  have hlength : (padded width n).length = width := length_padded hwidth h
  have htakeWhile := takeWhile_digits hdigits endsDigits_nil
  have hdropWhile := dropWhile_digits hdigits endsDigits_nil
  rw [List.append_nil] at htakeWhile hdropWhile
  rw [takeFraction]
  simp only [htakeWhile, hdropWhile]
  rw [List.take_of_length_le (by omega), digits?_padded, hlength]
  rfl

end Time

/-! ## 2. Whole microseconds -/

namespace Instant

/-- The instant with no more than its whole microseconds. -/
def toMicros (t : Instant) : Instant :=
  { t with nano := t.nano / 1000 * 1000, nano_lt := by have h := t.nano_lt; omega }

theorem toMicros_of_whole {t : Instant} (h : t.nano % 1000 = 0) : t.toMicros = t := by
  have hnano : t.nano / 1000 * 1000 = t.nano := by omega
  cases t
  simp only [toMicros] at hnano ⊢
  simp only [hnano]

theorem whole_toMicros (t : Instant) : t.toMicros.nano % 1000 = 0 :=
  Nat.mul_mod_left (t.nano / 1000) 1000

theorem toMicros_le (t : Instant) : t.toMicros ≤ t := by
  show t.toMicros.place ≤ t.place
  simp only [place, unixSeconds, toMicros]
  omega

/-- No instant of whole microseconds lies between. -/
theorem le_toMicros {t u : Instant} (hle : u ≤ t) (hwhole : u.nano % 1000 = 0) :
    u ≤ t.toMicros := by
  have hplace : u.place ≤ t.place := hle
  have hu := u.nano_lt
  have ht := t.nano_lt
  show u.place ≤ t.toMicros.place
  -- A place counts nanoseconds with room for a leap second in every second.
  simp only [place, unixSeconds, toMicros, nanosPerSecond] at *
  omega

@[simp] theorem isLeap_toMicros (t : Instant) : t.toMicros.isLeap = t.isLeap := by
  refine decide_eq_decide.2 ?_
  simp only [toMicros, nanosPerSecond]
  omega

/-- What is below a microsecond is not written. -/
theorem write_toMicros (t : Instant) : t.toMicros.write = t.write := by
  have hmicros : t.nano / 1000 * 1000 / 1000 = t.nano / 1000 := by omega
  have hwritten : writtenMicros t.toMicros = writtenMicros t := by
    simp only [writtenMicros, toMicros, nanosPerSecond]
    omega
  have hsecond : writtenSecond t.toMicros = writtenSecond t := by
    rw [writtenSecond, isLeap_toMicros]
    rfl
  rw [write, hwritten, hsecond, write]
  simp only [toMicros, hmicros]
  rfl

/-! ## 3. The parts of a text -/

/-- Whether an instant within a leap second is within the last second of a minute. -/
def IsCivil (t : Instant) : Prop := t.isLeap = true → t.secondOfMinute = 59

/-- A leap second is reached only from inside it. -/
theorem isCivil_of_add? {t u : Instant} {d : Span} (h : t.IsCivil) (hsum : t.add? d = some u) :
    u.IsCivil := by
  intro hleap
  obtain ⟨hu, -⟩ | ⟨hinside, hsecond, -⟩ := add?_cases hsum
  · rw [hu] at hleap
    cases hleap
  · rw [secondOfMinute, hsecond]
    exact h hinside

theorem isCivil_toMicros {t : Instant} (h : t.IsCivil) : t.toMicros.IsCivil := by
  rw [IsCivil, isLeap_toMicros]
  exact h

theorem daysInMonth_le (leap : Bool) (month : Nat) : daysInMonth leap month ≤ 31 := by
  unfold daysInMonth
  split
  · split <;> decide
  all_goals decide

/-- The civil parts of an instant name it. -/
theorem ofCivil?_parts (t : Instant) :
    ofCivil? t.date t.hour t.minute t.secondOfMinute t.nano = some t := by
  have hsecond := t.second_lt
  have hfirst : firstYear ≤ t.date.year := by
    have hbefore := (year_le_iff t (firstYear - 1)).not
    have hday : dayOfDate ⟨firstYear - 1 + 1, 1, 1⟩ = firstDay := by decide
    have hge := t.firstDay_le
    rw [hday] at hbefore
    have hyear : ¬ t.year ≤ firstYear - 1 := hbefore.2 (by omega)
    exact Int.not_lt.1 fun hlt => hyear (Int.le_sub_one_of_lt hlt)
  have hlast : t.date.year ≤ lastYear := by
    refine (year_le_iff t lastYear).2 ?_
    have hday : dayOfDate ⟨lastYear + 1, 1, 1⟩ = lastDay + 1 := by decide
    have hle := t.le_lastDay
    rw [hday]
    omega
  have htime : t.hour < 24 ∧ t.minute < 60 ∧ t.secondOfMinute < 60 := by
    simp only [hour, minute, secondOfMinute, secondsPerDay] at hsecond ⊢
    omega
  have hsum : t.hour * 3600 + t.minute * 60 + t.secondOfMinute = t.second := by
    simp only [hour, minute, secondOfMinute]
    omega
  have hday : dayOfDate t.date = t.day := dayOfDate_dateOfDay t.day
  have hexists : t.date.Exists := exists_dateOfDay t.day
  rw [ofCivil?, if_pos ⟨hexists, hfirst, hlast, htime⟩, hsum, hday]
  exact of?_eq_some t.firstDay_le t.le_lastDay hsecond t.nano_lt

/-- What a text says that gives the fraction of the second of an instant in full. -/
def writtenParts (t : Instant) : Parts :=
  ⟨t.date.year, t.date.month, t.date.day, t.hour, t.minute, writtenSecond t,
    t.nano % nanosPerSecond⟩

theorem instant?_writtenParts {t : Instant} (h : t.IsCivil) : t.writtenParts.instant? = some t := by
  have hnano := t.nano_lt
  have hminute : t.secondOfMinute < 60 := Nat.mod_lt _ (by decide)
  have hcivil := ofCivil?_parts t
  rw [writtenParts, Parts.instant?]
  -- Second 60 is read as second 59 and one more, any other second as itself.
  cases hleap : t.isLeap with
  | true =>
    have hlast : t.secondOfMinute = 59 := h hleap
    have hlow : nanosPerSecond ≤ t.nano := of_decide_eq_true hleap
    simp only [writtenSecond, hleap, if_true, hlast]
    rw [hlast] at hcivil
    have hsum : nanosPerSecond + t.nano % nanosPerSecond = t.nano := by
      simp only [nanosPerSecond] at hlow hnano ⊢
      omega
    rw [hsum]
    exact hcivil
  | false =>
    have hhigh : t.nano < nanosPerSecond := Nat.lt_of_not_le (of_decide_eq_false hleap)
    have hne : t.secondOfMinute ≠ 60 := by omega
    simp only [writtenSecond, hleap, Bool.false_eq_true, if_false, if_neg hne]
    rw [Nat.mod_eq_of_lt hhigh]
    exact hcivil

/-- The text of the fraction of the second, down to the microsecond. -/
def writeFraction (t : Instant) : List Char :=
  if t.nano / 1000 = 0 then [] else '.' :: padded 6 (writtenMicros t)

/-- The text of a time of day, the fraction of its second as given. -/
def writeTime (t : Instant) (fraction : List Char) : List Char :=
  padded 2 t.hour ++ ':' :: padded 2 t.minute ++ ':' :: padded 2 (writtenSecond t) ++ fraction

/-- The text of an instant, the fraction of its second as given. -/
def writeWith (t : Instant) (fraction : List Char) : List Char :=
  writeDate t.date ++ ' ' :: writeTime t fraction

theorem write_eq (t : Instant) : t.write = t.writeWith t.writeFraction := by
  simp only [write, writeWith, writeTime, writeFraction, List.append_assoc, List.cons_append]

theorem takeFraction_writeFraction {t : Instant} (hwhole : t.nano % 1000 = 0) :
    takeFraction t.writeFraction = some (t.nano % nanosPerSecond, []) := by
  rw [writeFraction]
  split
  · rename_i h
    have hzero : t.nano % nanosPerSecond = 0 := by
      simp only [nanosPerSecond]
      omega
    rw [hzero]
    rfl
  · have hlt : writtenMicros t < Nat.pow 10 6 := by
      show t.nano % 1000000000 / 1000 < 1000000
      omega
    have hnano : writtenMicros t * Nat.pow 10 (9 - 6) = t.nano % nanosPerSecond := by
      show t.nano % 1000000000 / 1000 * 1000 = t.nano % 1000000000
      omega
    rw [takeFraction_padded (by decide) (by decide) hlt, hnano]

/-- The first form takes the whole text of an instant. -/
theorem readItems_writeWith {t : Instant} {fraction : List Char}
    (h : takeFraction fraction = some (t.nano % nanosPerSecond, [])) :
    readItems (dateItems ++ .gap :: secondItems) .none (t.writeWith fraction)
      = some (t.writtenParts, []) := by
  have hexists : t.date.Exists := exists_dateOfDay t.day
  have hmonth : t.date.month < 100 := by
    have h := hexists.2.1
    omega
  have hday : t.date.day < 100 := by
    have h := hexists.2.2.2
    have hdays := daysInMonth_le (isLeapYear t.date.year) t.date.month
    omega
  have hhour : t.hour < 100 := by
    have hsecond := t.second_lt
    simp only [hour, secondsPerDay] at hsecond ⊢
    omega
  have hminute : t.minute < 100 := by
    have h : t.minute < 60 := Nat.mod_lt _ (by decide)
    omega
  have hsecond : writtenSecond t < 100 := by
    have h : t.secondOfMinute < 60 := Nat.mod_lt _ (by decide)
    unfold writtenSecond
    split <;> omega
  have hgap : ∀ r, trimStart (' ' :: (padded 2 t.hour ++ r)) = padded 2 t.hour ++ r := fun r =>
    trimStart_digits (fun c hc => isDigit_of_mem_padded hc) (padded_ne_nil 2 _)
  simp only [writeWith, writeTime, writeDate, dateItems, secondItems, minuteItems,
    List.append_assoc,
    List.cons_append, List.nil_append, readItems, readItem,
    takeYear_writeYear _ (endsDigits_cons (c := '-') rfl), takePair_padded hmonth,
    takePair_padded hday, takePair_padded hhour, takePair_padded hminute, takePair_padded hsecond,
    hgap, h, Option.map_some, Option.bind_some, if_true]
  rfl

/-! ## 4. The characters of a text -/

theorem mem_writeYear {year : Int} {c : Char} (h : c ∈ writeYear year) :
    c.isDigit = true ∨ c ∈ ['-', '+'] := by
  rw [writeYear] at h
  split at h
  · exact Or.inl (isDigit_of_mem_padded h)
  · obtain rfl | h := List.mem_cons.1 h
    · right
      split <;> decide
    · exact Or.inl (isDigit_of_mem_padded h)

theorem mem_writeDate {d : Date} {c : Char} (h : c ∈ writeDate d) :
    c.isDigit = true ∨ c ∈ ['-', '+'] := by
  simp only [writeDate, List.mem_append, List.mem_cons] at h
  obtain (h | rfl | h) | rfl | h := h
  · exact mem_writeYear h
  · exact Or.inr (by decide)
  · exact Or.inl (isDigit_of_mem_padded h)
  · exact Or.inr (by decide)
  · exact Or.inl (isDigit_of_mem_padded h)

theorem mem_writeFraction {t : Instant} {c : Char} (h : c ∈ t.writeFraction) :
    c.isDigit = true ∨ c = '.' := by
  rw [writeFraction] at h
  split at h
  · exact absurd h List.not_mem_nil
  · obtain rfl | h := List.mem_cons.1 h
    · exact Or.inr rfl
    · exact Or.inl (isDigit_of_mem_padded h)

theorem mem_writeTime {t : Instant} {c : Char} (h : c ∈ t.writeTime t.writeFraction) :
    c.isDigit = true ∨ c ∈ [':', '.'] := by
  simp only [writeTime, List.mem_append, List.mem_cons] at h
  obtain ((h | rfl | h) | rfl | h) | h := h
  · exact Or.inl (isDigit_of_mem_padded h)
  · exact Or.inr (by decide)
  · exact Or.inl (isDigit_of_mem_padded h)
  · exact Or.inr (by decide)
  · exact Or.inl (isDigit_of_mem_padded h)
  · refine (mem_writeFraction h).imp_right ?_
    rintro rfl
    decide

/-- The text of an instant is made of digits and five marks. -/
theorem mem_write {t : Instant} {c : Char} (h : c ∈ t.write) :
    c.isDigit = true ∨ c ∈ ['-', '+', ' ', ':', '.'] := by
  rw [write_eq, writeWith, List.mem_append, List.mem_cons] at h
  obtain h | rfl | h := h
  · exact digit_or_mem_mono (by decide) (mem_writeDate h)
  · exact Or.inr (by decide)
  · exact digit_or_mem_mono (by decide) (mem_writeTime h)

theorem writeDate_ne_nil (d : Date) : writeDate d ≠ [] := by
  rw [writeDate, List.append_assoc]
  exact List.append_ne_nil_of_right_ne_nil _ (List.cons_ne_nil _ _)

theorem isDigit_getLast?_writeDate {d : Date} {c : Char} (h : c ∈ (writeDate d).getLast?) :
    c.isDigit = true := by
  rw [writeDate, List.getLast?_append_of_ne_nil _ (List.cons_ne_nil _ _)] at h
  rw [List.getLast?_cons_of_ne_nil (padded_ne_nil 2 _)] at h
  exact isDigit_of_mem_padded (List.mem_of_mem_getLast? h)

theorem isDigit_getLast?_writeFraction {t : Instant} {c : Char} (h : c ∈ t.writeFraction.getLast?) :
    c.isDigit = true := by
  rw [writeFraction] at h
  split at h
  · cases h
  · rw [List.getLast?_cons_of_ne_nil (padded_ne_nil 6 _)] at h
    exact isDigit_of_mem_padded (List.mem_of_mem_getLast? h)

theorem isDigit_head?_writeTime {t : Instant} {fraction : List Char} {c : Char}
    (h : c ∈ (t.writeTime fraction).head?) : c.isDigit = true := by
  simp only [writeTime, List.append_assoc] at h
  rw [List.head?_append_of_ne_nil _ (padded_ne_nil 2 _)] at h
  exact isDigit_of_mem_padded (List.mem_of_mem_head? h)

section WithFraction

variable {t : Instant} {fraction : List Char}

theorem head?_writeWith {c : Char} (h : c ∈ (t.writeWith fraction).head?) :
    c.isDigit = true ∨ c ∈ ['-', '+'] := by
  rw [writeWith, List.head?_append_of_ne_nil _ (writeDate_ne_nil _)] at h
  exact mem_writeDate (List.mem_of_mem_head? h)

theorem isDigit_getLast?_writeWith (hfraction : ∀ c ∈ fraction.getLast?, c.isDigit = true)
    {c : Char}
    (h : c ∈ (t.writeWith fraction).getLast?) : c.isDigit = true := by
  have hnil : t.writeTime fraction ≠ [] := by
    rw [writeTime, List.append_assoc, List.append_assoc]
    exact List.append_ne_nil_of_left_ne_nil (padded_ne_nil 2 _) _
  rw [writeWith, List.getLast?_append_of_ne_nil _ (List.cons_ne_nil _ _),
    List.getLast?_cons_of_ne_nil hnil, writeTime] at h
  by_cases hnone : fraction = []
  · rw [hnone, List.append_nil, List.getLast?_append_of_ne_nil _ (List.cons_ne_nil _ _),
      List.getLast?_cons_of_ne_nil (padded_ne_nil 2 _)] at h
    exact isDigit_of_mem_padded (List.mem_of_mem_getLast? h)
  · rw [List.getLast?_append_of_ne_nil _ hnone] at h
    exact hfraction c h

theorem snug_writeWith (hfraction : ∀ c ∈ fraction.getLast?, c.isDigit = true) :
    Snug (t.writeWith fraction) := by
  refine ⟨fun c hc => ?_, fun c hc => isBlank_of_isDigit (isDigit_getLast?_writeWith hfraction hc)⟩
  obtain hdigit | hmark := head?_writeWith hc
  · exact isBlank_of_isDigit hdigit
  · revert hmark
    simp only [List.mem_cons, List.not_mem_nil, or_false]
    rintro (rfl | rfl) <;> decide

end WithFraction

theorem head?_write {t : Instant} {c : Char} (h : c ∈ t.write.head?) :
    c.isDigit = true ∨ c ∈ ['-', '+'] := by
  rw [write_eq] at h
  exact head?_writeWith h

theorem isDigit_getLast?_write {t : Instant} {c : Char} (h : c ∈ t.write.getLast?) :
    c.isDigit = true := by
  rw [write_eq] at h
  exact isDigit_getLast?_writeWith (fun _ => isDigit_getLast?_writeFraction) h

theorem snug_write (t : Instant) : Snug t.write := by
  rw [write_eq]
  exact snug_writeWith fun _ => isDigit_getLast?_writeFraction

/-- The blank in the text of an instant stands before a digit. -/
theorem apart_blank_write (t : Instant) {d : Char} (hd : d.isDigit = false) :
    Apart ' ' d t.write := by
  have hdate : ' ' ∉ writeDate t.date := by
    intro h
    exact absurd (mem_writeDate h) (by decide)
  have htime : ' ' ∉ t.writeTime t.writeFraction := by
    intro h
    exact absurd (mem_writeTime h) (by decide)
  rw [write_eq, writeWith]
  refine apart_append (apart_of_not_mem_left hdate) ?_ fun h =>
    absurd (List.mem_of_mem_getLast? h) hdate
  refine apart_append (a := [' ']) (List.isChain_singleton ' ') (apart_of_not_mem_left htime)
    fun _ h => ?_
  rw [isDigit_head?_writeTime h] at hd
  cases hd

/-- The sign of a year stands before a digit. -/
theorem apart_sign_write (t : Instant) : Apart '+' ' ' t.write := by
  have htime : '+' ∉ ' ' :: t.writeTime t.writeFraction := by
    intro h
    obtain h | h := List.mem_cons.1 h
    · exact absurd h (by decide)
    · obtain h | h := mem_writeTime h
      · exact absurd h (by decide)
      · exact absurd h (by decide)
  have hdate : ' ' ∉ writeDate t.date := by
    intro h
    exact absurd (mem_writeDate h) (by decide)
  rw [write_eq, writeWith]
  refine apart_append (apart_of_not_mem_right hdate) (apart_of_not_mem_left htime) fun h => ?_
  exact absurd (isDigit_getLast?_writeDate h) (by decide)

/-! ## 5. Reading what was written -/

/-- A text with the fraction of the second in full is read as the instant itself. -/
theorem read?_writeWith {t : Instant} {fraction : List Char} (h : t.IsCivil)
    (hfraction : takeFraction fraction = some (t.nano % nanosPerSecond, []))
    (hlast : ∀ c ∈ fraction.getLast?, c.isDigit = true) :
    read? (t.writeWith fraction) = some t := by
  -- The text ends with a digit, so no mark of the time zone is taken off it.
  have hzone : dropTail? ['Z'] (t.writeWith fraction) = none := by
    rw [dropTail?, Option.map_eq_none_iff]
    refine dropLead?_eq_none fun r hr => ?_
    have hend : 'Z' ∈ (t.writeWith fraction).getLast? := by
      rw [← List.head?_reverse, hr]
      rfl
    exact absurd (isDigit_getLast?_writeWith hlast hend) (by decide)
  have hform : readForm (dateItems ++ .gap :: secondItems) (t.writeWith fraction) = some t := by
    rw [readForm, readItems_writeWith hfraction, Option.bind_some]
    exact instant?_writtenParts h
  rw [read?]
  simp only [trim_of_snug (snug_writeWith hlast), hzone, Option.getD_none, forms,
    List.findSome?_cons, hform]

/-- What is written for an instant is read as the instant, to the microsecond. -/
theorem read?_write {t : Instant} (h : t.IsCivil) : read? t.write = some t.toMicros := by
  rw [← write_toMicros, write_eq]
  exact read?_writeWith (isCivil_toMicros h) (takeFraction_writeFraction t.whole_toMicros)
    fun _ => isDigit_getLast?_writeFraction

theorem takeFraction_lt {s r : List Char} {n : Nat} (h : takeFraction s = some (n, r)) :
    n < nanosPerSecond := by
  unfold takeFraction at h
  split at h
  · rename_i rest
    obtain ⟨k, hk, hn⟩ := Option.map_eq_some_iff.1 h
    rw [Prod.mk.injEq] at hn
    obtain ⟨rfl, -⟩ := hn
    have hlength : ((rest.takeWhile Char.isDigit).take 9).length ≤ 9 := List.length_take_le 9 _
    generalize (rest.takeWhile Char.isDigit).take 9 = ds at hk hlength ⊢
    obtain ⟨-, hdigits, hvalue⟩ := digits?_eq_some_iff.1 hk
    have hlt := valueOfDigits_lt hdigits
    have hpower : 10 ^ ds.length * 10 ^ (9 - ds.length) = nanosPerSecond := by
      rw [← Nat.pow_add, Nat.add_sub_cancel' hlength]
      rfl
    rw [← hpower, ← hvalue]
    exact Nat.mul_lt_mul_of_pos_right hlt (Nat.pow_pos (by decide))
  · cases h
    decide

theorem readItem_nano_lt {item : Item} {parts : Parts} {s : List Char} {p : Parts × List Char}
    (hparts : parts.nano < nanosPerSecond) (h : readItem item parts s = some p) :
    p.1.nano < nanosPerSecond := by
  cases item
  case fraction =>
    obtain ⟨q, hq, rfl⟩ := Option.map_eq_some_iff.1 h
    exact takeFraction_lt hq
  case mark c =>
    cases s with
    | nil => cases h
    | cons d r =>
      have hmark : (if d = c then some (parts, r) else none) = some p := h
      split at hmark
      · cases hmark
        exact hparts
      · cases hmark
  case gap =>
    cases h
    exact hparts
  all_goals
    obtain ⟨q, -, rfl⟩ := Option.map_eq_some_iff.1 h
    exact hparts

theorem readItems_nano_lt {items : List Item} {parts : Parts} {s : List Char}
    {p : Parts × List Char} (hparts : parts.nano < nanosPerSecond)
    (h : readItems items parts s = some p) : p.1.nano < nanosPerSecond := by
  induction items generalizing parts s with
  | nil =>
    cases h
    exact hparts
  | cons item items ih =>
    rw [readItems] at h
    obtain ⟨q, hq, h⟩ := Option.bind_eq_some_iff.1 h
    exact ih (readItem_nano_lt hparts hq) h

theorem parts_of_ofCivil? {d : Date} {hour minute second nano : Nat} {t : Instant}
    (h : ofCivil? d hour minute second nano = some t) :
    t.secondOfMinute = second ∧ t.nano = nano := by
  rw [ofCivil?] at h
  split at h
  · rename_i hcivil
    rw [of?] at h
    split at h
    · cases h
      refine ⟨?_, rfl⟩
      simp only [secondOfMinute]
      omega
    · cases h
  · cases h

/-- Every instant that is read can be written and read again. -/
theorem isCivil_of_read? {s : List Char} {t : Instant} (h : read? s = some t) : t.IsCivil := by
  obtain ⟨form, -, hform⟩ := List.exists_of_findSome?_eq_some h
  rw [readForm] at hform
  obtain ⟨p, hp, hform⟩ := Option.bind_eq_some_iff.1 hform
  have hnano := readItems_nano_lt (by decide) hp
  split at hform
  · rw [Parts.instant?] at hform
    split at hform
    · exact fun _ => (parts_of_ofCivil? hform).1
    · intro hleap
      have hlow : nanosPerSecond ≤ t.nano := of_decide_eq_true hleap
      rw [(parts_of_ofCivil? hform).2] at hlow
      exact absurd hnano (Nat.not_lt.2 hlow)
  · cases hform

/-- Every instant that can be written and read again can be read: nine places of the second are all
of its nanoseconds. -/
theorem exists_read? {t : Instant} (h : t.IsCivil) : ∃ s, read? s = some t := by
  have hlt : t.nano % nanosPerSecond < Nat.pow 10 9 := Nat.mod_lt _ (by decide)
  have hunit : Nat.pow 10 (9 - 9) = 1 := rfl
  have hfraction := takeFraction_padded (by decide) (Nat.le_refl 9) hlt
  rw [hunit, Nat.mul_one] at hfraction
  refine ⟨_, read?_writeWith h hfraction fun c hc => ?_⟩
  rw [List.getLast?_cons_of_ne_nil (padded_ne_nil 9 _)] at hc
  exact isDigit_of_mem_padded (List.mem_of_mem_getLast? hc)

end Instant

end Measurement
