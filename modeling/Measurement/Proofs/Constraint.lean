/-
What is written for a constraint that was read is read as that constraint, down
to the microsecond.

The bounds of a range are put in order when they are read, so they are read in
that order again: times that are cut to microseconds keep their order. A range
of strings is read back only if no separator begins within its lower bound
(`CutsOnce`), for a string may hold the separator. The items of a list hold no
comma, because they were had by splitting at commas, and no separator of a range,
because there was none in the whole.
-/
import Measurement.Constraint
import Measurement.Proofs.Text.Cuts
import Measurement.Proofs.Value
import Mathlib.Order.Compare
import Mathlib.Order.Basic

set_option autoImplicit false

namespace Measurement

open Measurement.Text

/-! ## 1. The order of values -/

theorem Address.orderRows_swap (as bs : List Nat) : orderRows bs as = (orderRows as bs).swap := by
  induction as generalizing bs with
  | nil => cases bs <;> rfl
  | cons a as ih =>
    cases bs with
    | nil => rfl
    | cons b bs =>
      have hhead : compare b a = (compare a b).swap := Std.OrientedCmp.eq_swap
      rw [orderRows, orderRows, Ordering.swap_then, ← ih, hhead]

theorem Address.order_swap (a b : Address) : b.order a = (a.order b).swap := by
  cases a with
  | v4 a =>
    cases b with
    | v4 b => exact orderRows_swap _ _
    | v6 b => rfl
  | v6 a =>
    cases b with
    | v4 b => rfl
    | v6 b => exact orderRows_swap _ _

theorem Address.orderRows_self (as : List Nat) : orderRows as as = .eq := by
  induction as with
  | nil => rfl
  | cons a as ih =>
    have hhead : compare a a = .eq := Std.ReflCmp.compare_self
    rw [orderRows, hhead, ih]
    rfl

theorem Binary64.order?_swap (a b : Binary64) : order? b a = (order? a b).map Ordering.swap := by
  cases a with
  | nan => cases b <;> rfl
  | number s m =>
    cases b with
    | nan => rfl
    | number t n => exact congrArg some Std.OrientedCmp.eq_swap

theorem Instant.place_toMicros (t : Instant) : t.toMicros.place = t.place / 1000 * 1000 := by
  have hunit : ((2 * nanosPerSecond : Nat) : Int) = 1000 * 2000000 := by decide
  rw [place, place, hunit]
  simp only [toMicros, unixSeconds]
  omega

namespace Value

theorem order?_swap (a b : Value) : order? b a = (order? a b).map Ordering.swap := by
  cases a with
  | string s =>
    cases b with
    | string t => exact congrArg some Std.OrientedCmp.eq_swap
    | _ => rfl
  | natural m =>
    cases b with
    | natural n => exact congrArg some Std.OrientedCmp.eq_swap
    | _ => rfl
  | real x =>
    cases b with
    | real y => exact Binary64.order?_swap x y
    | _ => rfl
  | boolean p =>
    cases b with
    | boolean q => exact congrArg some Std.OrientedCmp.eq_swap
    | _ => rfl
  | time t =>
    cases b with
    | time u =>
      have hplace : compare u.place t.place = (compare t.place u.place).swap :=
        Std.OrientedCmp.eq_swap
      exact congrArg some hplace
    | _ => rfl
  | address x =>
    cases b with
    | address y => exact congrArg some (Address.order_swap x y)
    | _ => rfl
  | url s =>
    cases b with
    | url t => exact congrArg some Std.OrientedCmp.eq_swap
    | _ => rfl

/-- Times keep their order when they are cut to microseconds. -/
theorem order?_toMicros {a b : Value} (h : a.order? b ≠ some .gt) :
    a.toMicros.order? b.toMicros ≠ some .gt := by
  cases a with
  | time t =>
    cases b with
    | time u =>
      simp only [toMicros, order?, Instant.order, ne_eq, Option.some.injEq,
        compare_gt_iff_gt, Instant.place_toMicros] at h ⊢
      omega
    | _ => exact h
  | _ => cases b <;> exact h

theorem isSome_order?_toMicros (a b : Value) :
    (a.toMicros.order? b.toMicros).isSome = (a.order? b).isSome := by
  cases a <;> cases b <;> rfl

/-- What can be compared with some value can be compared with itself. -/
theorem order?_self {a b : Value} (h : (a.order? b).isSome = true) : a.order? a = some .eq := by
  cases a with
  | real x =>
    cases b with
    | real y =>
      cases x with
      | nan => cases h
      | number negative rank => exact congrArg some Std.ReflCmp.compare_self
    | _ => cases h
  | address x =>
    cases x with
    | v4 octets => exact congrArg some (Address.orderRows_self _)
    | v6 groups => exact congrArg some (Address.orderRows_self _)
  | time t =>
    have hplace : compare t.place t.place = .eq := Std.ReflCmp.compare_self
    exact congrArg some hplace
  | _ => exact congrArg some Std.ReflCmp.compare_self

theorem atMost_of_order? {a b : Value} (h : (a.order? b).isSome = true)
    (hgt : a.order? b ≠ some .gt) : a.atMost b = true := by
  obtain ⟨o, ho⟩ := Option.isSome_iff_exists.1 h
  rw [ho, ne_eq, Option.some.injEq] at hgt
  rw [atMost, ho]
  cases o with
  | gt => exact absurd rfl hgt
  | _ => rfl

/-- No text says a value that differs from itself. -/
theorem same_self_of_read {p : Primitive} {s : String} {v : Value} (h : read p s = .ok v) :
    v.same v = true := by
  cases v with
  | real x =>
    obtain rfl : Primitive.real = p := primitive_of_read h
    obtain ⟨y, hy, hv⟩ := Option.map_eq_some_iff.1 (read_eq_ok_iff.1 h)
    cases hv
    obtain ⟨numeral, -, hfinite⟩ := Option.bind_eq_some_iff.1 hy
    simp only at hfinite
    split at hfinite
    · cases hfinite
      simp [same, Binary64.same]
    · cases hfinite
  | _ => exact decide_eq_true rfl

end Value

namespace Constraint

/-! ## 2. Values in a constraint -/

/-- The values that a constraint is written with. -/
def values : Constraint → List Value
  | unconstrained => []
  | range a b => [a, b]
  | set values => values

/-- Whether a constraint is a range. -/
def isRange : Constraint → Bool
  | range _ _ => true
  | _ => false

/-- The constraint with its times cut down to microseconds. -/
def toMicros : Constraint → Constraint
  | unconstrained => unconstrained
  | range a b => range a.toMicros b.toMicros
  | set values => set (values.map Value.toMicros)

@[simp] theorem text_toMicros (c : Constraint) : c.toMicros.text = c.text := by
  cases c with
  | unconstrained => rfl
  | range a b => rw [toMicros, text, text, Value.text_toMicros, Value.text_toMicros]
  | set vs =>
    have htexts : (vs.map Value.toMicros).map Value.text = vs.map Value.text := by
      rw [List.map_map]
      exact List.map_congr_left fun v _ => v.text_toMicros
    rw [toMicros, text, htexts, text]

theorem toMicros_of_whole {c : Constraint}
    (h : ∀ v ∈ c.values, ∀ t ∈ v.times, t.nano % 1000 = 0) : c.toMicros = c := by
  have hvalue : ∀ v ∈ c.values, v.toMicros = v := fun v hv => Value.toMicros_of_whole (h v hv)
  cases c with
  | unconstrained => rfl
  | range a b =>
    rw [toMicros, hvalue a List.mem_cons_self, hvalue b (List.mem_cons_of_mem a List.mem_cons_self)]
  | set vs => exact congrArg set ((List.map_congr_left hvalue).trans (List.map_id vs))

/-! ## 3. Ranges -/

/-- Whether the text of a constraint is cut where it was put together, if it is a range: no
separator begins within the lower bound. -/
def CutsOnce : Constraint → Prop
  | range a _ => ¬ rangeSeparator.toList <:+: a.text.toList ++ rangeSeparator.toList.dropLast
  | _ => True

theorem cutsOnce_of_isRange_eq_false {c : Constraint} (h : c.isRange = false) : c.CutsOnce := by
  cases c with
  | range a b => cases h
  | _ => trivial

/-- The bounds of a range that was read: they are of one kind, can be compared and are in order, and
no string among them is empty. -/
structure AreBounds (p : Primitive) (x y : Value) : Prop where
  lowPrimitive : x.primitive = p
  highPrimitive : y.primitive = p
  lowRead : x.IsRead
  highRead : y.IsRead
  lowText : p = .string → x.text.toList ≠ []
  highText : p = .string → y.text.toList ≠ []
  comparable : (x.order? y).isSome = true
  ordered : x.order? y ≠ some .gt

/-- Neither part of a text that is cut at the separator of a range is blank. -/
theorem trim_parts_ne_nil {bare a b : List Char} (hbare : Snug bare)
    (h : cut? rangeSeparator.toList bare = some (a, b)) : trim a ≠ [] ∧ trim b ≠ [] := by
  have hparts := eq_append_of_cut? h
  have hblank : isBlank ' ' = true := by decide
  constructor
  · intro ha
    cases a with
    | nil =>
      have hfirst := hbare.1 ' ' (by rw [hparts]; rfl)
      rw [hblank] at hfirst
      cases hfirst
    | cons c a =>
      have hfirst := hbare.1 c (by rw [hparts]; rfl)
      rw [isBlank_of_trim_eq_nil ha c List.mem_cons_self] at hfirst
      cases hfirst
  · intro hb
    obtain rfl | ⟨c, hc⟩ : b = [] ∨ ∃ c, c ∈ b.getLast? := by
      cases b with
      | nil => exact Or.inl rfl
      | cons c b => exact Or.inr ⟨_, List.getLast?_eq_some_getLast (List.cons_ne_nil c b)⟩
    · have hlast := hbare.2 ' ' (by
        rw [hparts, List.append_nil, List.getLast?_append_of_ne_nil _ (by decide)]
        rfl)
      rw [hblank] at hlast
      cases hlast
    · have hmem : c ∈ b := List.mem_of_mem_getLast? hc
      have hlast := hbare.2 c (by
        rw [hparts, List.getLast?_append_of_ne_nil _ (List.ne_nil_of_mem hmem)]
        exact hc)
      rw [isBlank_of_trim_eq_nil hb c hmem] at hlast
      cases hlast

/-- Two values that were read are bounds in one of their two orders. -/
theorem areBounds_between {p : Primitive} {a b : Value} {s t : String}
    (ha : Value.read p s = .ok a) (hb : Value.read p t = .ok b) (hs : trim s.toList ≠ [])
    (ht : trim t.toList ≠ []) (h : (a.order? b).isSome = true) :
    ∃ x y, between a b = range x y ∧ AreBounds p x y := by
  have haprimitive := Value.primitive_of_read ha
  have hbprimitive := Value.primitive_of_read hb
  have haread := Value.isRead_of_read ha
  have hbread := Value.isRead_of_read hb
  have hatext : p = .string → a.text.toList ≠ [] := fun hp => by
    rw [Value.text_of_read (Or.inl hp) ha]
    exact hs
  have hbtext : p = .string → b.text.toList ≠ [] := fun hp => by
    rw [Value.text_of_read (Or.inl hp) hb]
    exact ht
  rw [between]
  split
  · rename_i hgt
    refine ⟨b, a, rfl, hbprimitive, haprimitive, hbread, haread, hbtext, hatext, ?_, ?_⟩
    · rw [Value.order?_swap, Option.isSome_map]
      exact h
    · rw [Value.order?_swap, hgt]
      decide
  · rename_i hgt
    exact ⟨a, b, rfl, haprimitive, hbprimitive, haread, hbread, hatext, hbtext, h, hgt⟩

/-- The text of a range is cut between the texts of its bounds; for strings that has to be asked. -/
theorem cut?_rangeText {p : Primitive} {x y : Value} (h : AreBounds p x y)
    (honce : p = .string → (range x y).CutsOnce) :
    cut? rangeSeparator.toList (x.text.toList ++ rangeSeparator.toList ++ y.text.toList)
      = some (x.text.toList, y.text.toList) := by
  by_cases hp : p = .string
  · exact cut?_of_not_infix (by decide) (honce hp)
  · exact cut?_of_apart (by decide) (Value.apart_text (h.lowPrimitive ▸ hp) h.lowRead)

theorem toList_rangeText (x y : Value) :
    (range x y).text.toList = x.text.toList ++ rangeSeparator.toList ++ y.text.toList := by
  rw [text, String.toList_append, String.toList_append]

theorem separated_ne_absent (a b : List Char) :
    a ++ rangeSeparator.toList ++ b ≠ absent.toList := by
  intro he
  have hpoint : '.' ∈ absent.toList := by
    rw [← he]
    exact List.mem_append_left _ (List.mem_append_right _ (by decide))
  exact absurd hpoint (by decide)

theorem read_rangeText {p : Primitive} {x y : Value} (h : AreBounds p x y)
    (honce : p = .string → (range x y).CutsOnce) (hxback : x.ReadsBack) (hyback : y.ReadsBack) :
    read p (range x y).text = .ok (range x.toMicros y.toMicros) := by
  have hcut := cut?_rangeText h honce
  obtain ⟨hx, hy, hxread, hyread, hxstring, hystring, horder, hgt⟩ := h
  have hne : ∀ {v : Value}, v.primitive = p → v.IsRead → v.ReadsBack →
      (p = .string → v.text.toList ≠ []) → v.text.toList ≠ [] := by
    intro v hv hread hback hstring
    by_cases hp : p = .string
    · exact hstring hp
    · exact Value.text_ne_nil (hv ▸ hp) hread hback
  have hxtext : x.text.toList ≠ [] := hne hx hxread hxback hxstring
  have hytext : y.text.toList ≠ [] := hne hy hyread hyback hystring
  have htrim : trim (range x y).text.toList
      = x.text.toList ++ rangeSeparator.toList ++ y.text.toList := by
    rw [toList_rangeText]
    exact trim_of_snug
      (snug_append (Value.snug_text hxread) (Value.snug_text hyread) hxtext hytext _)
  have hxreads := Value.read_text hxread hxback
  have hyreads := Value.read_text hyread hyback
  have hsome : (x.toMicros.order? y.toMicros).isNone = false := by
    rw [Option.isNone_eq_false_iff, Value.isSome_order?_toMicros]
    exact horder
  have hbetween : between x.toMicros y.toMicros = range x.toMicros y.toMicros :=
    if_neg (Value.order?_toMicros hgt)
  rw [hx] at hxreads
  rw [hy] at hyreads
  rw [read, htrim, if_neg (separated_ne_absent _ _), hcut]
  simp only [String.ofList_toList, hxreads, hyreads, bind, Except.bind, hsome, hbetween]
  rfl

/-! ## 4. Lists -/

/-- What a value that was read from an item of a list needs to be found in a list again. -/
structure IsItem (p : Primitive) (v : Value) : Prop where
  primitive : v.primitive = p
  read : v.IsRead
  comma : ',' ∉ v.text.toList
  separator : ¬ rangeSeparator.toList <:+: v.text.toList

theorem isItem_of_read {p : Primitive} {w : List Char} {v : Value} (hcomma : ',' ∉ w)
    (hseparator : ¬ rangeSeparator.toList <:+: w) (h : Value.read p (String.ofList w) = .ok v) :
    IsItem p v := by
  have hprimitive := Value.primitive_of_read h
  have hread := Value.isRead_of_read h
  by_cases hp : p = .string ∨ p = .url
  · have htext := Value.text_of_read hp h
    rw [String.toList_ofList] at htext
    have hwithin : v.text.toList <:+: w := htext ▸ trim_within w
    exact ⟨hprimitive, hread, fun hc => hcomma (hwithin.subset hc),
      fun hs => hseparator (hs.trans hwithin)⟩
  · rw [not_or, ← hprimitive] at hp
    refine ⟨hprimitive, hread, Value.comma_not_mem_text hp.1 hp.2, ?_⟩
    exact not_infix_of_cut?_eq_none (by decide) (cut?_eq_none [] (Value.apart_text hp.1 hread))

theorem toList_setText (vs : List Value) :
    (set vs).text.toList = [','].intercalate (vs.map fun v => v.text.toList) := by
  rw [text, String.toList_intercalate, List.map_map]
  rfl

theorem read_setText {p : Primitive} {vs : List Value} (hnil : vs ≠ [])
    (hitems : ∀ v ∈ vs, IsItem p v) (hback : ∀ v ∈ vs, v.ReadsBack)
    (habsent : (set vs).text.toList ≠ absent.toList) :
    read p (set vs).text = .ok (set (vs.map Value.toMicros)) := by
  have htrim : trim (set vs).text.toList = (set vs).text.toList := by
    rw [toList_setText]
    refine trim_of_snug (snug_intercalate ?_)
    exact List.forall_mem_map.2 fun v hv => Value.snug_text (hitems v hv).read
  have hcut : cut? rangeSeparator.toList (set vs).text.toList = none := by
    refine cut?_eq_none_of_not_within fun hwithin => ?_
    rw [toList_setText] at hwithin
    obtain ⟨i, hi, hwithin⟩ := infix_intercalate (by decide) (by decide) hwithin
    obtain ⟨v, hv, rfl⟩ := List.mem_map.1 hi
    exact (hitems v hv).separator hwithin
  have hsplit : (set vs).text.toList.splitOnP (· == ',') = vs.map fun v => v.text.toList := by
    rw [toList_setText]
    refine splitOnP_intercalate (by simpa using hnil) ?_
    exact List.forall_mem_map.2 fun v hv => (hitems v hv).comma
  have hvalues : (vs.map fun v => v.text.toList).mapM (fun w => Value.read p (String.ofList w))
      = .ok (vs.map Value.toMicros) := by
    rw [List.mapM_map]
    refine mapM_eq_ok fun v hv => ?_
    rw [Function.comp_apply, String.ofList_toList, ← (hitems v hv).primitive]
    exact Value.read_text (hitems v hv).read (hback v hv)
  rw [read, htrim, if_neg habsent, hcut]
  simp only [setSeparator, hsplit, hvalues, bind, Except.bind]

/-- A list of values is not written like an absent value: it has one item, and that is the whole
text, or it has a comma. -/
theorem setText_ne_absent {p : Primitive} {bare : List Char} {vs : List Value}
    (hbare : trim bare = bare) (habsent : bare ≠ absent.toList)
    (h : (bare.splitOnP (· == ',')).mapM (fun w => Value.read p (String.ofList w)) = .ok vs) :
    (set vs).text.toList ≠ absent.toList := by
  obtain ⟨hlength, hmem⟩ := mem_of_mapM_eq_ok h
  intro he
  rw [toList_setText] at he
  cases vs with
  | nil => cases he
  | cons v vs =>
    cases vs with
    | nil =>
      obtain ⟨w, hw, hv⟩ := hmem v List.mem_cons_self
      obtain ⟨w', hw'⟩ := List.length_eq_one_iff.1 hlength.symm
      have hrow := intercalate_splitOnP bare
      rw [hw', List.mem_singleton] at hw
      rw [hw', List.intercalate_singleton, ← hw] at hrow
      subst hrow
      rw [List.map_singleton, List.intercalate_singleton] at he
      by_cases hstring : v.primitive = .string
      · have hp : p = .string := (Value.primitive_of_read hv).symm.trans hstring
        rw [Value.text_of_read (Or.inl hp) hv, String.toList_ofList, hbare] at he
        exact habsent he
      · exact Value.text_ne_absent hstring (Value.isRead_of_read hv) he
    | cons u vs =>
      have hcomma : ',' ∈ absent.toList := by
        rw [← he, List.map_cons, List.intercalate_cons_of_ne_nil (by simp)]
        simp
      exact absurd hcomma (by decide)

/-! ## 5. Constraints -/

/-- A constraint as it can be read. -/
def IsRead (p : Primitive) : Constraint → Prop
  | unconstrained => True
  | range x y => AreBounds p x y
  | set vs => vs ≠ [] ∧ (∀ v ∈ vs, IsItem p v) ∧ (set vs).text.toList ≠ absent.toList

/-- The values of a list that was read have no comma and no separator of a range. -/
theorem isRead_of_readItems {p : Primitive} {bare : List Char} {vs : List Value}
    (hbare : trim bare = bare) (habsent : bare ≠ absent.toList)
    (hcut : cut? rangeSeparator.toList bare = none)
    (h : (bare.splitOnP (· == ',')).mapM (fun w => Value.read p (String.ofList w)) = .ok vs) :
    IsRead p (set vs) := by
  obtain ⟨hlength, hmem⟩ := mem_of_mapM_eq_ok h
  refine ⟨fun hnil => ?_, fun v hv => ?_, setText_ne_absent hbare habsent h⟩
  · rw [hnil] at hlength
    exact List.splitOnP_ne_nil _ _ (List.length_eq_zero_iff.1 hlength.symm)
  · obtain ⟨w, hw, hread⟩ := hmem v hv
    have hwithin : w <:+: bare := intercalate_splitOnP bare ▸ infix_of_mem_intercalate hw
    exact isItem_of_read (comma_not_mem_of_mem_splitOnP hw)
      (fun hs => not_infix_of_cut?_eq_none (by decide) hcut (hs.trans hwithin)) hread

theorem isRead_of_read {p : Primitive} {s : String} {c : Constraint} (h : read p s = .ok c) :
    c.IsRead p := by
  rw [read] at h
  split at h
  · cases h
    trivial
  · rename_i habsent
    split at h
    · rename_i hcut
      obtain ⟨hlowText, hhighText⟩ := trim_parts_ne_nil (snug_trim _) hcut
      simp only [bind_eq_ok_iff] at h
      obtain ⟨low, hlow, high, hhigh, h⟩ := h
      split at h
      · cases h
      · rename_i hsome
        rw [Bool.not_eq_true, Option.isNone_eq_false_iff] at hsome
        obtain ⟨x, y, hbetween, hbounds⟩ := areBounds_between hlow hhigh
          (by rw [String.toList_ofList]; exact hlowText)
          (by rw [String.toList_ofList]; exact hhighText) hsome
        rw [hbetween] at h
        cases h
        exact hbounds
    · rename_i hcut
      obtain ⟨vs, hvs, h⟩ := bind_eq_ok_iff.1 h
      cases h
      exact isRead_of_readItems (trim_trim _) habsent hcut hvs

/-- The values in a constraint that was read were read each. -/
theorem read_of_mem_values {p : Primitive} {s : String} {c : Constraint} (h : read p s = .ok c) :
    ∀ v ∈ c.values, ∃ text, Value.read p text = .ok v := by
  rw [read] at h
  split at h
  · cases h
    exact fun v hv => absurd hv List.not_mem_nil
  · split at h
    · simp only [bind_eq_ok_iff] at h
      obtain ⟨low, hlow, high, hhigh, h⟩ := h
      split at h
      · cases h
      · cases h
        intro v hv
        have hbound : v = low ∨ v = high := by
          rw [between] at hv
          split at hv
          · simpa [values, or_comm] using hv
          · simpa [values] using hv
        obtain rfl | rfl := hbound
        · exact ⟨_, hlow⟩
        · exact ⟨_, hhigh⟩
    · obtain ⟨vs, hvs, h⟩ := bind_eq_ok_iff.1 h
      cases h
      intro v hv
      obtain ⟨w, -, hw⟩ := (mem_of_mapM_eq_ok hvs).2 v hv
      exact ⟨_, hw⟩

/-- A constraint that was read and leaves no choice admits the value that it leaves. -/
theorem metBy_of_singleValue? {p : Primitive} {s : String} {c : Constraint} {v : Value}
    (h : read p s = .ok c) (hv : c.singleValue? = some v) : v ∈ c.values ∧ c.metBy v = true := by
  have hread := isRead_of_read h
  cases c with
  | unconstrained => cases hv
  | range a b =>
    rw [singleValue?] at hv
    split at hv
    · cases hv
      have hself := Value.order?_self hread.comparable
      refine ⟨List.mem_cons_self, ?_⟩
      rw [metBy, Value.atMost_of_order? hread.comparable hread.ordered, Value.atMost, hself]
      rfl
    · cases hv
  | set vs =>
    cases vs with
    | nil => cases hv
    | cons w vs =>
      cases vs with
      | cons u vs => cases hv
      | nil =>
        cases hv
        obtain ⟨text, htext⟩ := read_of_mem_values h v List.mem_cons_self
        refine ⟨List.mem_cons_self, ?_⟩
        rw [metBy, List.any_cons, Value.same_self_of_read htext]
        rfl

/-- What is written for a constraint that was read is read as that constraint, if a range of strings
is cut where it was put together. -/
theorem read_text {p : Primitive} {c : Constraint} (h : c.IsRead p)
    (hback : ∀ v ∈ c.values, v.ReadsBack) (honce : p = .string → c.CutsOnce) :
    read p c.text = .ok c.toMicros := by
  cases c with
  | unconstrained =>
    rw [text, read, if_pos (by decide)]
    rfl
  | range x y =>
    exact read_rangeText h honce (hback x List.mem_cons_self)
      (hback y (List.mem_cons_of_mem x List.mem_cons_self))
  | set vs =>
    obtain ⟨hnil, hitems, habsent⟩ := h
    exact read_setText hnil hitems hback habsent

end Constraint

end Measurement
