/-
Which constraints leave no choice.

A constraint leaves no choice if it admits one value of its primitive and no
other (`Constraint.IsSole`). What `singleValue?` looks at is how the constraint
is written: a range with equal bounds or a list of one item. The two agree on
every constraint that was read, but for a list of several items: such a list
may say one value again and again, in one spelling or in several, and then it
leaves no choice although no value is given for it
(`singleValue?_eq_some_iff_isSole`).

For ranges this rests on the order of values. Of one primitive other than the
real numbers, what is neither before nor behind a value is that value
(`Value.eq_of_atMost`), so a range holds both of its bounds and nothing else
exactly if they are equal.
-/
import Measurement.Proofs.Constraint

set_option autoImplicit false

namespace Measurement

/-! ## 1. Values in one place -/

theorem Address.eq_of_orderRows {as bs : List Nat} (h : orderRows as bs = .eq) : as = bs := by
  induction as generalizing bs with
  | nil =>
    cases bs with
    | nil => rfl
    | cons b bs => cases h
  | cons a as ih =>
    cases bs with
    | nil => cases h
    | cons b bs =>
      rw [orderRows, Ordering.then_eq_eq] at h
      obtain ⟨hhead, hrest⟩ := h
      rw [Std.LawfulEqCmp.eq_of_compare hhead, ih hrest]

theorem Address.eq_of_order {a b : Address} (h : a.order b = .eq) : a = b := by
  cases a with
  | v4 xs =>
    cases b with
    | v6 ys => cases h
    | v4 ys =>
      have hrows := List.map_injective_iff.2 (fun _ _ => UInt8.toNat_inj.1) (eq_of_orderRows h)
      exact congrArg v4 (Vector.toList_inj.1 hrows)
  | v6 xs =>
    cases b with
    | v4 ys => cases h
    | v6 ys =>
      have hrows := List.map_injective_iff.2 (fun _ _ => UInt16.toNat_inj.1) (eq_of_orderRows h)
      exact congrArg v6 (Vector.toList_inj.1 hrows)

namespace Value

variable {a b : Value}

/-- Of two values that are no real numbers, one is before the other unless they are equal. -/
theorem eq_of_order? (hreal : a.primitive ≠ .real) (h : a.order? b = some .eq) : a = b := by
  cases a with
  | real x => exact absurd rfl hreal
  | string s =>
    cases b with
    | string t => exact congrArg string (Std.LawfulEqCmp.eq_of_compare (Option.some.inj h))
    | _ => cases h
  | natural m =>
    cases b with
    | natural n =>
      have hnat : m.toNat = n.toNat := Std.LawfulEqCmp.eq_of_compare (Option.some.inj h)
      exact congrArg natural (UInt64.toNat_inj.1 hnat)
    | _ => cases h
  | boolean p =>
    cases b with
    | boolean q => exact congrArg boolean (Std.LawfulEqCmp.eq_of_compare (Option.some.inj h))
    | _ => cases h
  | time t =>
    cases b with
    | time u =>
      have hplace : t.place = u.place := Std.LawfulEqCmp.eq_of_compare (Option.some.inj h)
      exact congrArg time (Instant.eq_of_place_eq hplace)
    | _ => cases h
  | address x =>
    cases b with
    | address y => exact congrArg address (Address.eq_of_order (Option.some.inj h))
    | _ => cases h
  | url s =>
    cases b with
    | url t => exact congrArg url (Std.LawfulEqCmp.eq_of_compare (Option.some.inj h))
    | _ => cases h

theorem atMost_iff : a.atMost b = true ↔ a.order? b = some .lt ∨ a.order? b = some .eq := by
  rw [atMost]
  split
  · rename_i h
    simp [h]
  · rename_i h
    simp [h]
  · rename_i hlt heq
    exact ⟨fun h => (by cases h), fun h => (h.elim hlt heq).elim⟩

theorem atMost_self (hreal : a.primitive ≠ .real) : a.atMost a = true := by
  refine atMost_iff.2 (.inr (order?_self (b := a) ?_))
  cases a with
  | real x => exact absurd rfl hreal
  | _ => rfl

theorem eq_of_atMost (hreal : a.primitive ≠ .real) (hab : a.atMost b = true)
    (hba : b.atMost a = true) : a = b := by
  rw [atMost_iff, order?_swap a b] at hba
  obtain hlt | heq := atMost_iff.1 hab
  · -- Neither of two values can be before the other.
    rw [hlt] at hba
    obtain hba | hba := hba <;> cases hba
  · exact eq_of_order? hreal heq

theorem same_iff (hreal : a.primitive ≠ .real) : a.same b = true ↔ a = b := by
  cases a with
  | real x => exact absurd rfl hreal
  | _ => exact decide_eq_true_iff

/-- Every primitive has more than one value. -/
theorem exists_ne (p : Primitive) (v : Value) : ∃ w : Value, w.primitive = p ∧ w ≠ v := by
  have htwo : ∃ x y : Value, x.primitive = p ∧ y.primitive = p ∧ x ≠ y := by
    cases p with
    | string => exact ⟨string "", string "a", rfl, rfl, by decide⟩
    | natural => exact ⟨natural 0, natural 1, rfl, rfl, by decide⟩
    | real => exact ⟨real .nan, real (.number true 0), rfl, rfl, by decide⟩
    | boolean => exact ⟨boolean true, boolean false, rfl, rfl, by decide⟩
    | time => exact ⟨time (.ofParts 0 0 0), time (.ofParts 0 0 1), rfl, rfl, by decide⟩
    | address =>
      exact ⟨address (.v4 (.replicate 4 0)), address (.v4 (.replicate 4 1)), rfl, rfl, by decide⟩
    | url => exact ⟨url "a:", url "b:", rfl, rfl, by decide⟩
  obtain ⟨x, y, hx, hy, hne⟩ := htwo
  by_cases hv : x = v
  · exact ⟨y, hy, fun h => hne (hv.trans h.symm)⟩
  · exact ⟨x, hx, hv⟩

end Value

/-! ## 2. Constraints that leave no choice -/

namespace Constraint

variable {p : Primitive} {c : Constraint} {v : Value}

/-- Whether a constraint admits a value, and no other one of a primitive. -/
def IsSole (c : Constraint) (p : Primitive) (v : Value) : Prop :=
  c.metBy v = true ∧ ∀ w, w.primitive = p → c.metBy w = true → w = v

/-- Whether a constraint is written as a list of more than one item. -/
def ListsSeveral : Constraint → Prop
  | set (_ :: _ :: _) => True
  | _ => False

theorem not_isSole_unconstrained : ¬ unconstrained.IsSole p v := by
  rintro ⟨-, hsole⟩
  obtain ⟨w, hw, hne⟩ := Value.exists_ne p v
  exact hne (hsole w hw rfl)

/-- A range that was read admits both of its bounds. -/
theorem metBy_bounds {a b : Value} (hp : p ≠ .real) (h : AreBounds p a b) :
    (range a b).metBy a = true ∧ (range a b).metBy b = true := by
  have hab := Value.atMost_of_order? h.comparable h.ordered
  have ha := Value.atMost_self (h.lowPrimitive ▸ hp)
  have hb := Value.atMost_self (h.highPrimitive ▸ hp)
  rw [metBy, metBy, ha, hab, hb]
  exact ⟨rfl, rfl⟩

/-- A range leaves no choice exactly if its bounds are equal. -/
theorem isSole_range_iff {a b : Value} (hp : p ≠ .real) (h : AreBounds p a b) :
    (range a b).IsSole p v ↔ a = v ∧ b = v := by
  constructor
  · rintro ⟨-, hsole⟩
    obtain ⟨hlow, hhigh⟩ := metBy_bounds hp h
    exact ⟨hsole a h.lowPrimitive hlow, hsole b h.highPrimitive hhigh⟩
  · rintro ⟨rfl, rfl⟩
    refine ⟨(metBy_bounds hp h).1, fun w hw hmet => ?_⟩
    rw [metBy, Bool.and_eq_true] at hmet
    exact (Value.eq_of_atMost (h.lowPrimitive ▸ hp) hmet.1 hmet.2).symm

/-- A list leaves no choice exactly if all its items are one value. -/
theorem isSole_set_iff {vs : List Value} (hp : p ≠ .real) (hnil : vs ≠ [])
    (hitems : ∀ w ∈ vs, w.primitive = p) : (set vs).IsSole p v ↔ ∀ w ∈ vs, w = v := by
  have hmet : ∀ w, (set vs).metBy w = true ↔ w ∈ vs := by
    intro w
    rw [metBy, List.any_eq_true]
    constructor
    · rintro ⟨u, hu, hsame⟩
      exact (Value.same_iff (hitems u hu ▸ hp)).1 hsame ▸ hu
    · exact fun hw => ⟨w, hw, (Value.same_iff (hitems w hw ▸ hp)).2 rfl⟩
  constructor
  · rintro ⟨-, hsole⟩ w hw
    exact hsole w (hitems w hw) ((hmet w).2 hw)
  · intro hall
    obtain ⟨w, hw⟩ := List.exists_mem_of_ne_nil vs hnil
    refine ⟨(hmet v).2 (hall w hw ▸ hw), fun u _ hu => hall u ((hmet u).1 hu)⟩

/-- The single value of a constraint that was read is the one value that the constraint admits, and
there is one exactly if the constraint leaves no choice and is not written as a list of several
items. Such a list leaves no choice if all its items are one value, however they are spelled. -/
theorem singleValue?_eq_some_iff_isSole {s : String} (hp : p ≠ .real) (h : read p s = .ok c) :
    (∀ v, c.singleValue? = some v ↔ c.IsSole p v ∧ ¬ c.ListsSeveral)
      ∧ ∀ vs, c = set vs → ∀ v, c.IsSole p v ↔ ∀ w ∈ vs, w = v := by
  have hread := isRead_of_read h
  refine ⟨fun v => ?_, ?_⟩
  · cases c with
    | unconstrained =>
      exact ⟨fun hnone => (by cases hnone), fun hsole => absurd hsole.1 not_isSole_unconstrained⟩
    | range a b =>
      have hsame : a.same b = true ↔ a = b := Value.same_iff (hread.lowPrimitive ▸ hp)
      rw [isSole_range_iff hp hread, singleValue?]
      split
      · rename_i heq
        obtain rfl := hsame.1 heq
        simp [ListsSeveral]
      · rename_i hne
        refine ⟨fun hnone => (by cases hnone), fun hsole => absurd (hsame.2 ?_) hne⟩
        exact hsole.1.1.trans hsole.1.2.symm
    | set vs =>
      obtain ⟨hnil, hitems, -⟩ := hread
      rw [isSole_set_iff hp hnil fun w hw => (hitems w hw).primitive]
      cases vs with
      | nil => exact absurd rfl hnil
      | cons w vs =>
        cases vs with
        | nil => simp [singleValue?, ListsSeveral]
        | cons u vs => simp [singleValue?, ListsSeveral]
  · rintro vs rfl v
    obtain ⟨hnil, hitems, -⟩ := hread
    exact isSole_set_iff hp hnil fun w hw => (hitems w hw).primitive

/-- A range whose bounds are one number leaves that number. -/
theorem equal_bounds_leave_no_choice :
    read .natural "+7 ... 07" = .ok (range (.natural 7) (.natural 7))
      ∧ (range (.natural 7) (.natural 7)).singleValue? = some (.natural 7)
      ∧ (range (.natural 7) (.natural 7)).IsSole .natural (.natural 7) := by
  have hread : read .natural "+7 ... 07" = .ok (range (.natural 7) (.natural 7)) := by
    decide +kernel
  have hsingle : (range (.natural 7) (.natural 7)).singleValue? = some (.natural 7) := rfl
  exact ⟨hread, hsingle,
    ((singleValue?_eq_some_iff_isSole (by decide) hread).1 (.natural 7)).1 hsingle |>.1⟩

/-- A list that says one truth value twice leaves no choice, and no value is given for it. -/
theorem value_said_twice_is_not_found :
    ∃ c, read .boolean "true,TRUE" = .ok c ∧ c.IsSole .boolean (.boolean true)
      ∧ c.singleValue? = none := by
  refine ⟨set [.boolean true, .boolean true], by decide +kernel, ?_, rfl⟩
  exact (isSole_set_iff (by decide) (by decide) (by decide)).2 (by decide)

end Constraint

end Measurement
