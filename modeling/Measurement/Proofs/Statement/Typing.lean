/-
Whether the values of parameters are of the right sort.

A value that is given to a parameter is checked, and one that is read is of the
primitive that it was read as. The value that a parameter is filled with is
taken from its constraint unchecked. A constraint that was read leaves only a
value of the right primitive that it admits, but one that is given as it stands
may leave any value, and what is no number is not even admitted by the
constraint that names it (`Constraint.metBy_singleValue?_iff`).

So the values of parameters fit exactly as long as no such constraint is given
(`values_fit_iff`).
-/
import Measurement.Proofs.Statement.Acceptance

set_option autoImplicit false

namespace Measurement

/-! ## 1. Values that differ from themselves -/

namespace Value

/-- Every value equals itself but what is no number. -/
theorem same_self_iff (v : Value) : v.same v = true ↔ v ≠ .real .nan := by
  cases v with
  | real x => cases x <;> simp [same, Binary64.same]
  | _ => simp [same]

/-- Every value can be compared with itself but what is no number. -/
theorem isSome_order? {v : Value} (h : v ≠ .real .nan) : (v.order? v).isSome = true := by
  cases v with
  | real x =>
    cases x with
    | nan => exact absurd rfl h
    | number s m => rfl
  | _ => rfl

/-- Of equal values neither is before the other. -/
theorem order?_of_same {a b : Value} (h : a.same b = true) : a.order? b = some .eq := by
  cases a with
  | real x =>
    cases b with
    | real y =>
      cases x with
      | nan => cases h
      | number s m =>
        cases y with
        | nan => cases h
        | number t n =>
          -- Zero has one place on the line with either sign.
          have hplace : Binary64.place s m = Binary64.place t n := by
            simp only [same, Binary64.same, Bool.or_eq_true, Bool.and_eq_true, beq_iff_eq] at h
            obtain ⟨rfl, rfl⟩ | ⟨rfl, rfl⟩ := h
            · rfl
            · cases s <;> cases t <;> rfl
          rw [order?, Binary64.order?, hplace]
          exact congrArg some Std.ReflCmp.compare_self
    | _ => cases h
  | _ =>
    obtain rfl := of_decide_eq_true h
    exact order?_self (isSome_order? (by rintro ⟨⟩))

end Value

namespace Constraint

variable {c : Constraint} {v : Value}

/-- The value that a constraint leaves is admitted by it unless it is no number. -/
theorem metBy_singleValue?_iff (h : c.singleValue? = some v) :
    c.metBy v = true ↔ v ≠ .real .nan := by
  cases c with
  | unconstrained => cases h
  | range a b =>
    rw [singleValue?] at h
    split at h
    · rename_i hsame
      obtain rfl : a = v := Option.some.inj h
      -- A bound that is no number equals no other, so the range would leave no value.
      have hnumber : a ≠ .real .nan := by
        rintro rfl
        cases b <;> cases hsame
      have hupper := Value.order?_of_same hsame
      have hlower := Value.order?_self (Value.isSome_order? hnumber)
      rw [metBy, Value.atMost, Value.atMost, hlower, hupper]
      simp [hnumber]
    · cases h
  | set vs =>
    cases vs with
    | nil => cases h
    | cons w vs =>
      cases vs with
      | cons u vs => cases h
      | nil =>
        cases h
        rw [metBy, List.any_cons, List.any_nil, Bool.or_false, Value.same_self_iff]

/-- Whether the value that a constraint leaves, if it leaves no choice, is of a primitive and is
not no number. -/
def Fits (c : Constraint) (p : Primitive) : Prop :=
  ∀ v, c.singleValue? = some v → v.primitive = p ∧ v ≠ .real .nan

theorem fits_unconstrained (p : Primitive) : unconstrained.Fits p := fun v hv => (by cases hv)

theorem fits_of_read {p : Primitive} {text : String} (h : read p text = .ok c) : c.Fits p := by
  intro v hv
  obtain ⟨hmem, hmet⟩ := metBy_of_singleValue? h hv
  obtain ⟨item, hitem⟩ := read_of_mem_values h v hmem
  exact ⟨Value.primitive_of_read hitem, (metBy_singleValue?_iff hv).1 hmet⟩

end Constraint

/-! ## 2. Parameters -/

namespace Parameter

/-- Whether the value of a parameter, if it has one, is of its primitive and admitted. -/
def HoldsFitting (p : Parameter) : Prop :=
  ∀ v ∈ p.value, v.primitive = p.primitive ∧ p.constraint.metBy v = true

variable {p : Parameter}

theorem holdsFitting_of_none (h : p.value = none) : p.HoldsFitting := by
  intro v hv
  rw [h] at hv
  cases hv

/-- A parameter is filled with a value that fits if its constraint leaves only such a one. -/
theorem holdsFitting_filled (hc : p.constraint.Fits p.primitive) (h : p.HoldsFitting) :
    p.filled.HoldsFitting := by
  rw [filled]
  split
  · exact h
  · intro v hv
    obtain ⟨hprimitive, hnumber⟩ := hc v hv
    exact ⟨hprimitive, (Constraint.metBy_singleValue?_iff hv).2 hnumber⟩

theorem constraint_filled (p : Parameter) : p.filled.constraint = p.constraint := by
  rw [filled]
  split <;> rfl

end Parameter

namespace Statement

/-! ## 3. Parameters of statements that come about -/

/-- That a parameter has a fitting value, if any, and is filled with a fitting one, if its registry
is of some kind. -/
def fitting (loaded : Registry → Prop) : PartProperty where
  parameter r _ p := loaded r → p.constraint.Fits p.primitive ∧ p.HoldsFitting
  metadata _ _ _ := True
  column _ _ _ := True

section

variable {loaded : Registry → Prop} {allowed : Operation → Prop}

/-- What parameters hold fits as long as no constraint is given that leaves what does not. -/
theorem fitting_kept (h : ∀ r name e c, loaded r → allowed (.addParameter name c) →
    r.element name = .ok e → c.Fits e.primitive) : (fitting loaded).Kept allowed where
  addParameter {r name e c} ho he hr :=
    ⟨h r name e c hr ho he, Parameter.holdsFitting_of_none rfl⟩
  addParameterText _ _ hc _ := ⟨Constraint.fits_of_read hc, Parameter.holdsFitting_of_none rfl⟩
  setParameter _ hp hq hr := by
    obtain ⟨hprimitive, hmet, rfl⟩ := Parameter.assign_eq_ok_iff.1 hq
    refine ⟨(hp hr).1, fun v hv => ?_⟩
    cases hv
    exact ⟨hprimitive, hmet⟩
  setParameterText _ hp hq hr := by
    obtain ⟨o, ho, hmet, rfl⟩ := Parameter.assignText_eq_ok_iff.1 hq
    refine ⟨(hp hr).1, fun v hv => ?_⟩
    cases hv
    exact ⟨Value.primitive_of_readOptional ho, hmet v rfl⟩
  filled {r name p} hp hr := by
    obtain ⟨hfits, hholds⟩ := hp hr
    refine ⟨?_, Parameter.holdsFitting_filled hfits hholds⟩
    rw [Parameter.constraint_filled, Parameter.primitive, Parameter.element_filled]
    exact hfits
  cleared hp hr := ⟨(hp hr).1, Parameter.holdsFitting_of_none rfl⟩
  freed {r name p} hp hr :=
    ⟨Constraint.fits_unconstrained p.primitive, fun v hv => ⟨((hp hr).2 v hv).1, rfl⟩⟩
  addMetadata _ _ _ := trivial
  addMetadataText _ _ _ := trivial
  addColumn _ := trivial
  setCell _ _ _ := trivial
  clearedRows _ := trivial

theorem fitting_of_isRead {kind : MessageKind} {n : Nat} {s : Statement} (h : s.IsRead kind n) :
    (fitting loaded).Holds s := by
  refine ⟨fun e he _ => ?_, fun _ _ => trivial, fun _ _ => trivial⟩
  obtain ⟨⟨text, htext⟩, hvalue⟩ := (fromTexts_of_isRead h).parameters e he
  refine ⟨Constraint.fits_of_read htext, fun v hv => ?_⟩
  obtain ⟨⟨text, hread⟩, hmet⟩ := hvalue v hv
  exact ⟨Value.primitive_of_read hread, hmet⟩

/-- Every value of a parameter, in every statement that comes about through some operations, is of
the element's primitive and admitted by the parameter's constraint exactly if these operations give
no constraint, to an element of a registry, that leaves only a value of another primitive or what is
no number. Asked for is that parameters can be filled at all. -/
theorem values_fit_iff (hfill : allowed .fillParameters ∨ allowed .specify) :
    (∀ s, Reachable loaded allowed s → ∀ p ∈ s.parameters.values, ∀ v ∈ p.value,
        v.primitive = p.primitive ∧ p.constraint.metBy v = true)
      ↔ ∀ r name e c, loaded r → allowed (.addParameter name c) → r.element name = .ok e →
        ∀ v, c.singleValue? = some v → v.primitive = e.primitive ∧ v ≠ .real .nan := by
  constructor
  · intro hall r name e c hr ho he v hv
    -- The constraint is given to the first parameter of an empty statement, which is then filled.
    have hadd : (Operation.addParameter name c).apply (make "" r)
        = { make "" r with parameters := Table.empty.insert name (.make e c) } := by
      rw [Operation.apply, addParameter_eq_ok_iff.2 ⟨e, he, rfl⟩]
      rfl
    obtain ⟨o, hallowed, hvalues⟩ : ∃ o, allowed o
        ∧ (o.apply ((Operation.addParameter name c).apply (make "" r))).parameters.values
          = [⟨e, c, c.singleValue?⟩] := by
      rw [hadd]
      obtain hfill | hfill := hfill
      · exact ⟨_, hfill, rfl⟩
      · exact ⟨_, hfill, rfl⟩
    have hreachable := Reachable.apply o hallowed (.apply (.addParameter name c) ho (.make "" hr))
    obtain ⟨hprimitive, hmet⟩ := hall _ hreachable ⟨e, c, c.singleValue?⟩
      (by rw [hvalues]; exact List.mem_singleton_self _) v hv
    exact ⟨hprimitive, (Constraint.metBy_singleValue?_iff hv).1 hmet⟩
  · intro h s hs p hp
    obtain ⟨hr, hholds⟩ := holds_of_reachable (fitting_kept h) (fun {lookup j m kind s} hm hs => by
      obtain ⟨n, hread, -⟩ := Message.isRead_ofJson lookup j m hm (kind, s) hs
      exact fitting_of_isRead hread) hs
    obtain ⟨e, he, rfl⟩ := List.mem_map.1 hp
    exact (hholds.parameters e he hr).2

end

/-! ## 4. Samples -/

open Capability

/-- A text that leaves no choice, given to an element for texts. -/
theorem text_filled_in_fits :
    let add := Operation.addParameter "a" (.set [.string "x"])
    let s := (make "v" letters).run [add, .fillParameters]
    s.parameterValue? "a" = some (.string "x")
      ∧ ∀ p ∈ s.parameters.values, ∀ v ∈ p.value,
        v.primitive = p.primitive ∧ p.constraint.metBy v = true := by
  intro add s
  have hs : Reachable (fun r => r = letters) (fun o => o = add ∨ o = .fillParameters) s := by
    refine reachable_run (s := make "v" letters) (.make "v" (by exact rfl)) fun o ho => ?_
    rwa [List.mem_cons, List.mem_singleton] at ho
  refine ⟨by decide, (values_fit_iff (.inl (.inr rfl))).2 ?_ s hs⟩
  rintro r name e c rfl (hadd | hadd) he v hv
  · obtain ⟨rfl, rfl⟩ := Operation.addParameter.inj hadd
    cases hv
    cases he
    exact ⟨rfl, by decide⟩
  · cases hadd

/-- A number that leaves no choice, given to an element for texts, is filled in. -/
theorem number_is_filled_in_for_text :
    let s := (make "v" letters).run [.addParameter "a" (.set [.natural 7]), .fillParameters]
    Reachable Registry.IsLoaded (fun _ => True) s
      ∧ ¬ ∀ p ∈ s.parameters.values, ∀ v ∈ p.value,
        v.primitive = p.primitive ∧ p.constraint.metBy v = true := by
  intro s
  refine ⟨reachable_run (.make "v" isLoaded_letters) fun _ _ => trivial, ?_⟩
  decide

end Statement

end Measurement
