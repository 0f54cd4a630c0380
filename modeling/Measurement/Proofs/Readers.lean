/-
Readers that succeed.

A reader is a chain of steps of which each can fail. If the chain gives
something, then every step did, and the lemmas below name what the steps gave.
What each step of a fold preserves holds of what the fold gives.
-/
import Mathlib.Data.List.Forall2

set_option autoImplicit false

namespace Measurement

variable {ε δ α β σ : Type}

theorem ok_bind (a : α) (f : α → Except ε β) : Except.ok a >>= f = f a := rfl

theorem bind_eq_ok_iff {x : Except ε α} {f : α → Except ε β} {b : β} :
    x >>= f = .ok b ↔ ∃ a, x = .ok a ∧ f a = .ok b := by
  cases x with
  | error e => exact ⟨fun h => (by cases h), fun ⟨a, ha, _⟩ => (by cases ha)⟩
  | ok a => exact ⟨fun h => ⟨a, rfl, h⟩, fun ⟨a', ha, h⟩ => (by cases ha; exact h)⟩

theorem map_eq_ok_iff {x : Except ε α} {f : α → β} {b : β} :
    x.map f = .ok b ↔ ∃ a, x = .ok a ∧ f a = b := by
  cases x with
  | error e => exact ⟨fun h => (by cases h), fun ⟨a, ha, _⟩ => (by cases ha)⟩
  | ok a =>
    refine ⟨fun h => ⟨a, rfl, Except.ok.inj h⟩, fun ⟨a', ha, h⟩ => ?_⟩
    cases ha
    exact congrArg Except.ok h

theorem mapError_eq_ok_iff {x : Except ε α} {f : ε → δ} {a : α} :
    x.mapError f = .ok a ↔ x = .ok a := by
  cases x with
  | error e => exact ⟨fun h => (by cases h), fun h => (by cases h)⟩
  | ok b => exact ⟨fun h => congrArg Except.ok (Except.ok.inj h), fun h => (by cases h; rfl)⟩

theorem unless_eq_ok_iff {p : Prop} [Decidable p] {e : ε} {x : Except ε α} {a : α} :
    (if p then .error e else x) = .ok a ↔ ¬ p ∧ x = .ok a := by
  by_cases hp : p
  · rw [if_pos hp]
    exact ⟨fun h => (by cases h), fun h => absurd hp h.1⟩
  · rw [if_neg hp]
    exact (and_iff_right hp).symm

/-- What holds at first and is preserved by every step holds in the end. -/
theorem foldlM_invariant {step : σ → α → Except ε σ} {p : σ → Prop} {items : List α}
    (hstep : ∀ s a t, p s → step s a = .ok t → p t) {s t : σ} (hs : p s)
    (h : items.foldlM step s = .ok t) : p t := by
  induction items generalizing s with
  | nil =>
    cases h
    exact hs
  | cons a items ih =>
    rw [List.foldlM_cons, bind_eq_ok_iff] at h
    obtain ⟨u, hu, h⟩ := h
    exact ih (hstep s a u hs hu) h

/-- Items that can all be read are read one by one. -/
theorem mapM_eq_ok {f : α → Except ε β} {g : α → β} {items : List α}
    (h : ∀ a ∈ items, f a = .ok (g a)) : items.mapM f = .ok (items.map g) := by
  induction items with
  | nil => rfl
  | cons a items ih =>
    rw [List.forall_mem_cons] at h
    rw [List.mapM_cons, h.1, ih h.2]
    rfl

/-- What is read item by item comes from the items. -/
theorem mem_of_mapM_eq_ok {f : α → Except ε β} {items : List α} {bs : List β}
    (h : items.mapM f = .ok bs) :
    bs.length = items.length ∧ ∀ b ∈ bs, ∃ a ∈ items, f a = .ok b := by
  induction items generalizing bs with
  | nil =>
    cases h
    exact ⟨rfl, fun b hb => absurd hb List.not_mem_nil⟩
  | cons a items ih =>
    rw [List.mapM_cons] at h
    simp only [bind_eq_ok_iff] at h
    obtain ⟨b, hb, rest, hrest, he⟩ := h
    cases he
    obtain ⟨hlength, hmem⟩ := ih hrest
    refine ⟨congrArg Nat.succ hlength, fun c hc => ?_⟩
    obtain rfl | hc := List.mem_cons.1 hc
    · exact ⟨a, List.mem_cons_self, hb⟩
    · obtain ⟨x, hx, hf⟩ := hmem c hc
      exact ⟨x, List.mem_cons_of_mem a hx, hf⟩

/-- What is read item by item is what each of the items is read as. -/
theorem mapM_eq_ok_iff {f : α → Except ε β} {items : List α} {bs : List β} :
    items.mapM f = .ok bs ↔ List.Forall₂ (fun a b => f a = .ok b) items bs := by
  induction items generalizing bs with
  | nil =>
    rw [List.forall₂_nil_left_iff]
    exact ⟨fun h => (Except.ok.inj h).symm, fun h => congrArg Except.ok h.symm⟩
  | cons a items ih =>
    rw [List.mapM_cons, List.forall₂_cons_left_iff]
    simp only [bind_eq_ok_iff, ih]
    constructor
    · rintro ⟨b, hb, rest, hrest, h⟩
      exact ⟨b, rest, hb, hrest, (Except.ok.inj h).symm⟩
    · rintro ⟨b, rest, hb, hrest, rfl⟩
      exact ⟨b, hb, rest, hrest, rfl⟩

/-- What a reader gives can be tested. -/
instance decidableExistsOk {p : α → Prop} [DecidablePred p] (x : Except ε α) :
    Decidable (∃ a, x = .ok a ∧ p a) :=
  match x with
  | .ok a => decidable_of_iff (p a) ⟨fun h => ⟨a, rfl, h⟩, fun ⟨_, he, h⟩ => (by cases he; exact h)⟩
  | .error _ => isFalse fun ⟨_, he, _⟩ => (by cases he)

end Measurement
