/-
What can be read off the text that a digest is made of.

Lines without line breaks can be read off their text one by one, and the last
line even if it holds line breaks. A digest is such a line itself, and it does
not begin as the lines of a content do.
-/
import Measurement.Digest
import Measurement.Proofs.Text.Rows

set_option autoImplicit false

namespace Measurement.Digest

open Measurement.Text

/-! ## 1. Lines -/

theorem toList_linesText_cons (line : String) (lines : List String) :
    (linesText (line :: lines)).toList = line.toList ++ '\n' :: (linesText lines).toList := by
  rw [linesText, linesText, List.map_cons, String.toList_join, String.toList_join,
    List.flatMap_cons, String.toList_append, List.append_assoc]
  rfl

/-- A first line without line breaks can be read off. -/
theorem linesText_cons_inj {line other : String} {lines others : List String}
    (hl : '\n' ∉ line.toList) (ho : '\n' ∉ other.toList)
    (h : linesText (line :: lines) = linesText (other :: others)) :
    line = other ∧ linesText lines = linesText others := by
  have ht := congrArg String.toList h
  rw [toList_linesText_cons, toList_linesText_cons] at ht
  obtain ⟨hline, hlines⟩ := append_mark_inj hl ho ht
  exact ⟨String.toList_inj.1 hline, String.toList_inj.1 hlines⟩

/-- The only line can be read off whatever it holds. -/
theorem linesText_singleton_inj {line other : String}
    (h : linesText [line] = linesText [other]) : line = other := by
  have ht := congrArg String.toList h
  rw [toList_linesText_cons, toList_linesText_cons] at ht
  exact String.toList_inj.1 (List.append_cancel_right ht)

/-! ## 2. Digits -/

theorem digitChar_mem {n : Nat} (h : n < 16) : Nat.digitChar n ∈ "0123456789abcdef".toList := by
  have hall : ∀ m : Fin 16, Nat.digitChar m ∈ "0123456789abcdef".toList := by decide
  exact hall ⟨n, h⟩

theorem mem_ofLines {lines : List String} {c : Char} (h : c ∈ (ofLines lines).toList) :
    c ∈ "0123456789abcdef".toList := by
  rw [ofLines, String.toList_ofList, hexOctets, List.mem_flatMap] at h
  obtain ⟨b, -, hc⟩ := h
  have hb : b.toNat < 256 := b.toNat_lt
  rw [hexOctet, List.mem_cons, List.mem_singleton] at hc
  rcases hc with rfl | rfl
  · exact digitChar_mem (by omega)
  · exact digitChar_mem (by omega)

/-- A digest is a line. -/
theorem lineBreak_not_mem_ofLines (lines : List String) : '\n' ∉ (ofLines lines).toList :=
  fun h => absurd (mem_ofLines h) (by decide)

/-- No lines that start with a digest are lines that start otherwise than with a digit. -/
theorem linesText_ne_of_head {c : Char} {text : List Char} {line : String}
    (hline : line.toList = c :: text) (hdigit : c ∉ "0123456789abcdef".toList) (hbreak : c ≠ '\n')
    (lines others : List String) (digested : List String) :
    linesText (line :: lines) ≠ linesText (ofLines digested :: others) := by
  intro h
  have ht := congrArg String.toList h
  rw [toList_linesText_cons, toList_linesText_cons, hline] at ht
  cases hd : (ofLines digested).toList with
  | nil =>
    rw [hd] at ht
    exact hbreak (List.cons.inj ht).1
  | cons d digits =>
    rw [hd] at ht
    obtain rfl : c = d := (List.cons.inj ht).1
    exact hdigit (mem_ofLines (by rw [hd]; exact List.mem_cons_self))

/-! ## 3. Collisions -/

/-- Whether texts of some lines have one digest only if they are one text. -/
def CollisionFree (texts : List (List String)) : Prop :=
  ∀ lines ∈ texts, ∀ others ∈ texts, ofLines lines = ofLines others →
    linesText lines = linesText others

instance (texts : List (List String)) : Decidable (CollisionFree texts) :=
  inferInstanceAs (Decidable (∀ lines ∈ texts, ∀ others ∈ texts, _ → _))

/-- Lines do not collide with themselves. -/
theorem collisionFree_of_eq {lines others : List String} (h : lines = others) :
    CollisionFree [lines, others] := by
  intro a ha b hb _
  simp only [h, List.mem_cons, List.not_mem_nil, or_false, or_self] at ha hb
  rw [ha, hb]

end Measurement.Digest
