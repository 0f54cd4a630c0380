/-
Numbers of JSON texts.

A number without point and exponent that fits 64 bits, with or without sign, is
kept as an integer; every other number is a Binary64 number, and so is `-0`.

A real number is read by accumulating as many digits as fit an unsigned 64-bit
significand and scaling that once by a power of ten; digits beyond it only
count as places. Both steps round, so the result can differ in its last bit
from the number nearest to the numeral. A number beyond the largest finite
magnitude has no value.

Taking a numeral off a text says where the text stopped being one; every
numeral has at least one character, so what follows it is shorter.
-/
import Measurement.Binary64.Decimal
import Measurement.Json.Fault

set_option autoImplicit false

namespace Measurement.Json

open Measurement.Text

/-- A number of a JSON text. -/
inductive Number where
  /-- An integer of 64 bits, signed or unsigned. -/
  | integer (n : Int)
  /-- A real number. -/
  | real (x : Binary64)
deriving DecidableEq, Repr

namespace Number

/-- The text of a number; a real number always shows that it is one. -/
def text : Number → String
  | integer n => (if n < 0 then "-" else "") ++ String.ofList (decimal n.natAbs)
  | real x => x.scientific

/-! ## 1. Reading -/

/-- The largest significand. -/
def maxSignificand : Nat := Nat.pow 2 64 - 1

/-- Takes digits into a significand as long as it does not outgrow 64 bits; returns the digits
left over with it. -/
def absorb (significand : Nat) : List Char → Nat × List Char
  | [] => (significand, [])
  | c :: r =>
    let next := 10 * significand + (c.toNat - 48)
    if maxSignificand < next then (significand, c :: r) else absorb next r

/-- The rank of `10^308`, the largest power of ten that is scaled by at once. -/
def largestPower : Nat := Binary64.rankOfNat (Nat.pow 10 308)

/-- Scales a magnitude by a power of ten. None if the result is beyond the finite magnitudes. A
magnitude that is zero already stays so, which ends the descent for any exponent after three
steps. -/
def scale? : Nat → Nat → Int → Option Nat
  | 0, rank, _ => some rank
  | fuel + 1, rank, e =>
    if 308 < e then (if rank = 0 then some 0 else none)
    else if 0 ≤ e then
      let product := Binary64.timesRank rank (Binary64.rankOfNat (Nat.pow 10 e.toNat))
      if product < Binary64.infiniteRank then some product else none
    else if -308 ≤ e then
      some (Binary64.overRank rank (Binary64.rankOfNat (Nat.pow 10 (-e).toNat)))
    else if rank = 0 then some 0
    else scale? fuel (Binary64.overRank rank largestPower) (e + 308)

/-- The parts of a numeral as it is written. -/
structure Numeral where
  negative : Bool
  /-- The digits before the point. -/
  whole : List Char
  /-- The digits after the point, if there is one. -/
  fraction : Option (List Char)
  /-- The exponent's sign and digits, if there is one. -/
  exponent : Option (Bool × List Char)

/-- The number that a numeral stands for; none if it is out of range. -/
def ofNumeral? (x : Numeral) : Option Number :=
  let (head, spare) := absorb 0 x.whole
  match x.fraction, x.exponent, spare with
  | none, none, [] =>
    if !x.negative then some (integer head)
    -- No integer is a negative zero, and none of 64 bits lies this far below zero.
    else if head = 0 ∨ Nat.pow 2 63 < head then some (real (.number true (Binary64.rankOfNat head)))
    else some (integer (-head))
  | _, _, _ =>
    let places := x.fraction.getD []
    let (significand, unread) := absorb head places
    -- Digits that were left over before the point count as places to the left of it.
    let base : Int := spare.length - (places.length - unread.length : Nat)
    let (down, ds) := x.exponent.getD (false, ['0'])
    let e := valueOfDigits ds
    let rank? :=
      -- An exponent beyond 32 bits is as good as an infinite one.
      if Nat.pow 2 31 ≤ e then (if significand = 0 ∨ down then some 0 else none)
      else scale? 8 (Binary64.rankOfNat significand) (if down then base - e else base + e)
    rank?.map fun rank => real (.number x.negative rank)

/-! ## 2. Taking a numeral off the front of a text -/

/-- Takes a row of digits, perhaps an empty one. -/
def takeDigits (s : List Char) : List Char × List Char :=
  (s.takeWhile Char.isDigit, s.dropWhile Char.isDigit)

/-- Takes a minus sign, if there is one. -/
def takeMinus : List Char → Bool × List Char
  | '-' :: r => (true, r)
  | s => (false, s)

/-- Takes a plus or minus sign, if there is one; true for minus. -/
def takeSign : List Char → Bool × List Char
  | '-' :: r => (true, r)
  | '+' :: r => (false, r)
  | s => (false, s)

/-- Takes a point and the digits after it, if there is a point. -/
def takeFraction : List Char → Option (List Char) × List Char
  | '.' :: r => (some (takeDigits r).1, (takeDigits r).2)
  | s => (none, s)

/-- Takes an exponent, if there is one. -/
def takeExponent : List Char → Option (Bool × List Char) × List Char
  | [] => (none, [])
  | c :: r =>
    if c = 'e' ∨ c = 'E' then
      let signed := takeSign r
      (some (signed.1, (takeDigits signed.2).1), (takeDigits signed.2).2)
    else (none, c :: r)

/-- The number of digits behind the one with which a number outgrows 32 bits, if it does. -/
def beyondExponent (n : Nat) : List Char → Nat
  | [] => 0
  | c :: r =>
    let next := 10 * n + (c.toNat - 48)
    if Nat.pow 2 31 ≤ next then r.length else beyondExponent next r

/-- Takes the digits of a numeral before the point, without superfluous zeros. -/
def takeWhole (s : List Char) : Except Stop (List Char × List Char) :=
  match takeDigits s with
  | ([], r) => .error (.missing .badNumeral r)
  | ('0' :: _ :: more, r) => .error ⟨.badNumeral, octets r + more.length⟩
  | p => .ok p

/-- Takes a numeral and returns what follows it: an integer part without superfluous zeros, and
perhaps a fraction and an exponent, each with at least one digit. -/
def takeNumeral (s : List Char) : Except Stop (Numeral × List Char) := do
  let signed := takeMinus s
  let whole ← takeWhole signed.2
  let fraction := takeFraction whole.2
  if fraction.1 = some [] then .error (.missing .badNumeral fraction.2)
  let exponent := takeExponent fraction.2
  if exponent.1.map (·.2) = some [] then .error (.missing .badNumeral exponent.2)
  .ok (⟨signed.1, whole.1, fraction.1, exponent.1⟩, exponent.2)

/-- Where a numeral turned out to be out of range that is followed by `rest`. -/
def rangeStop (x : Numeral) (rest : List Char) : Stop :=
  -- An exponent is given up as soon as it is too large, all else when the numeral is complete.
  ⟨.outOfRange, octets rest + beyondExponent 0 ((x.exponent.map (·.2)).getD [])⟩

/-! ## 3. A numeral is not empty -/

theorem length_takeDigits (s : List Char) :
    (takeDigits s).1.length + (takeDigits s).2.length = s.length := by
  have h := congrArg List.length (List.takeWhile_append_dropWhile (p := Char.isDigit) (l := s))
  rwa [List.length_append] at h

theorem length_takeMinus_le (s : List Char) : (takeMinus s).2.length ≤ s.length := by
  unfold takeMinus
  split <;> simp

theorem length_takeSign_le (s : List Char) : (takeSign s).2.length ≤ s.length := by
  unfold takeSign
  split <;> simp

theorem length_takeFraction_le (s : List Char) : (takeFraction s).2.length ≤ s.length := by
  unfold takeFraction
  split
  · rename_i r
    have := length_takeDigits r
    simp only [List.length_cons]
    omega
  · exact Nat.le_refl _

theorem length_takeExponent_le (s : List Char) : (takeExponent s).2.length ≤ s.length := by
  unfold takeExponent
  split
  · exact Nat.le_refl _
  · rename_i c r
    split
    · have h₁ := length_takeSign_le r
      have h₂ := length_takeDigits (takeSign r).2
      simp only [List.length_cons]
      omega
    · exact Nat.le_refl _

theorem length_of_takeWhole {s : List Char} {p : List Char × List Char}
    (h : takeWhole s = .ok p) : p.2.length < s.length := by
  have hs := length_takeDigits s
  unfold takeWhole at h
  split at h
  · exact absurd h (by simp)
  · exact absurd h (by simp)
  · rename_i hne _
    cases h
    cases hw : (takeDigits s).1 with
    | nil => exact (hne (takeDigits s).2 (Prod.ext hw rfl)).elim
    | cons c r =>
      rw [hw, List.length_cons] at hs
      omega

theorem length_of_takeNumeral {s : List Char} {p : Numeral × List Char}
    (h : takeNumeral s = .ok p) : p.2.length < s.length := by
  unfold takeNumeral at h
  cases hw : takeWhole (takeMinus s).2 with
  | error e => simp [hw, bind, Except.bind] at h
  | ok whole =>
    simp only [hw, bind, Except.bind] at h
    have h₁ := length_takeMinus_le s
    have h₂ := length_of_takeWhole hw
    have h₃ := length_takeFraction_le whole.2
    have h₄ := length_takeExponent_le (takeFraction whole.2).2
    split at h
    · exact absurd h (by simp)
    · split at h
      · exact absurd h (by simp)
      · cases h
        simp only
        omega

end Number

end Measurement.Json
