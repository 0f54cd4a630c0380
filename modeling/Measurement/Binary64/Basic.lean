/-
Binary64: the real numbers of the 64-bit binary interchange format.

A number is given by its sign and its *rank*, its place among the magnitudes of
the format in ascending order: rank 0 is zero, rank 1 the least magnitude,
2⁻¹⁰⁷⁴, and `infiniteRank` is the infinite one. Ranks make order a comparison
of naturals and rounding a computation of one natural number, and every number
but zero has one representation. All magnitudes are whole multiples of 2⁻¹⁰⁷⁴,
so a magnitude is kept exactly as that multiple (`units`), and the operations
round an exact quotient once, to the nearest magnitude and between two to the
even rank.
-/

set_option autoImplicit false

namespace Measurement

/-- A number of the 64-bit binary format. -/
inductive Binary64 where
  /-- No number. -/
  | nan
  /-- The magnitude with this rank, with its sign. -/
  | number (negative : Bool) (rank : Nat)
deriving DecidableEq, Repr

namespace Binary64

/-! ## 1. Ranks and magnitudes -/

/-- Magnitudes come in blocks of 2⁵² with the same spacing. -/
def blockSize : Nat := Nat.pow 2 52

/-- The rank of the infinite magnitude. -/
def infiniteRank : Nat := 2047 * blockSize

/-- The magnitude of a rank, in units of 2⁻¹⁰⁷⁴. The spacing is one unit in the first two blocks
and doubles from each block to the next. -/
def units (rank : Nat) : Nat :=
  if rank < blockSize then rank
  else (blockSize + rank % blockSize) * Nat.pow 2 (rank / blockSize - 1)

/-- The quotient rounded to the nearest whole number, a half to the even one. -/
def roundQuotient (num den : Nat) : Nat :=
  let q := num / den
  let r := num % den
  if 2 * r < den then q
  else if den < 2 * r then q + 1
  else if q % 2 = 0 then q else q + 1

/-- The rank of the magnitude nearest to `num / den`. The spacing at that place is 2ᵏ units,
where the quotient has 53 + k binary digits; a quotient that rounds up to the next block carries
into it by itself. -/
def rankOfRatio (num den : Nat) : Nat :=
  let scaled := num * Nat.pow 2 1074
  let k := Nat.log2 (scaled / den) - 52
  min infiniteRank (k * blockSize + roundQuotient scaled (den * Nat.pow 2 k))

/-! ## 2. Order -/

/-- Zero is zero with either sign, and no number equals nothing, itself included. -/
def same : Binary64 → Binary64 → Bool
  | number s a, number t b => (s == t && a == b) || (a == 0 && b == 0)
  | _, _ => false

/-- The place of a number on the line: its rank, below zero for the negative ones. -/
def place : Bool → Nat → Int
  | true, rank => -rank
  | false, rank => rank

/-- The order of two numbers; none where one of them is no number. -/
def order? : Binary64 → Binary64 → Option Ordering
  | number s a, number t b => some (compare (place s a) (place t b))
  | _, _ => none

/-! ## 3. Operations on magnitudes -/

/-- The rank of the product of two magnitudes. -/
def timesRank (a b : Nat) : Nat := rankOfRatio (units a * units b) (Nat.pow 2 2148)

/-- The rank of the quotient of two magnitudes, the second not zero. -/
def overRank (a b : Nat) : Nat := rankOfRatio (units a) (units b)

/-- The rank of a natural number. -/
def rankOfNat (n : Nat) : Nat := rankOfRatio n 1

end Binary64

end Measurement
