/-
Decimal numerals of Binary64 numbers.

*Reading.* A numeral with an optional sign, point and exponent denotes a
rational, and the number read is the one nearest to it. Numerals beyond the
largest finite magnitude are refused.

*Writing.* The digits written are the fewest that still read back as the same
number, and of those the ones nearest to it. They are found on the decimal
grids 10ᵖ from the coarsest to the finest: a grid has a point in the interval
of reals that round to the number exactly when one of the number's two
neighbours on the grid lies in it. The ends of the interval belong to it when
the rank is even, because a half is rounded to the even rank.

Two layouts share the digits: the plain one never uses an exponent, and the
scientific one writes an exponent with its sign outside 10⁻⁵ … 10¹⁶ (`1e+16`)
and always shows that the number is real (`1.0`).
-/
import Measurement.Binary64.Basic
import Measurement.Text.Numeral

set_option autoImplicit false

namespace Measurement.Binary64

open Measurement.Text

/-! ## 1. Shortest digits -/

/-- Which neighbour is written when the number lies midway between the two. -/
inductive Midway where
  /-- The larger magnitude. -/
  | up
  /-- The one whose last digit is even. -/
  | even
deriving DecidableEq, Repr

/-- A decimal magnitude: `digits · 10^exponent`. -/
structure Scaled where
  digits : Nat
  exponent : Int
deriving DecidableEq, Repr

/-- The neighbour of `num / den` on the whole numbers that lies in the interval
`low / den … high / den`, if one does; the nearer one if both do. -/
def neighbour? (midway : Midway) (closed : Bool) (low num high den : Nat) : Option Nat :=
  let below := num / den
  let above := below + 1
  let inside (d : Nat) : Bool :=
    if closed then low ≤ d * den && d * den ≤ high else low < d * den && d * den < high
  let toBelow := num - below * den
  let toAbove := above * den - num
  let pickBelow : Bool :=
    toBelow < toAbove || (toBelow == toAbove && midway == .even && below % 2 == 0)
  match inside below, inside above with
  | true, true => some (if pickBelow then below else above)
  | true, false => some below
  | false, true => some above
  | false, false => none

/-- The first grid, from `10^p` downwards, with a neighbour in the interval. -/
def scaledFrom (midway : Midway) (closed : Bool) (low num high den : Nat) :
    Nat → Int → Scaled
  | 0, p => ⟨num / den, p⟩
  | fuel + 1, p =>
    let up := Nat.pow 10 p.toNat
    let down := Nat.pow 10 (-p).toNat
    match neighbour? midway closed (low * down) (num * down) (high * down) (den * up) with
    | some d => ⟨d, p⟩
    | none => scaledFrom midway closed low num high den fuel (p - 1)

/-- The fewest digits that read back as the magnitude of a rank, nearest to it. The interval ends
midway to the magnitudes of the ranks beside it, so everything is counted in half units; seventeen
digits always suffice, so twenty grids are enough. -/
def shortest (midway : Midway) (rank : Nat) : Scaled :=
  let num := 2 * units rank
  let low := units (rank - 1) + units rank
  let high := units rank + units (rank + 1)
  let den := Nat.pow 2 1075
  -- The power of ten above the magnitude, from which the grids get finer.
  let top : Int := (decimal (num * Nat.pow 10 400 / den)).length - 400
  scaledFrom midway (rank % 2 == 0) low num high den 20 top

/-! ## 2. Layouts -/

/-- A magnitude without an exponent: zeros are filled in on either side. -/
def plainDigits (x : Scaled) : List Char :=
  let ds := decimal x.digits
  if 0 ≤ x.exponent then ds ++ List.replicate x.exponent.toNat '0'
  else
    let places := (-x.exponent).toNat
    if places < ds.length then
      ds.take (ds.length - places) ++ '.' :: ds.drop (ds.length - places)
    else '0' :: '.' :: (List.replicate (places - ds.length) '0' ++ ds)

/-- A magnitude with one digit before the point and an exponent, whose sign is always written. -/
def exponentDigits (x : Scaled) : List Char :=
  let ds := decimal x.digits
  let e := x.exponent + ds.length - 1
  let sign := if e < 0 then ['-'] else ['+']
  let mantissa := match ds with
    | d :: r => if r.isEmpty then [d] else d :: '.' :: r
    | [] => []
  mantissa ++ 'e' :: (sign ++ decimal e.natAbs)

/-- The scientific layout of a magnitude. -/
def scientificDigits (x : Scaled) : List Char :=
  let point := x.exponent + (decimal x.digits).length
  if point ≤ -5 ∨ 16 < point then exponentDigits x
  else if 0 ≤ x.exponent then plainDigits x ++ ['.', '0']
  else plainDigits x

/-- A number in the plain layout: the fewest digits, a tie going up, and never an exponent. -/
def plain : Binary64 → String
  | nan => "NaN"
  | number negative rank =>
    let sign := if negative then "-" else ""
    if rank = 0 then sign ++ "0"
    else if infiniteRank ≤ rank then sign ++ "inf"
    else sign ++ String.ofList (plainDigits (shortest .up rank))

/-- A finite number in the scientific layout: the fewest digits, a tie going to the even digit. -/
def scientific : Binary64 → String
  | nan => "null"
  | number negative rank =>
    let sign := if negative then "-" else ""
    if rank = 0 then sign ++ "0.0"
    else if infiniteRank ≤ rank then "null"
    else sign ++ String.ofList (scientificDigits (shortest .even rank))

/-! ## 3. Reading -/

/-- The parts of a decimal numeral: the digits before and after the point and the exponent. -/
structure Numeral where
  whole : List Char
  fraction : List Char
  exponent : Int
deriving Repr

/-- An exponent: an optional sign and one or more digits. -/
def exponent? (s : List Char) : Option Int :=
  match s with
  | '-' :: r => (digits? r).map fun n => -(n : Int)
  | '+' :: r => (digits? r).map fun n => (n : Int)
  | _ => (digits? s).map fun n => (n : Int)

/-- An unsigned numeral: digits with a point among or beside them, and perhaps an exponent. -/
def numeral? (s : List Char) : Option Numeral :=
  let mantissa := s.takeWhile fun c => c != 'e' && c != 'E'
  let tail := s.dropWhile fun c => c != 'e' && c != 'E'
  let whole := mantissa.takeWhile (· != '.')
  let afterPoint := mantissa.dropWhile (· != '.')
  let fraction := afterPoint.drop 1
  if !(whole.all Char.isDigit && fraction.all Char.isDigit) then none
  else if whole.isEmpty && fraction.isEmpty then none
  else match tail with
    | [] => some ⟨whole, fraction, 0⟩
    | _ :: r => (exponent? r).map fun e => ⟨whole, fraction, e⟩

/-- The rank nearest to a numeral. The place of its first digit decides by itself far outside the
format, where the powers of ten need not be computed. -/
def Numeral.rank (x : Numeral) : Nat :=
  let ds := (x.whole ++ x.fraction).dropWhile (· == '0')
  let significand := valueOfDigits ds
  let e := x.exponent - x.fraction.length
  let point := e + ds.length
  if significand = 0 then 0
  else if 400 < point then infiniteRank
  else if point < -400 then 0
  else rankOfRatio (significand * Nat.pow 10 e.toNat) (Nat.pow 10 (-e).toNat)

/-- The finite number nearest to a signed numeral. -/
def read? (s : List Char) : Option Binary64 :=
  let (negative, bare) := match s with
    | '-' :: r => (true, r)
    | '+' :: r => (false, r)
    | _ => (false, s)
  (numeral? bare).bind fun x =>
    let rank := x.rank
    if rank < infiniteRank then some (number negative rank) else none

end Measurement.Binary64
