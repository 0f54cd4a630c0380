/-
Numbers, truth values and times of TOML documents.

A number is a decimal integer of 64 bits with sign, the same without sign in one
of three other bases, or a real number with a fraction or an exponent; its
digits may be grouped by single underscores. `inf` and `nan` are real numbers
too, while a numeral too large for a finite one is refused unless it is
negative. A time is a date, a time of day, or both and perhaps a distance from
Coordinated Universal Time.

Every reader here takes its part off the front of a text and gives what follows
it. What comes next in the text decides whether the whole part was taken: a
reader stops where its form ends.
-/
import Measurement.Binary64.Decimal
import Measurement.Text.Split
import Measurement.Time.Calendar

set_option autoImplicit false

namespace Measurement.Toml

open Measurement.Text Measurement.Time

/-! ## 1. Digits -/

/-- Takes the digits that follow a first one, with single underscores between them left out. -/
def takeGrouped (isDigit : Char → Bool) : List Char → List Char × List Char
  | [] => ([], [])
  | '_' :: c :: r =>
    if isDigit c then (c :: (takeGrouped isDigit r).1, (takeGrouped isDigit r).2)
    else ([], '_' :: c :: r)
  | c :: r =>
    if isDigit c then (c :: (takeGrouped isDigit r).1, (takeGrouped isDigit r).2)
    else ([], c :: r)

/-- Takes one or more digits. -/
def takeDigits (isDigit : Char → Bool) : List Char → Option (List Char × List Char)
  | [] => none
  | c :: r =>
    if isDigit c then some (c :: (takeGrouped isDigit r).1, (takeGrouped isDigit r).2) else none

/-- Takes a sign, if there is one; true for minus. -/
def takeSign : List Char → Bool × List Char
  | '-' :: r => (true, r)
  | '+' :: r => (false, r)
  | s => (false, s)

/-- Takes decimal digits without superfluous zeros. -/
def takeDecimal : List Char → Option (List Char × List Char)
  | '0' :: r => some (['0'], r)
  | s => takeDigits Char.isDigit s

/-! ## 2. Integers -/

/-- The number that digits of a base stand for. -/
def valueIn (base : Nat) (digits : List Char) : Nat :=
  digits.foldl (fun n c => base * n + (hexValue? c).getD 0) 0

/-- Whether a character is a digit of a base. -/
def isDigitOf (base : Nat) (c : Char) : Bool := (hexValue? c).any fun d => d < base

/-- The base that a letter after a zero stands for. -/
def base? : Char → Option Nat
  | 'x' => some 16
  | 'o' => some 8
  | 'b' => some 2
  | _ => none

/-- What follows an integer. -/
def dropInteger? (s : List Char) : Option (List Char) :=
  let plain := do
    let (negative, r) := takeSign s
    let (digits, r) ← takeDecimal r
    let n := valueOfDigits digits
    if n < Nat.pow 2 63 ∨ negative ∧ n = Nat.pow 2 63 then some r else none
  match s with
  | '0' :: letter :: r =>
    match base? letter with
    | some base => do
      let (digits, r) ← takeDigits (isDigitOf base) r
      if valueIn base digits < Nat.pow 2 63 then some r else none
    | none => plain
  | _ => plain

/-! ## 3. Real numbers -/

/-- Takes the exponent of a real number. -/
def takeExponent : List Char → Option (Int × List Char)
  | [] => none
  | c :: r =>
    if c = 'e' ∨ c = 'E' then do
      let (negative, r) := takeSign r
      let (digits, r) ← takeDigits Char.isDigit r
      let e : Int := valueOfDigits digits
      some (if negative then -e else e, r)
    else none

/-- Takes a point, the digits after it and perhaps an exponent, or an exponent alone. -/
def takeFraction : List Char → Option (List Char × Int × List Char)
  | '.' :: r => do
    let (digits, r) ← takeDigits Char.isDigit r
    match takeExponent r with
    | some (e, r) => some (digits, e, r)
    | none => some (digits, 0, r)
  | s => (takeExponent s).map fun p => ([], p.1, p.2)

/-- What follows a real number. -/
def dropReal? (s : List Char) : Option (List Char) :=
  let (negative, bare) := takeSign s
  let written := do
    let (whole, r) ← takeDecimal bare
    let (fraction, e, r) ← takeFraction r
    let x : Binary64.Numeral := ⟨whole, fraction, e⟩
    if negative ∨ x.rank < Binary64.infiniteRank then some r else none
  written.or ((dropLead? ['i', 'n', 'f'] bare).or (dropLead? ['n', 'a', 'n'] bare))

/-! ## 4. Times -/

/-- Takes a number of so many digits. -/
def takeFixed (width : Nat) (s : List Char) : Option (Nat × List Char) :=
  let digits := s.take width
  if digits.length = width ∧ digits.all Char.isDigit then
    some (valueOfDigits digits, s.drop width)
  else none

/-- Takes a number of two digits below a bound. -/
def takeBelow (bound : Nat) (s : List Char) : Option (Nat × List Char) :=
  (takeFixed 2 s).bind fun p => if p.1 < bound then some p else none

/-- What follows a date. -/
def dropDate? (s : List Char) : Option (List Char) := do
  let (year, r) ← takeFixed 4 s
  let (month, r) ← takeFixed 2 (← dropLead? ['-'] r)
  let (day, r) ← takeFixed 2 (← dropLead? ['-'] r)
  if (Date.mk year month day).Exists then some r else none

/-- What follows hours and minutes. -/
def dropMinutes? (s : List Char) : Option (List Char) := do
  let (_, r) ← takeBelow 24 s
  let (_, r) ← takeBelow 60 (← dropLead? [':'] r)
  some r

/-- What follows a time of day, which can be in a leap second. -/
def dropTime? (s : List Char) : Option (List Char) := do
  let r ← dropMinutes? s
  let (_, r) ← takeBelow 61 (← dropLead? [':'] r)
  match r with
  | '.' :: c :: rest => if c.isDigit then some (rest.dropWhile Char.isDigit) else some r
  | r => some r

/-- What follows a distance from Coordinated Universal Time. -/
def dropOffset? : List Char → Option (List Char)
  | 'Z' :: r | 'z' :: r => some r
  | '+' :: r | '-' :: r => dropMinutes? r
  | _ => none

/-- What follows a time of day behind a date, and perhaps a distance. -/
def dropTimeOfDate? : List Char → Option (List Char)
  | [] => none
  | c :: r =>
    if c = 'T' ∨ c = 't' ∨ c = ' ' then
      (dropTime? r).map fun r => (dropOffset? r).getD r
    else none

/-- What follows a date, a time of day or both. -/
def dropMoment? (s : List Char) : Option (List Char) :=
  match dropDate? s with
  | some r => some ((dropTimeOfDate? r).getD r)
  | none => dropTime? s

/-! ## 5. Scalars -/

/-- What follows a number, a truth value or a time. -/
def dropScalar? (s : List Char) : Option (List Char) :=
  -- A date and a real number begin with what could be a number by itself, so they are tried first.
  (dropMoment? s).or ((dropReal? s).or ((dropInteger? s).or
    ((dropLead? "true".toList s).or (dropLead? "false".toList s))))

end Measurement.Toml
