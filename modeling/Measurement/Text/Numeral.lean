/-
Numerals: how natural numbers are read and written.

Two readings are used. `digits?` takes a bare row of decimal digits; `natural?`
also takes one plus sign in front and refuses a number above a bound, which is
how naturals, crontab fields and steps are written. Writing is the decimal
expansion without leading zeros, so every number has one written form and
reading inverts writing.
-/

set_option autoImplicit false

namespace Measurement.Text

/-! ## 1. Decimal numerals -/

/-- The number that a row of decimal digits stands for. -/
def valueOfDigits (s : List Char) : Nat := Nat.ofDigitChars 10 s 0

/-- A row of one or more decimal digits. -/
def digits? (s : List Char) : Option Nat :=
  if s.isEmpty || !s.all Char.isDigit then none else some (valueOfDigits s)

/-- A natural number of at most `bound`, perhaps with a plus sign in front. -/
def natural? (bound : Nat) (s : List Char) : Option Nat :=
  let bare := match s with
    | '+' :: r => r
    | _ => s
  (digits? bare).bind fun n => if n ≤ bound then some n else none

/-- The decimal expansion of a number, without leading zeros. -/
def decimal (n : Nat) : List Char := Nat.toDigits 10 n

/-- The decimal expansion, filled up with zeros to `width` digits. -/
def padded (width n : Nat) : List Char :=
  let d := decimal n
  List.replicate (width - d.length) '0' ++ d

/-! ## 2. Hexadecimal numerals -/

/-- The value of a hexadecimal digit of either case. -/
def hexValue? (c : Char) : Option Nat :=
  if c.isDigit then some (c.toNat - 48)
  else if 'a' ≤ c ∧ c ≤ 'f' then some (c.toNat - 87)
  else if 'A' ≤ c ∧ c ≤ 'F' then some (c.toNat - 55)
  else none

/-- The number that hexadecimal digits stand for, most significant first. -/
def hexNumber? (s : List Char) : Option Nat :=
  s.foldlM (fun n c => (hexValue? c).map (16 * n + ·)) 0

/-- The hexadecimal expansion in lower case, without leading zeros. -/
def hexadecimal (n : Nat) : List Char := Nat.toDigits 16 n

/-- Two hexadecimal digits for an octet. -/
def hexOctet (b : UInt8) : List Char :=
  [Nat.digitChar (b.toNat / 16), Nat.digitChar (b.toNat % 16)]

/-- The hexadecimal text of a row of octets. -/
def hexOctets (bs : List UInt8) : List Char := bs.flatMap hexOctet

/-- The octets that pairs of hexadecimal digits stand for. -/
def octetsOfHex? : List Char → Option (List UInt8)
  | [] => some []
  | [_] => none
  | a :: b :: r => do
    let hi ← hexValue? a
    let lo ← hexValue? b
    let rest ← octetsOfHex? r
    some (UInt8.ofNat (16 * hi + lo) :: rest)

/-! ## 3. Reading inverts writing -/

theorem all_isDigit_decimal (n : Nat) : (decimal n).all Char.isDigit = true :=
  List.all_eq_true.2 fun _ h => Nat.isDigit_of_mem_toDigits (by decide) (by decide) h

theorem decimal_ne_nil (n : Nat) : decimal n ≠ [] := Nat.toDigits_ne_nil

@[simp] theorem valueOfDigits_decimal (n : Nat) : valueOfDigits (decimal n) = n :=
  Nat.ofDigitChars_toDigits (by decide) (by decide)

@[simp] theorem digits?_decimal (n : Nat) : digits? (decimal n) = some n := by
  simp [digits?, decimal_ne_nil, all_isDigit_decimal]

/-- A numeral starts with a digit, so no sign can be taken off it. -/
theorem head_decimal (n : Nat) : ∃ c r, decimal n = c :: r ∧ c.isDigit = true := by
  cases h : decimal n with
  | nil => exact absurd h (decimal_ne_nil n)
  | cons c r =>
    have := all_isDigit_decimal n
    rw [h] at this
    exact ⟨c, r, rfl, by simp at this; exact this.1⟩

theorem natural?_decimal {bound n : Nat} (h : n ≤ bound) :
    natural? bound (decimal n) = some n := by
  obtain ⟨c, r, hc, hd⟩ := head_decimal n
  have hplus : c ≠ '+' := by
    intro he; subst he; exact absurd hd (by decide)
  have hbare : (match decimal n with | '+' :: r => r | _ => decimal n) = decimal n := by
    rw [hc]
    split
    · rename_i h'
      exact absurd (List.cons.inj h').1 hplus
    · rfl
  simp only [natural?, hbare, digits?_decimal, Option.bind_some, if_pos h]

end Measurement.Text
