/-
Values of the seven primitives: how they are read, written and compared.

Texts are read without the blanks around them. The text `*` stands for no
value; `read` expects a value and `readOptional` admits its absence. Written
texts read back: a boolean is written with a capital letter and read in any
case, an address in its shortest form, an instant down to the microsecond.

Only values of one primitive are comparable. Equality is that of the values,
not of their texts: zero is zero with either sign, and a number that is none
equals nothing.
-/
import Measurement.Fault
import Measurement.Address
import Measurement.Binary64.Decimal
import Measurement.Time.Text

set_option autoImplicit false

namespace Measurement

open Measurement.Text

/-- A value of some primitive. -/
inductive Value where
  | string (s : String)
  | natural (n : UInt64)
  | real (x : Binary64)
  | boolean (b : Bool)
  | time (t : Instant)
  | address (a : Address)
  | url (s : String)
deriving DecidableEq

/-- The text of an absent value. -/
def absent : String := "*"

/-- The instant that a text denotes. -/
def readInstant (s : String) : Except ReadFault Instant :=
  match Instant.read? s.toList with
  | some t => .ok t
  | none => .error (.invalidTime s)

/-- The text of an instant. -/
def Instant.text (t : Instant) : String := String.ofList t.write

namespace Value

/-- The primitive of a value. -/
def primitive : Value → Primitive
  | string _ => .string
  | natural _ => .natural
  | real _ => .real
  | boolean _ => .boolean
  | time _ => .time
  | address _ => .address
  | url _ => .url

/-! ## 1. Texts -/

/-- The text of a value. -/
def text : Value → String
  | string s => s
  | natural n => String.ofList (decimal n.toNat)
  | real x => x.plain
  | boolean true => "True"
  | boolean false => "False"
  | time t => t.text
  | address a => String.ofList a.write
  | url s => s

/-- The text of a value that may be absent (`Primitive::unparse`). -/
def textOrAbsent : Option Value → String
  | some v => v.text
  | none => absent

/-- The lower case of ASCII. -/
def lowerCase (s : List Char) : List Char := s.map Char.toLower

/-- The value that a snug text denotes. -/
def ofSnug? (p : Primitive) (s : List Char) : Option Value :=
  match p with
  | .string => some (string (String.ofList s))
  | .natural => (natural? (Nat.pow 2 64 - 1) s).map fun n => natural n.toUInt64
  | .real => (Binary64.read? s).map real
  | .boolean =>
    if lowerCase s = "true".toList then some (boolean true)
    else if lowerCase s = "false".toList then some (boolean false)
    else none
  | .time => (Instant.read? s).map time
  | .address => (Address.read? s).map address
  | .url => if s.contains ':' && !s.any isBlank then some (url (String.ofList s)) else none

/-- The value that a text denotes (`parse_value`). -/
def read (p : Primitive) (s : String) : Except ReadFault Value :=
  let bare := trim s.toList
  match ofSnug? p bare with
  | some v => .ok v
  | none => .error (.invalidValue p (String.ofList bare))

/-- The value that a text denotes, `*` being no value (`Primitive::parse`). -/
def readOptional (p : Primitive) (s : String) : Except ReadFault (Option Value) :=
  if trim s.toList = absent.toList then .ok none else (read p s).map some

/-! ## 2. Order and equality -/

/-- The order of two values of one primitive (`Value::partial_cmp`); none for values of different
primitives. -/
def order? : Value → Value → Option Ordering
  | string a, string b => some (compare a b)
  | natural a, natural b => some (compare a.toNat b.toNat)
  | real a, real b => Binary64.order? a b
  | boolean a, boolean b => some (compare a b)
  | time a, time b => some (Instant.order a b)
  | address a, address b => some (Address.order a b)
  | url a, url b => some (compare a b)
  | _, _ => none

/-- Whether the first value is comparable with the second and not above it. -/
def atMost (a b : Value) : Bool :=
  match order? a b with
  | some .lt | some .eq => true
  | _ => false

/-- Whether two values are equal. -/
def same : Value → Value → Bool
  | real a, real b => Binary64.same a b
  | a, b => decide (a = b)

end Value

end Measurement
