/-
Internet addresses of both versions, and their texts.

A version 4 address is four octets, written in decimal. A version 6 address is
eight groups of sixteen bits, written in hexadecimal, the leftmost longest run
of two or more zero groups as `::`; one that embeds a version 4 address behind
`::ffff:` shows that address as it is. Reading admits any placement of `::`,
leading zeros up to four digits, and an embedded version 4 address in the last
two groups.

Version 4 addresses come before version 6 addresses, and within a version the
order is that of the numbers.
-/
import Measurement.Text.Numeral
import Measurement.Text.Split

set_option autoImplicit false

namespace Measurement

open Measurement.Text

/-- An internet address. -/
inductive Address where
  /-- Version 4: four octets. -/
  | v4 (octets : Vector UInt8 4)
  /-- Version 6: eight groups of sixteen bits. -/
  | v6 (groups : Vector UInt16 8)
deriving DecidableEq, Repr

namespace Address

/-! ## 1. Order -/

/-- The order of two rows of numbers of one length. -/
def orderRows : List Nat → List Nat → Ordering
  | a :: as, b :: bs => (compare a b).then (orderRows as bs)
  | [], [] => .eq
  | [], _ :: _ => .lt
  | _ :: _, [] => .gt

/-- The order of two addresses. -/
def order : Address → Address → Ordering
  | v4 a, v4 b => orderRows (a.toList.map UInt8.toNat) (b.toList.map UInt8.toNat)
  | v4 _, v6 _ => .lt
  | v6 _, v4 _ => .gt
  | v6 a, v6 b => orderRows (a.toList.map UInt16.toNat) (b.toList.map UInt16.toNat)

/-! ## 2. Writing -/

/-- Octets in decimal with points between them. -/
def writeOctets (octets : List UInt8) : List Char :=
  ['.'].intercalate (octets.map fun b => decimal b.toNat)

/-- Groups in hexadecimal with colons between them. -/
def writeGroups (groups : List UInt16) : List Char :=
  [':'].intercalate (groups.map fun g => hexadecimal g.toNat)

/-- The length of the run of zero groups at the front. -/
def zeroRun (groups : List UInt16) : Nat := (groups.takeWhile (· == 0)).length

/-- Where the leftmost longest run of zero groups starts and how long it is. -/
def longestZeroRun : List UInt16 → Nat × Nat
  | [] => (0, 0)
  | g :: rest =>
    let later := longestZeroRun rest
    let here := zeroRun (g :: rest)
    if later.2 ≤ here then (0, here) else (later.1 + 1, later.2)

/-- The high octet of a group. -/
def highOctet (g : UInt16) : UInt8 := (g.toNat / 256).toUInt8

/-- The low octet of a group. -/
def lowOctet (g : UInt16) : UInt8 := (g.toNat % 256).toUInt8

/-- The group of two octets. -/
def groupOf (high low : UInt8) : UInt16 := (high.toNat * 256 + low.toNat).toUInt16

/-- The text of a row of groups. -/
def writeV6 (groups : List UInt16) : List Char :=
  match groups with
  | [0, 0, 0, 0, 0, 0xFFFF, a, b] =>
    "::ffff:".toList ++ writeOctets [highOctet a, lowOctet a, highOctet b, lowOctet b]
  | _ =>
    let run := longestZeroRun groups
    if 1 < run.2 then
      writeGroups (groups.take run.1) ++ ':' :: ':' :: writeGroups (groups.drop (run.1 + run.2))
    else writeGroups groups

/-- The text of an address. -/
def write : Address → List Char
  | v4 octets => writeOctets octets.toList
  | v6 groups => writeV6 groups.toList

/-! ## 3. Reading -/

/-- Takes an octet: one to three digits without a superfluous zero, at most 255. -/
def takeOctet (s : List Char) : Option (UInt8 × List Char) :=
  let ds := s.takeWhile Char.isDigit
  if ds.isEmpty || 3 < ds.length || (ds.head? == some '0' && 1 < ds.length) then none
  else
    let n := valueOfDigits ds
    if n < 256 then some (n.toUInt8, s.dropWhile Char.isDigit) else none

/-- Takes a character as it stands. -/
def takeMark (c : Char) : List Char → Option (List Char)
  | d :: r => if d = c then some r else none
  | [] => none

/-- Takes a version 4 address. -/
def takeV4 (s : List Char) : Option (List UInt8 × List Char) := do
  let (a, s) ← takeOctet s
  let (b, s) ← (takeMark '.' s).bind takeOctet
  let (c, s) ← (takeMark '.' s).bind takeOctet
  let (d, s) ← (takeMark '.' s).bind takeOctet
  some ([a, b, c, d], s)

/-- Takes a group: one to four hexadecimal digits. -/
def takeGroup (s : List Char) : Option (UInt16 × List Char) :=
  let ds := s.takeWhile fun c => (hexValue? c).isSome
  if ds.isEmpty || 4 < ds.length then none
  else (hexNumber? ds).map fun n => (n.toUInt16, s.drop ds.length)

/-- Groups that were taken, whether they end with an embedded version 4 address, and what follows
them. -/
structure Groups where
  groups : List UInt16
  embedded : Bool
  rest : List Char

/-- Takes up to `limit` groups with colons between them; `first` says that no colon is due yet. An
embedded version 4 address counts as two groups and ends the row. -/
def takeGroups : Nat → Bool → List Char → Groups
  | 0, _, s => ⟨[], false, s⟩
  | limit + 1, first, s =>
    match if first then some s else takeMark ':' s with
    | none => ⟨[], false, s⟩
    | some s' =>
      -- Octets are tried first: their first number could be taken for a group.
      match if 1 ≤ limit then takeV4 s' else none with
      | some ([a, b, c, d], rest) => ⟨[groupOf a b, groupOf c d], true, rest⟩
      | _ =>
        match takeGroup s' with
        | none => ⟨[], false, s⟩
        | some (g, rest) =>
          let more := takeGroups limit false rest
          ⟨g :: more.groups, more.embedded, more.rest⟩

/-- The version 6 address of eight groups. -/
def ofGroups? (groups : List UInt16) : Option Address :=
  if h : groups.length = 8 then some (v6 ⟨groups.toArray, by simpa using h⟩) else none

/-- The version 4 address of four octets. -/
def ofOctets? (octets : List UInt8) : Option Address :=
  if h : octets.length = 4 then some (v4 ⟨octets.toArray, by simpa using h⟩) else none

/-- Takes a version 6 address: eight groups, or fewer with one `::` that stands for at least one
group of zeros. -/
def takeV6 (s : List Char) : Option (List UInt16 × List Char) :=
  let head := takeGroups 8 true s
  if head.groups.length = 8 then some (head.groups, head.rest)
  else if head.embedded then none
  else (dropLead? [':', ':'] head.rest).map fun s' =>
    -- One group less than would fit, because the zeros stand for at least one.
    let tail := takeGroups (7 - head.groups.length) true s'
    let zeros := 8 - head.groups.length - tail.groups.length
    (head.groups ++ List.replicate zeros 0 ++ tail.groups, tail.rest)

/-- The address that a text denotes. -/
def read? (s : List Char) : Option Address :=
  match takeV4 s with
  | some (octets, rest) => if rest.isEmpty then ofOctets? octets else none
  | none =>
    match takeV6 s with
    | some (groups, rest) => if rest.isEmpty then ofGroups? groups else none
    | none => none

end Address

end Measurement
