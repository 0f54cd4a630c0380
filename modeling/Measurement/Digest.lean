/-
Digests: short names for contents.

A digest is the first half of the SHA-256 hash of some lines, in hexadecimal.
The hash works on words of 32 bits: a message is padded to blocks of sixteen
words, each block is expanded to sixty-four (`schedule`), and each word of
those turns the state once (`round`).

Every line is followed by a line break, and nothing is escaped, so lines that
hold line breaks themselves can give the text of other lines (`linesText`).
-/
import Measurement.Text.Numeral

set_option autoImplicit false

namespace Measurement.Digest

open Measurement.Text

/-! ## 1. SHA-256 -/

/-- The constants of the sixty-four rounds. -/
def roundConstants : List UInt32 :=
  [0x428a2f98, 0x71374491, 0xb5c0fbcf, 0xe9b5dba5, 0x3956c25b, 0x59f111f1, 0x923f82a4, 0xab1c5ed5,
   0xd807aa98, 0x12835b01, 0x243185be, 0x550c7dc3, 0x72be5d74, 0x80deb1fe, 0x9bdc06a7, 0xc19bf174,
   0xe49b69c1, 0xefbe4786, 0x0fc19dc6, 0x240ca1cc, 0x2de92c6f, 0x4a7484aa, 0x5cb0a9dc, 0x76f988da,
   0x983e5152, 0xa831c66d, 0xb00327c8, 0xbf597fc7, 0xc6e00bf3, 0xd5a79147, 0x06ca6351, 0x14292967,
   0x27b70a85, 0x2e1b2138, 0x4d2c6dfc, 0x53380d13, 0x650a7354, 0x766a0abb, 0x81c2c92e, 0x92722c85,
   0xa2bfe8a1, 0xa81a664b, 0xc24b8b70, 0xc76c51a3, 0xd192e819, 0xd6990624, 0xf40e3585, 0x106aa070,
   0x19a4c116, 0x1e376c08, 0x2748774c, 0x34b0bcb5, 0x391c0cb3, 0x4ed8aa4a, 0x5b9cca4f, 0x682e6ff3,
   0x748f82ee, 0x78a5636f, 0x84c87814, 0x8cc70208, 0x90befffa, 0xa4506ceb, 0xbef9a3f7, 0xc67178f2]

/-- The eight words that are turned by the rounds. -/
structure State where
  a : UInt32
  b : UInt32
  c : UInt32
  d : UInt32
  e : UInt32
  f : UInt32
  g : UInt32
  h : UInt32
deriving DecidableEq

namespace State

/-- The state before the first block. -/
def initial : State :=
  ⟨0x6a09e667, 0xbb67ae85, 0x3c6ef372, 0xa54ff53a, 0x510e527f, 0x9b05688c, 0x1f83d9ab, 0x5be0cd19⟩

/-- The words of a state in order. -/
def words (s : State) : List UInt32 := [s.a, s.b, s.c, s.d, s.e, s.f, s.g, s.h]

/-- The sums of the words of two states. -/
def add (s t : State) : State :=
  ⟨s.a + t.a, s.b + t.b, s.c + t.c, s.d + t.d, s.e + t.e, s.f + t.f, s.g + t.g, s.h + t.h⟩

end State

/-- A word turned to the right. -/
def rotate (x : UInt32) (n : UInt32) : UInt32 := (x >>> n) ||| (x <<< (32 - n))

/-- One round: a state after a word of the schedule and its constant. -/
def round (s : State) (p : UInt32 × UInt32) : State :=
  let turned := rotate s.e 6 ^^^ rotate s.e 11 ^^^ rotate s.e 25
  let chosen := (s.e &&& s.f) ^^^ (~~~s.e &&& s.g)
  let first := s.h + turned + chosen + p.1 + p.2
  let risen := rotate s.a 2 ^^^ rotate s.a 13 ^^^ rotate s.a 22
  let majority := (s.a &&& s.b) ^^^ (s.a &&& s.c) ^^^ (s.b &&& s.c)
  ⟨first + risen + majority, s.a, s.b, s.c, s.d + first, s.e, s.f, s.g⟩

/-- The schedule, latest word first, with `n` more words; each comes from the words 2, 7, 15 and 16
places before it. -/
def extended : Nat → List UInt32 → List UInt32
  | 0, ws => ws
  | n + 1, ws =>
    let back (i : Nat) : UInt32 := ws[i - 1]?.getD 0
    let near := back 2
    let far := back 15
    let low := rotate far 7 ^^^ rotate far 18 ^^^ (far >>> 3)
    let high := rotate near 17 ^^^ rotate near 19 ^^^ (near >>> 10)
    extended n ((back 16 + low + back 7 + high) :: ws)

/-- The sixty-four words of a block of sixteen. -/
def schedule (block : List UInt32) : List UInt32 := (extended 48 block.reverse).reverse

/-- The state after a block. -/
def compress (s : State) (block : List UInt32) : State :=
  s.add ((schedule block).zip roundConstants |>.foldl round s)

/-- The octets of a number of 64 bits, most significant first. -/
def lengthOctets (n : Nat) : List UInt8 :=
  [56, 48, 40, 32, 24, 16, 8, 0].map fun shift => (n >>> shift).toUInt8

/-- A message with its end mark, zeros and its length in bits, in whole blocks. -/
def padded (message : List UInt8) : List UInt8 :=
  -- One octet for the mark and eight for the length leave fifty-five in the last block.
  let zeros := (119 - message.length % 64) % 64
  message ++ 0x80 :: List.replicate zeros 0 ++ lengthOctets (8 * message.length)

/-- The words of a row of octets, most significant octet first. -/
def wordsOfOctets : List UInt8 → List UInt32
  | a :: b :: c :: d :: r =>
    (a.toUInt32 <<< 24 ||| b.toUInt32 <<< 16 ||| c.toUInt32 <<< 8 ||| d.toUInt32)
      :: wordsOfOctets r
  | _ => []

/-- Turns a state by the blocks of a row of words. -/
def absorb : Nat → State → List UInt32 → State
  | 0, s, _ => s
  | n + 1, s, ws => absorb n (compress s (ws.take 16)) (ws.drop 16)

/-- The octets of a word, most significant first. -/
def octetsOfWord (w : UInt32) : List UInt8 :=
  [(w >>> 24).toUInt8, (w >>> 16).toUInt8, (w >>> 8).toUInt8, w.toUInt8]

/-- The SHA-256 hash of a message, thirty-two octets. -/
def sha256 (message : List UInt8) : List UInt8 :=
  let ws := wordsOfOctets (padded message)
  (absorb (ws.length / 16) .initial ws).words.flatMap octetsOfWord

/-! ## 2. Digests of lines -/

/-- The text of some lines, each with a line break behind it. -/
def linesText (lines : List String) : String :=
  String.join (lines.map fun line => line ++ "\n")

/-- The digest of some lines (`digest`): thirty-two hexadecimal digits. -/
def ofLines (lines : List String) : String :=
  String.ofList (hexOctets ((sha256 (linesText lines).toUTF8.toList).take 16))

end Measurement.Digest
