/-
JSON documents as they are written.

A text is read character by character with the containers that are still open
on a stack; texts, numerals and words are taken off as a whole. Reading is
strict or lenient. The lenient reader looks at the form alone, and its result
still shows what the text says and a value cannot: repeated names, texts whose
escapes stand for no character, numerals out of range. The strict reader stops
at those, except for repeated names, and where containers stand too deep in one
another. Either stops at the first fault.

`Document.value?` gives the value of a document: of members with one name the
first gives the place and the last the value.
-/
import Measurement.Json.Basic

set_option autoImplicit false

namespace Measurement.Json

open Measurement.Text

/-- A JSON text as it is written. -/
inductive Document where
  | null
  | bool (b : Bool)
  /-- A number, unless its numeral is out of range. -/
  | number (n : Option Number)
  /-- A text, unless an escape in it stands for no character. -/
  | text (s : Option String)
  | array (items : List Document)
  /-- Members in the order of the text, repeated names included. -/
  | object (members : List (Option String × Document))
deriving Inhabited

/-! ## 1. Texts -/

/-- The character that a letter after a backslash stands for. -/
def escaped? : Char → Option Char
  | '"' => some '"'
  | '\\' => some '\\'
  | '/' => some '/'
  | 'b' => some '\x08'
  | 'f' => some '\x0c'
  | 'n' => some '\n'
  | 'r' => some '\r'
  | 't' => some '\t'
  | _ => none

/-- Whether a unit of sixteen bits is the first of a surrogate pair. -/
def isHigh (n : Nat) : Bool := 0xD800 ≤ n && n < 0xDC00

/-- Whether a unit of sixteen bits is the second of a surrogate pair. -/
def isLow (n : Nat) : Bool := 0xDC00 ≤ n && n < 0xE000

/-- A text that is being read. -/
structure Partial where
  /-- The first unit of a surrogate pair that lacks its second. -/
  high : Option Nat
  /-- The characters so far, the latest first, unless some escape stood for none. -/
  chars : Option (List Char)

namespace Partial

/-- The text before its first character. -/
def empty : Partial := ⟨none, some []⟩

/-- The text with one more character. -/
def char (p : Partial) (c : Char) : Partial :=
  ⟨none, if p.high.isSome then none else p.chars.map (c :: ·)⟩

/-- The text with one more unit of sixteen bits. -/
def unit (p : Partial) (n : Nat) : Partial :=
  match p.high with
  | some h =>
    if isLow n then
      ⟨none, p.chars.map (Char.ofNat (0x10000 + (h - 0xD800) * 0x400 + (n - 0xDC00)) :: ·)⟩
    else ⟨if isHigh n then some n else none, none⟩
  | none =>
    if isLow n then ⟨none, none⟩
    else if isHigh n then ⟨some n, p.chars⟩
    else p.char (Char.ofNat n)

/-- The text that ends here. -/
def text? (p : Partial) : Option String :=
  if p.high.isSome then none else p.chars.map fun cs => String.ofList cs.reverse

end Partial

/-- Where the four digits of an escape are not there. -/
def escapeStop (s : List Char) : Stop :=
  if octets s < 4 then ⟨.endInText, 0⟩ else ⟨.badEscape, octets s - 4⟩

/-- Takes a text up to its closing quote. -/
def takeText (strict : Bool) (p : Partial) : List Char → Except Stop (Option String × List Char)
  | [] => .error ⟨.endInText, 0⟩
  | ['\\'] => .error ⟨.endInText, 0⟩
  | '\\' :: 'u' :: a :: b :: c :: d :: r =>
    match hexNumber? [a, b, c, d] with
    | none => .error (escapeStop (a :: b :: c :: d :: r))
    | some n =>
      let next := p.unit n
      if strict && next.chars.isNone then .error (.before .loneSurrogate r)
      else takeText strict next r
  -- Here fewer than four characters are left.
  | '\\' :: 'u' :: r => .error (escapeStop r)
  | '\\' :: c :: r =>
    if strict && p.high.isSome then .error (.upon .brokenPair (c :: r))
    else match escaped? c with
      | none => .error (.upon .badEscape (c :: r))
      | some e => takeText strict (p.char e) r
  | c :: r =>
    if strict && p.high.isSome then .error (.upon .brokenPair (c :: r))
    else if c = '"' then .ok (p.text?, r)
    else if c.toNat < 0x20 then .error (.before .control r)
    else takeText strict (p.char c) r

/-! ## 2. Words -/

/-- Drops the rest of a word. -/
def dropLiteral : List Char → List Char → Except Stop (List Char)
  | [], s => .ok s
  | _ :: _, [] => .error (.missing .noLiteral [])
  | w :: ws, c :: r => if c = w then dropLiteral ws r else .error (.missing .noLiteral (c :: r))

/-! ## 3. Containers -/

/-- A container in which a value is being read, with what it holds before that, the latest first. -/
inductive Open where
  | array (items : List Document)
  /-- An object whose member under `name` is being read. -/
  | object (members : List (Option String × Document)) (name : Option String)

/-- What may come next. An array or object between two values is in the constructor. -/
inductive Expect where
  | value
  | firstItem
  | nextItem (items : List Document)
  | afterItem (items : List Document)
  | firstName
  | nextName (members : List (Option String × Document))
  | colon (members : List (Option String × Document)) (name : Option String)
  | afterMember (members : List (Option String × Document))
  /-- The whole document has been read. -/
  | nothing (d : Document)

/-- The containers around what is being read, the innermost first, and what may come next. -/
structure Reader where
  opened : List Open
  expect : Expect

/-- Containers may stand in one another this deep in a strict reading. -/
def maxDepth : Nat := 127

/-- Blanks between the parts of a document. -/
def isGap (c : Char) : Bool := c == ' ' || c == '\n' || c == '\r' || c == '\t'

namespace Reader

/-- The reader of a document before its start. -/
def initial : Reader := ⟨[], .value⟩

/-- Puts a finished value where it belongs. -/
def put (d : Document) : List Open → Reader
  | [] => ⟨[], .nothing d⟩
  | .array items :: outer => ⟨outer, .afterItem (d :: items)⟩
  | .object members name :: outer => ⟨outer, .afterMember ((name, d) :: members)⟩

/-- Takes a value, or the start of one that holds others, at the head `c` of a text. -/
def begin (strict : Bool) (opened : List Open) (c : Char) (r : List Char) :
    Except Stop (Reader × List Char) :=
  let tooDeep := strict && decide (maxDepth ≤ opened.length)
  match c with
  | '[' => if tooDeep then .error (.upon .tooDeep (c :: r)) else .ok (⟨opened, .firstItem⟩, r)
  | '\x7b' => if tooDeep then .error (.upon .tooDeep (c :: r)) else .ok (⟨opened, .firstName⟩, r)
  | 'n' => (dropLiteral ['u', 'l', 'l'] r).map fun rest => (put .null opened, rest)
  | 't' => (dropLiteral ['r', 'u', 'e'] r).map fun rest => (put (.bool true) opened, rest)
  | 'f' => (dropLiteral ['a', 'l', 's', 'e'] r).map fun rest => (put (.bool false) opened, rest)
  | '"' => (takeText strict .empty r).map fun p => (put (.text p.1) opened, p.2)
  | _ =>
    if c = '-' || c.isDigit then
      match Number.takeNumeral (c :: r) with
      | .error stop => .error stop
      | .ok (x, rest) =>
        let n := Number.ofNumeral? x
        if strict && n.isNone then .error (Number.rangeStop x rest)
        else .ok (put (.number n) opened, rest)
    else .error (.upon .noValue (c :: r))

/-- Takes what comes next at the head `c` of a text. -/
def step (strict : Bool) (reader : Reader) (c : Char) (r : List Char) :
    Except Stop (Reader × List Char) :=
  let opened := reader.opened
  match reader.expect with
  | .value => begin strict opened c r
  | .firstItem =>
    if c = ']' then .ok (put (.array []) opened, r)
    else begin strict (.array [] :: opened) c r
  | .nextItem items =>
    if c = ']' then .error (.upon .trailingComma (c :: r))
    else begin strict (.array items :: opened) c r
  | .afterItem items =>
    if c = ',' then .ok (⟨opened, .nextItem items⟩, r)
    else if c = ']' then .ok (put (.array items.reverse) opened, r)
    else .error (.upon .noItemEnd (c :: r))
  | .firstName =>
    if c = '"' then (takeText strict .empty r).map fun p => (⟨opened, .colon [] p.1⟩, p.2)
    else if c = '\x7d' then .ok (put (.object []) opened, r)
    else .error (.upon .noName (c :: r))
  | .nextName members =>
    if c = '"' then (takeText strict .empty r).map fun p => (⟨opened, .colon members p.1⟩, p.2)
    else .error (.upon (if c = '\x7d' then .trailingComma else .noName) (c :: r))
  | .colon members name =>
    if c = ':' then .ok (⟨.object members name :: opened, .value⟩, r)
    else .error (.upon .noColon (c :: r))
  | .afterMember members =>
    if c = ',' then .ok (⟨opened, .nextName members⟩, r)
    else if c = '\x7d' then .ok (put (.object members.reverse) opened, r)
    else .error (.upon .noMemberEnd (c :: r))
  | .nothing _ => .error (.upon .trailing (c :: r))

/-- The document at the end of the text. -/
def finish (reader : Reader) : Except Stop Document :=
  match reader.expect with
  | .nothing d => .ok d
  | .value | .nextItem _ | .nextName _ => .error ⟨.endInValue, 0⟩
  | .firstItem | .afterItem _ => .error ⟨.endInArray, 0⟩
  | .firstName | .colon _ _ | .afterMember _ => .error ⟨.endInObject, 0⟩

end Reader

/-! ## 4. Nothing is read twice -/

theorem length_of_takeText {strict : Bool} {p : Partial} {s rest : List Char} {t : Option String}
    (h : takeText strict p s = .ok (t, rest)) : rest.length ≤ s.length := by
  fun_induction takeText strict p s with
  | case1 | case2 | case3 | case4 | case6 | case7 | case8 | case10 | case12 =>
    exact absurd h (by simp)
  | case5 | case9 | case13 =>
    rename_i ih
    have := ih h
    simp only [List.length_cons]
    omega
  | case11 =>
    cases h
    simp

theorem length_of_dropLiteral {word s rest : List Char} (h : dropLiteral word s = .ok rest) :
    rest.length ≤ s.length := by
  fun_induction dropLiteral word s with
  | case1 =>
    cases h
    exact Nat.le_refl _
  | case2 => exact absurd h (by simp)
  | case3 _ _ _ ih =>
    have := ih h
    simp only [List.length_cons]
    omega
  | case4 => exact absurd h (by simp)

theorem exists_of_map_eq_ok {α β : Type} {f : α → β} {x : Except Stop α} {b : β}
    (h : x.map f = .ok b) : ∃ a, x = .ok a ∧ f a = b := by
  cases x with
  | error e => exact absurd h (by simp [Except.map])
  | ok a => exact ⟨a, rfl, by simpa [Except.map] using h⟩

namespace Reader

theorem length_of_begin {strict : Bool} {opened : List Open} {c : Char} {r : List Char}
    {p : Reader × List Char} (h : begin strict opened c r = .ok p) : p.2.length ≤ r.length := by
  unfold begin at h
  simp only at h
  split at h
  case h_1 | h_2 =>
    split at h
    · exact absurd h (by simp)
    · cases h
      exact Nat.le_refl _
  case h_3 | h_4 | h_5 =>
    obtain ⟨rest, hr, rfl⟩ := exists_of_map_eq_ok h
    exact length_of_dropLiteral hr
  case h_6 =>
    obtain ⟨q, hq, rfl⟩ := exists_of_map_eq_ok h
    exact length_of_takeText hq
  case h_7 =>
    split at h
    · split at h
      · exact absurd h (by simp)
      · rename_i x rest hx
        split at h
        · exact absurd h (by simp)
        · cases h
          have := Number.length_of_takeNumeral hx
          simpa using Nat.le_of_lt_succ this
    · exact absurd h (by simp)

theorem length_of_step {strict : Bool} {reader : Reader} {c : Char} {r : List Char}
    {p : Reader × List Char} (h : reader.step strict c r = .ok p) : p.2.length ≤ r.length := by
  unfold step at h
  simp only at h
  split at h
  case h_1 => exact length_of_begin h
  case h_2 =>
    split at h
    · cases h
      exact Nat.le_refl _
    · exact length_of_begin h
  case h_3 =>
    split at h
    · exact absurd h (by simp)
    · exact length_of_begin h
  case h_4 | h_8 =>
    split at h
    · cases h
      exact Nat.le_refl _
    · split at h
      · cases h
        exact Nat.le_refl _
      · exact absurd h (by simp)
  case h_5 =>
    split at h
    · obtain ⟨q, hq, rfl⟩ := exists_of_map_eq_ok h
      exact length_of_takeText hq
    · split at h
      · cases h
        exact Nat.le_refl _
      · exact absurd h (by simp)
  case h_6 =>
    split at h
    · obtain ⟨q, hq, rfl⟩ := exists_of_map_eq_ok h
      exact length_of_takeText hq
    · exact absurd h (by simp)
  case h_7 =>
    split at h
    · cases h
      exact Nat.le_refl _
    · exact absurd h (by simp)
  case h_9 => exact absurd h (by simp)

/-- Takes the rest of a text. -/
def run (strict : Bool) (reader : Reader) : List Char → Except Stop Document
  | [] => reader.finish
  | c :: r =>
    if isGap c then run strict reader r
    else match h : reader.step strict c r with
      | .error stop => .error stop
      | .ok (next, rest) =>
        have _shorter : rest.length < (c :: r).length := by
          have := length_of_step h
          simpa using Nat.lt_succ_of_le this
        run strict next rest
termination_by s => s.length
decreasing_by
  · simp
  · assumption

end Reader

/-! ## 5. Documents -/

namespace Document

/-- The document that a text holds, with nothing but blanks around it, read leniently. -/
def read? (s : String) : Option Document := (Reader.initial.run false s.toList).toOption

mutual

/-- The value of a document; none if a text or number in it has none. -/
def value? : Document → Option Json
  | .null => some .null
  | .bool b => some (.bool b)
  | .number n => n.map .number
  | .text s => s.map .text
  | .array items => (valueOfItems? items).map .array
  | .object members => (valueOfMembers? members []).map .object

/-- The values of the items. -/
def valueOfItems? : List Document → Option (List Json)
  | [] => some []
  | d :: rest =>
    match value? d, valueOfItems? rest with
    | some j, some js => some (j :: js)
    | _, _ => none

/-- The members put into those that came before. -/
def valueOfMembers? : List (Option String × Document) → List (String × Json) →
    Option (List (String × Json))
  | [], done => some done
  | (none, _) :: _, _ => none
  | (some name, d) :: rest, done =>
    match value? d with
    | some j => valueOfMembers? rest (putEntry name j done)
    | none => none

end

end Document

/-- The value that a text holds, read strictly. -/
def read (s : String) : Except Fault Json :=
  match Reader.initial.run true s.toList with
  | .error stop => .error (stop.locate s)
  | .ok d =>
    match d.value? with
    | some j => .ok j
    -- A strict reading leaves nothing without a value.
    | none => .error (Stop.locate ⟨.outOfRange, 0⟩ s)

end Measurement.Json
