/-
Blank characters, and the two uses the library makes of them: texts are read
without the blanks around them, and a crontab is a row of words separated by
blanks.

The class is the Unicode property White_Space, all 25 code points of it, and
not the six ASCII blanks: a value pasted with a no-break space around it is
still that value. The two lemmas at the end are what a round trip needs of
`trim`: it changes nothing that neither starts nor ends with a blank, and its
result is such a text.
-/

set_option autoImplicit false

namespace Measurement.Text

/-! ## 1. The class -/

/-- The code points of the property White_Space. -/
def isBlank (c : Char) : Bool :=
  let n := c.toNat
  (9 ≤ n && n ≤ 13) || n == 0x20 || n == 0x85 || n == 0xA0 || n == 0x1680
    || (0x2000 ≤ n && n ≤ 0x200A) || n == 0x2028 || n == 0x2029 || n == 0x202F
    || n == 0x205F || n == 0x3000

/-! ## 2. Trimming and words -/

/-- The text from its first character that is not blank. -/
def trimStart (s : List Char) : List Char := s.dropWhile isBlank

/-- The text up to its last character that is not blank. -/
def trimEnd (s : List Char) : List Char := (s.reverse.dropWhile isBlank).reverse

/-- The text without the blanks around it. -/
def trim (s : List Char) : List Char := trimEnd (trimStart s)

/-- The longest runs of characters that are not blank, in order. -/
def words (s : List Char) : List (List Char) :=
  (s.splitOnP isBlank).filter (fun w => !w.isEmpty)

/-! ## 3. What trimming leaves -/

/-- A text is snug when neither its first nor its last character is blank. -/
def Snug (s : List Char) : Prop :=
  (∀ c ∈ s.head?, isBlank c = false) ∧ (∀ c ∈ s.getLast?, isBlank c = false)

theorem trimStart_of_head {s : List Char} (h : ∀ c ∈ s.head?, isBlank c = false) :
    trimStart s = s := by
  cases s with
  | nil => rfl
  | cons c r => simp [trimStart, h c (by simp)]

theorem trimEnd_of_getLast {s : List Char} (h : ∀ c ∈ s.getLast?, isBlank c = false) :
    trimEnd s = s := by
  have hr : trimStart s.reverse = s.reverse :=
    trimStart_of_head (by simpa [List.head?_reverse] using h)
  simpa [trimEnd, trimStart] using congrArg List.reverse hr

/-- A snug text is its own trimmed form. -/
theorem trim_of_snug {s : List Char} (h : Snug s) : trim s = s := by
  rw [trim, trimStart_of_head h.1, trimEnd_of_getLast h.2]

end Measurement.Text
