/-
Reading a span in place and in 64 bits.

`parse_duration` does not copy the text: it cuts it behind a number of octets, finds
the unit of a number by its place in the table of units, of which fewer and fewer
are left, and counts seconds in 64 bits with sign. So it meets cuts that may fall
into a character, places that may be beyond the table, and sums that may not fit
(`Scan.turn`). The last are refused; with the first two it breaks off (`Stop`).

It never does. Every cut is made behind digits or behind the character that stands
there, every place is one that was found, and what has been counted is never below
zero, so a sum that does not fit cannot be made good by a later one. The reader
comes to what `read?` says, which counts without bound and compares the whole sum
once (`readInPlace_eq`).
-/
import Measurement.Scope.Text
import Measurement.Proofs.Readers
import Measurement.Proofs.Time.Span

set_option autoImplicit false

namespace Measurement.Span

open Measurement.Text

/-! ## 1. Steps that can fail -/

/-- Why a reader stops before the end of a text. -/
inductive Stop where
  /-- The text is none that is read. -/
  | refused
  /-- A difference, a cut or a place in a table is out of bounds. -/
  | brokenOff
deriving DecidableEq

/-- What there is, or a reason to stop. -/
def orStop {α : Type} (e : Stop) : Option α → Except Stop α
  | some a => .ok a
  | none => .error e

@[simp] theorem orStop_some {α : Type} (e : Stop) (a : α) : orStop e (some a) = .ok a := rfl

@[simp] theorem orStop_none {α : Type} (e : Stop) : orStop e (none : Option α) = .error e := rfl

theorem orStop_eq_ok_iff {α : Type} {e : Stop} {o : Option α} {a : α} :
    orStop e o = .ok a ↔ o = some a := by
  cases o with
  | none => exact ⟨fun h => (by cases h), fun h => (by cases h)⟩
  | some b => exact ⟨fun h => congrArg some (Except.ok.inj h), fun h => (by cases h; rfl)⟩

/-- The number, if 64 bits with sign hold it. -/
def inWord? (n : Int) : Option Int :=
  if -(Nat.pow 2 63 : Int) ≤ n ∧ n < (Nat.pow 2 63 : Int) then some n else none

/-- The difference, if it is not below zero. -/
def less? (a b : Nat) : Option Nat := if b ≤ a then some (a - b) else none

/-- The octets of a text. -/
def octets : List Char → Nat
  | [] => 0
  | c :: r => c.utf8Size + octets r

/-- The parts of a text up to and behind a number of its octets, if a character ends there. -/
def cutBehind? : Nat → List Char → Option (List Char × List Char)
  | 0, s => some ([], s)
  | _ + 1, [] => none
  | n + 1, c :: r =>
    if c.utf8Size ≤ n + 1 then (cutBehind? (n + 1 - c.utf8Size) r).map fun p => (c :: p.1, p.2)
    else none

/-- The items of a row behind a number of them, if there are as many. -/
def behind? {α : Type} (k : Nat) (items : List α) : Option (List α) :=
  if k ≤ items.length then some (items.drop k) else none

/-- The seconds so far and those of one more term, if every number on the way fits. -/
def addTerm? (seconds : Int) (number scale : Nat) : Option Int := do
  let number ← inWord? number
  let product ← inWord? (number * scale)
  inWord? (seconds + product)

/-! ## 2. The reader -/

/-- The digits at the front of a text and what is behind them. -/
def takeDigits (s : List Char) : Except Stop (List Char × List Char) := do
  let count ← orStop .brokenOff (less? (octets s) (octets (s.dropWhile Char.isDigit)))
  if count = 0 then .error .refused
  else orStop .brokenOff (cutBehind? count s)

/-- The seconds of a unit that can still stand, and how many units can stand no more behind it. -/
def findUnit (used : Nat) (unit : Char) : Except Stop (Nat × Nat) := do
  let left ← orStop .brokenOff (behind? used units)
  let position ← orStop .refused (left.findIdx? fun u => u.1 == unit)
  let (_, scale) ← orStop .brokenOff units[used + position]?
  return (scale, used + position + 1)

/-- How far a text has been read: what is left of it, the seconds so far, and how many units can
stand no more. -/
structure Scan where
  rest : List Char
  seconds : Int
  used : Nat

/-- Reads one term: one turn of the loop of `parse_duration`. -/
def Scan.turn (st : Scan) : Except Stop Scan := do
  let (number, tail) ← takeDigits st.rest
  let unit ← orStop .refused tail.head?
  let (scale, used) ← findUnit st.used unit
  let number ← orStop .refused (digits? number)
  let seconds ← orStop .refused (addTerm? st.seconds number scale)
  let (_, rest) ← orStop .brokenOff (cutBehind? unit.utf8Size tail)
  return ⟨rest, seconds, used⟩

theorem octets_append (a b : List Char) : octets (a ++ b) = octets a + octets b := by
  induction a with
  | nil => exact (Nat.zero_add _).symm
  | cons c a ih => rw [List.cons_append, octets, octets, ih, Nat.add_assoc]

theorem octets_pos {s : List Char} (h : s ≠ []) : 0 < octets s := by
  cases s with
  | nil => exact absurd rfl h
  | cons c s => exact Nat.add_pos_left c.utf8Size_pos _

/-- A cut loses nothing, and as many octets as were asked for are in front of it. -/
theorem of_cutBehind? {n : Nat} {s a b : List Char} (h : cutBehind? n s = some (a, b)) :
    s = a ++ b ∧ octets a = n := by
  induction s generalizing n a with
  | nil =>
    cases n with
    | zero =>
      cases h
      exact ⟨rfl, rfl⟩
    | succ n => cases h
  | cons c s ih =>
    cases n with
    | zero =>
      cases h
      exact ⟨rfl, rfl⟩
    | succ n =>
      rw [cutBehind?] at h
      split at h
      · rename_i hfits
        obtain ⟨⟨a', b'⟩, hrest, hparts⟩ := Option.map_eq_some_iff.1 h
        cases hparts
        obtain ⟨rfl, hoctets⟩ := ih hrest
        refine ⟨rfl, ?_⟩
        change c.utf8Size + octets a' = n + 1
        omega
      · cases h

/-- Behind the octets of a part of a text a character ends. -/
theorem cutBehind?_append (a b : List Char) : cutBehind? (octets a) (a ++ b) = some (a, b) := by
  induction a with
  | nil => cases b <;> rfl
  | cons c a ih =>
    have hsum : octets (c :: a) = c.utf8Size + octets a := rfl
    obtain ⟨n, hn⟩ : ∃ n, octets (c :: a) = n + 1 :=
      ⟨_, (Nat.succ_pred_eq_of_pos (octets_pos (List.cons_ne_nil c a))).symm⟩
    have hrest : n + 1 - c.utf8Size = octets a := by omega
    rw [hn, List.cons_append, cutBehind?, if_pos (by omega), hrest, ih]
    rfl

theorem append_of_takeDigits {s digits tail : List Char} (h : takeDigits s = .ok (digits, tail)) :
    s = digits ++ tail := by
  obtain ⟨count, -, h⟩ := bind_eq_ok_iff.1 h
  split at h
  · cases h
  · exact (of_cutBehind? (orStop_eq_ok_iff.1 h)).1

/-- A term that was read is left behind. -/
theorem Scan.length_of_turn {st next : Scan} (h : st.turn = .ok next) :
    next.rest.length < st.rest.length := by
  simp only [turn, bind_eq_ok_iff, orStop_eq_ok_iff] at h
  obtain ⟨⟨digits, tail⟩, hdigits, unit, -, found, -, number, -, seconds, -, ⟨mark, rest⟩, hmark,
    hnext⟩ := h
  cases hnext
  obtain ⟨rfl, hoctets⟩ := of_cutBehind? hmark
  have hsome : mark ≠ [] := by
    rintro rfl
    exact absurd hoctets (Nat.ne_of_lt unit.utf8Size_pos)
  have hlength := List.length_pos_iff.2 hsome
  have htext : st.rest = digits ++ (mark ++ rest) := append_of_takeDigits hdigits
  change rest.length < st.rest.length
  rw [htext, List.length_append, List.length_append]
  omega

/-- Reads terms until nothing is left. -/
def scan (st : Scan) : Except Stop Int :=
  if st.rest.isEmpty then .ok st.seconds
  else match _h : st.turn with
    | .ok next => scan next
    | .error e => .error e
termination_by st.rest.length
decreasing_by exact Scan.length_of_turn _h

/-- The span of a number of seconds, if its milliseconds fit as well. -/
def ofSeconds? (n : Int) : Option Span :=
  if -(maxSeconds : Int) ≤ n ∧ n ≤ maxSeconds then some (ofSeconds n) else none

/-- Reads a text in place (`parse_duration`). -/
def readInPlace (s : List Char) : Except Stop Span :=
  let bare := trim s
  if bare.isEmpty then .error .refused
  else do
    let n ← scan ⟨bare, 0, 0⟩
    orStop .refused (ofSeconds? n)

/-! ## 3. What the steps come to -/

section

variable {s ds tail r : List Char} {c : Char} {n : Int} {used : Nat}

theorem inWord?_eq_some_iff {m : Int} :
    inWord? n = some m ↔ (-(Nat.pow 2 63 : Int) ≤ n ∧ n < (Nat.pow 2 63 : Int)) ∧ n = m := by
  rw [inWord?]
  split
  · rename_i h
    rw [Option.some.injEq]
    exact (and_iff_right h).symm
  · rename_i h
    exact iff_of_false (fun hnone => (by cases hnone)) fun hboth => h hboth.1

/-- More than too much is too much. -/
theorem inWord?_eq_none_of_le {m : Int} (h : inWord? n = none) (hn : 0 ≤ n) (hle : n ≤ m) :
    inWord? m = none := by
  rw [inWord?] at h ⊢
  split at h
  · cases h
  · rw [if_neg]
    omega

/-- A term fits if the sum does, for it is no greater. -/
theorem addTerm?_eq {k scale : Nat} (hn : 0 ≤ n) (hscale : 0 < scale) :
    addTerm? n k scale = inWord? (n + (k * scale : Nat)) := by
  have hle : k ≤ k * scale := Nat.le_mul_of_pos_right k hscale
  have hcast : ((k * scale : Nat) : Int) = (k : Int) * scale := Int.natCast_mul k scale
  refine Option.ext fun m => ?_
  simp only [addTerm?, Option.bind_eq_bind, Option.bind_eq_some_iff, inWord?_eq_some_iff]
  constructor
  · rintro ⟨_, ⟨-, rfl⟩, _, ⟨-, rfl⟩, hsum⟩
    rwa [hcast]
  · rintro ⟨hsum, rfl⟩
    refine ⟨k, ⟨⟨?_, ?_⟩, rfl⟩, k * scale, ⟨⟨?_, ?_⟩, rfl⟩, ?_⟩
    all_goals omega

theorem takeDigits_append (hds : ds ≠ [] ∧ ∀ c ∈ ds, c.isDigit = true) (htail : EndsDigits tail) :
    takeDigits (ds ++ tail) = .ok (ds, tail) := by
  have hcount : less? (octets (ds ++ tail)) (octets tail) = some (octets ds) := by
    rw [less?, octets_append, if_pos (Nat.le_add_left _ _), Nat.add_sub_cancel]
  rw [takeDigits, dropWhile_digits hds.2 htail, hcount, orStop_some]
  change (if octets ds = 0 then _ else _) = _
  rw [if_neg (Nat.ne_of_gt (octets_pos hds.1)), cutBehind?_append, orStop_some]

theorem takeDigits_of_endsDigits (h : EndsDigits s) : takeDigits s = .error .refused := by
  have hnone : ∀ c ∈ ([] : List Char), c.isDigit = true := fun _ hc => absurd hc List.not_mem_nil
  have hdrop : s.dropWhile Char.isDigit = s := dropWhile_digits hnone h
  have hcount : less? (octets s) (octets s) = some 0 := by
    rw [less?, if_pos (Nat.le_refl _), Nat.sub_self]
  rw [takeDigits, hdrop, hcount]
  rfl

theorem drop_of_split {α : Type} {items front back : List α} {a : α} {k : Nat}
    (h : items.drop k = front ++ a :: back) :
    items.drop (k + front.length + 1) = back ∧ k + front.length + 1 ≤ items.length := by
  constructor
  · rw [Nat.add_assoc, ← List.drop_drop, h, ← List.drop_drop, List.drop_left]
    rfl
  · have hlength := congrArg List.length h
    rw [List.length_drop, List.length_append, List.length_cons] at hlength
    omega

theorem findUnit_eq_ok {front back : List (Char × Nat)} {u : Char × Nat}
    (hsplit : units.drop used = front ++ u :: back) (hfront : ∀ v ∈ front, v.1 ≠ u.1) :
    findUnit used u.1 = .ok (u.2, used + front.length + 1) := by
  have hused : used ≤ units.length := by
    have hplace := (drop_of_split hsplit).2
    omega
  have hposition : (units.drop used).findIdx? (fun v => v.1 == u.1) = some front.length := by
    have hnone : front.findIdx? (fun v => v.1 == u.1) = none :=
      List.findIdx?_eq_none_iff.2 fun v hv => beq_eq_false_iff_ne.2 (hfront v hv)
    rw [hsplit, List.findIdx?_append, hnone, List.findIdx?_cons]
    simp
  have hentry : units[used + front.length]? = some u := by
    rw [← List.getElem?_drop, hsplit, List.getElem?_append_right (Nat.le_refl _), Nat.sub_self]
    rfl
  rw [findUnit, behind?, if_pos hused, orStop_some]
  simp only [bind, Except.bind, hposition, hentry, orStop_some]
  rfl

theorem findUnit_eq_refused (hused : used ≤ units.length) (h : ∀ v ∈ units.drop used, v.1 ≠ c) :
    findUnit used c = .error .refused := by
  have hnone : (units.drop used).findIdx? (fun v => v.1 == c) = none :=
    List.findIdx?_eq_none_iff.2 fun v hv => beq_eq_false_iff_ne.2 (h v hv)
  rw [findUnit, behind?, if_pos hused, orStop_some]
  simp only [bind, Except.bind, hnone, orStop_none]

/-- A text begins with no digit, or holds nothing else, or begins with a number that ends. -/
theorem begins_cases (s : List Char) :
    (EndsDigits s ∨ (s ≠ [] ∧ ∀ c ∈ s, c.isDigit = true))
      ∨ ∃ ds c r, s = ds ++ c :: r ∧ (ds ≠ [] ∧ ∀ c ∈ ds, c.isDigit = true)
        ∧ c.isDigit = false := by
  have hsplit := List.takeWhile_append_dropWhile (p := Char.isDigit) (l := s)
  have hdigits : ∀ c ∈ s.takeWhile Char.isDigit, c.isDigit = true := fun c hc =>
    List.mem_takeWhile_imp hc
  have hends : EndsDigits (s.dropWhile Char.isDigit) := by
    intro c hc
    have hnot := List.head?_dropWhile_not Char.isDigit s
    rw [Option.mem_def] at hc
    rw [hc] at hnot
    exact hnot
  generalize s.takeWhile Char.isDigit = ds at hsplit hdigits
  generalize s.dropWhile Char.isDigit = tail at hsplit hends
  subst hsplit
  by_cases hnil : ds = []
  · subst hnil
    exact Or.inl (Or.inl hends)
  · cases tail with
    | nil =>
      rw [List.append_nil]
      exact Or.inl (Or.inr ⟨hnil, hdigits⟩)
    | cons c r => exact Or.inr ⟨ds, c, r, rfl, ⟨hnil, hdigits⟩, hends c rfl⟩

/-- A text with no number in front, or nothing behind the number, has no term. -/
theorem turn_of_no_term (h : EndsDigits s ∨ (s ≠ [] ∧ ∀ c ∈ s, c.isDigit = true)) :
    Scan.turn ⟨s, n, used⟩ = .error .refused := by
  obtain hfront | hdigits := h
  · rw [Scan.turn, takeDigits_of_endsDigits hfront]
    simp only [bind, Except.bind]
  · have htake := takeDigits_append hdigits endsDigits_nil
    rw [List.append_nil] at htake
    rw [Scan.turn, htake]
    simp only [bind, Except.bind, List.head?_nil, orStop_none]

/-- A unit that can stand no more is refused. -/
theorem turn_of_refused (hds : ds ≠ [] ∧ ∀ c ∈ ds, c.isDigit = true) (hc : c.isDigit = false)
    (hunit : findUnit used c = .error .refused) :
    Scan.turn ⟨ds ++ c :: r, n, used⟩ = .error .refused := by
  rw [Scan.turn, takeDigits_append hds (endsDigits_cons hc)]
  simp only [bind, Except.bind, List.head?_cons, orStop_some, hunit]

/-- With a unit that can stand the term is counted, if the sum fits. -/
theorem turn_of_found {scale left : Nat} (hds : ds ≠ [] ∧ ∀ c ∈ ds, c.isDigit = true)
    (hc : c.isDigit = false) (hunit : findUnit used c = .ok (scale, left)) :
    Scan.turn ⟨ds ++ c :: r, n, used⟩
      = orStop .refused ((addTerm? n (valueOfDigits ds) scale).map fun m => ⟨r, m, left⟩) := by
  have hnumber : digits? ds = some (valueOfDigits ds) := digits?_eq_some_iff.2 ⟨hds.1, hds.2, rfl⟩
  have hcut : cutBehind? c.utf8Size (c :: r) = some ([c], r) := by
    have hoctets : octets [c] = c.utf8Size := by simp [octets]
    rw [← hoctets]
    exact cutBehind?_append [c] r
  rw [Scan.turn, takeDigits_append hds (endsDigits_cons hc)]
  simp only [ok_bind, List.head?_cons, orStop_some]
  rw [hunit, ok_bind, hnumber, orStop_some, ok_bind]
  cases addTerm? n (valueOfDigits ds) scale with
  | none => rfl
  | some m =>
    rw [orStop_some, ok_bind, hcut]
    rfl

/-! ## 4. What the reader comes to -/

/-- Units that are none of a text are passed over. -/
theorem readTerms_skip {front us : List (Char × Nat)}
    (hds : ds ≠ [] ∧ ∀ c ∈ ds, c.isDigit = true) (hc : c.isDigit = false)
    (hfront : ∀ v ∈ front, v.1 ≠ c) :
    readTerms (front ++ us) (ds ++ c :: r) = readTerms us (ds ++ c :: r) := by
  induction front with
  | nil => rfl
  | cons v front ih =>
    rw [List.forall_mem_cons] at hfront
    rw [List.cons_append, readTerms_term hds hc, if_neg (Ne.symm hfront.1), ih hfront.2]

/-- The reader takes a term in the first unit that has its mark. -/
theorem readTerms_of_split {us front back : List (Char × Nat)} {u : Char × Nat}
    (hds : ds ≠ [] ∧ ∀ c ∈ ds, c.isDigit = true) (hu : u.1.isDigit = false)
    (hsplit : us = front ++ u :: back) (hfront : ∀ v ∈ front, v.1 ≠ u.1) :
    readTerms us (ds ++ u.1 :: r) = (readTerms back r).map (valueOfDigits ds * u.2 + ·) := by
  rw [hsplit, readTerms_skip hds hu hfront, readTerms_term hds hu, if_pos rfl]

theorem readTerms_of_unknown {us : List (Char × Nat)}
    (hds : ds ≠ [] ∧ ∀ c ∈ ds, c.isDigit = true) (hc : c.isDigit = false)
    (hunknown : ∀ v ∈ us, v.1 ≠ c) : readTerms us (ds ++ c :: r) = none := by
  have hread : readTerms (us ++ []) (ds ++ c :: r) = readTerms [] (ds ++ c :: r) :=
    readTerms_skip hds hc hunknown
  rw [List.append_nil] at hread
  rw [hread]
  cases hs : ds ++ c :: r with
  | nil => exact absurd hs (by simp)
  | cons d s => rfl

theorem readTerms_of_no_term {us : List (Char × Nat)}
    (hunits : ∀ c ∈ us.map (·.1), c.isDigit = false)
    (hnil : s ≠ []) (h : EndsDigits s ∨ (s ≠ [] ∧ ∀ c ∈ s, c.isDigit = true)) :
    readTerms us s = none := by
  cases hread : readTerms us s with
  | none => rfl
  | some n =>
    obtain ⟨terms, hterms, -⟩ := exists_areTerms_of_readTerms hread
    cases terms with
    | nil => exact absurd (hterms.eq_nil_iff.2 rfl) hnil
    | cons t ts =>
      have htext := hterms.text
      rw [flatMap_text_cons] at htext
      obtain ⟨hsome, hdigits⟩ := hterms.digits t List.mem_cons_self
      -- A row begins with a digit, and it holds the mark of its first unit, which is none.
      obtain hfront | ⟨-, hall⟩ := h
      · obtain ⟨d, ds, hds⟩ := List.exists_cons_of_ne_nil hsome
        have hdigit := hdigits d (by rw [hds]; exact List.mem_cons_self)
        rw [hfront d (by rw [htext, hds]; rfl)] at hdigit
        cases hdigit
      · have hmem : t.unit.1 ∈ us.map (·.1) :=
          List.mem_map_of_mem (hterms.unit_mem List.mem_cons_self)
        have hdigit := hall t.unit.1 (by rw [htext]; simp)
        rw [hunits _ hmem] at hdigit
        cases hdigit

theorem isDigit_of_mem_drop_units {c : Char} (h : c ∈ (units.drop used).map (·.1)) :
    c.isDigit = false := by
  have hunits : ∀ c ∈ units.map (·.1), c.isDigit = false := eq_false_of_all (by decide)
  rw [List.map_drop] at h
  exact hunits c (List.mem_of_mem_drop h)

/-- The reader reads a term, if anything is left, and goes on. -/
theorem scan_eq_turn (st : Scan) :
    scan st = if st.rest = [] then .ok st.seconds else st.turn >>= scan := by
  rw [scan]
  by_cases hnil : st.rest = []
  · rw [hnil]
    rfl
  · rw [if_neg hnil, if_neg (by simpa using hnil)]
    split
    · rename_i next hturn
      rw [hturn]
      rfl
    · rename_i e hturn
      rw [hturn]
      rfl

/-- A unit is none of a row, or there is a first one with its mark. -/
theorem find_cases (us : List (Char × Nat)) (c : Char) :
    (∀ v ∈ us, v.1 ≠ c)
      ∨ ∃ front u back, us = front ++ u :: back ∧ u.1 = c ∧ ∀ v ∈ front, v.1 ≠ u.1 := by
  cases hfind : us.find? fun v => v.1 == c with
  | none =>
    refine Or.inl fun v hv heq => ?_
    exact absurd (List.find?_eq_none.1 hfind v hv) (by simpa using heq)
  | some u =>
    obtain ⟨hu, front, back, hsplit, hfront⟩ := List.find?_eq_some_iff_append.1 hfind
    obtain rfl := beq_iff_eq.1 hu
    refine Or.inr ⟨front, u, back, hsplit, rfl, fun v hv heq => ?_⟩
    have hnot := hfront v hv
    rw [heq, beq_self_eq_true] at hnot
    cases hnot

/-- With some seconds counted and some units used, the reader takes what is a row of terms in the
units that are left, if all the seconds fit, and refuses anything else. -/
theorem scan_eq (hused : used ≤ units.length) (hn : 0 ≤ n) (hfits : n < (Nat.pow 2 63 : Int)) :
    scan ⟨s, n, used⟩
      = orStop .refused ((readTerms (units.drop used) s).bind fun m => inWord? (n + m)) := by
  -- A turn goes on with less of the text, with more seconds and with fewer units.
  induction hlength : s.length using Nat.strong_induction_on generalizing s n used with
  | _ length ih =>
    rw [scan_eq_turn]
    by_cases hnil : s = []
    · subst hnil
      have hword : inWord? (n + (0 : Nat)) = some n :=
        inWord?_eq_some_iff.2 ⟨by omega, by omega⟩
      rw [readTerms_nil, Option.bind_some, hword, if_pos rfl, orStop_some]
    · rw [if_neg hnil]
      obtain hterm | ⟨ds, c, r, rfl, hds, hc⟩ := begins_cases s
      · have hread : readTerms (units.drop used) s = none :=
          readTerms_of_no_term (fun c hc => isDigit_of_mem_drop_units hc) hnil hterm
        rw [turn_of_no_term hterm, hread]
        rfl
      · obtain hnone | ⟨front, u, back, hsplit, rfl, hfront⟩ := find_cases (units.drop used) c
        · rw [turn_of_refused hds hc (findUnit_eq_refused hused hnone),
            readTerms_of_unknown hds hc hnone]
          rfl
        · have hunit : u ∈ units :=
            List.mem_of_mem_drop (hsplit ▸ List.mem_append_right front List.mem_cons_self)
          obtain ⟨hback, hplace⟩ := drop_of_split hsplit
          rw [turn_of_found hds hc (findUnit_eq_ok hsplit hfront),
            readTerms_of_split hds hc hsplit hfront,
            addTerm?_eq hn (descend_units.positive u hunit)]
          generalize valueOfDigits ds * u.2 = v
          cases hsum : inWord? (n + v) with
          | none =>
            -- What is too much stays so, whatever the terms behind it come to.
            have hmore : ∀ m : Nat, inWord? (n + (v + m : Nat)) = none := fun m =>
              inWord?_eq_none_of_le hsum (by omega) (by omega)
            cases readTerms back r with
            | none => rfl
            | some m =>
              rw [Option.map_some, Option.bind_some, hmore m]
              rfl
          | some m =>
            obtain ⟨hbounds, rfl⟩ := inWord?_eq_some_iff.1 hsum
            have hlt : r.length < length := by
              rw [← hlength, List.length_append, List.length_cons]
              omega
            have hrest := ih r.length hlt hplace (by omega) hbounds.2 rfl
            rw [hback] at hrest
            rw [Option.map_some, orStop_some, ok_bind, hrest]
            cases readTerms back r with
            | none => rfl
            | some m =>
              rw [Option.map_some, Option.bind_some, Option.bind_some, Int.natCast_add,
                Int.add_assoc]

/-- Reading in place breaks off nowhere and comes to what is read without bounds. -/
theorem readInPlace_eq (s : List Char) : readInPlace s = orStop .refused (read? s) := by
  have hlimit : (Nat.pow 2 63 : Int) = 9223372036854775808 := rfl
  have hmax : maxSeconds = 9223372036854775 := rfl
  rw [readInPlace, read?]
  by_cases hnil : trim s = []
  · rw [hnil]
    rfl
  · simp only [List.isEmpty_iff, hnil, if_false]
    have hscan : scan ⟨trim s, 0, 0⟩
        = orStop .refused ((readTerms units (trim s)).bind fun m => inWord? (0 + m)) :=
      scan_eq (Nat.zero_le _) (Int.le_refl 0) (by rw [hlimit]; decide)
    rw [hscan]
    cases readTerms units (trim s) with
    | none => rfl
    | some m =>
      rw [Option.bind_some, Option.bind_some, Int.zero_add]
      -- The bound on the milliseconds is the sharper one.
      by_cases hle : m ≤ maxSeconds
      · have hword : inWord? m = some (m : Int) := inWord?_eq_some_iff.2 ⟨by omega, rfl⟩
        have hseconds : ofSeconds? m = some (ofSeconds m) := if_pos (by omega)
        rw [hword, orStop_some, ok_bind, hseconds, if_pos hle]
      · rw [if_neg hle, orStop_none]
        cases hword : inWord? m with
        | none => rfl
        | some k =>
          obtain ⟨-, rfl⟩ := inWord?_eq_some_iff.1 hword
          have hseconds : ofSeconds? m = none := if_neg (by omega)
          rw [orStop_some, ok_bind, hseconds, orStop_none]

end

/-! ## 5. Reading and writing -/

/-- Whether a span is one that there can be: its milliseconds fit 64 bits with sign, and so do those
of its opposite. -/
def Fits (d : Span) : Prop := ofMillis (-(Nat.pow 2 63 - 1)) ≤ d ∧ d ≤ ofMillis (Nat.pow 2 63 - 1)

instance (d : Span) : Decidable d.Fits := inferInstanceAs (Decidable (_ ∧ _))

theorem Fits.toNat_wholeSeconds_le {d : Span} (h : d.Fits) : d.wholeSeconds.toNat ≤ maxSeconds := by
  have hle : d.nanos ≤ 9223372036854775807 * 1000000 := h.2
  have hmax : maxSeconds = 9223372036854775 := rfl
  rw [toNat_wholeSeconds]
  omega

theorem read_eq_ok_iff {s : List Char} {d : Span} : read s = .ok d ↔ read? s = some d := by
  rw [read]
  cases read? s with
  | none => exact iff_of_false (fun h => (by cases h)) fun h => (by cases h)
  | some e => exact ⟨fun h => congrArg some (Except.ok.inj h), fun h => (by cases h; rfl)⟩

/-- Which texts are read as spans, and what is written for one. A text is read exactly if, without
the blanks around it, it is a row of terms that comes to no more seconds than there may be, and for
these seconds; a reader in place and in 64 bits breaks off nowhere and reads the same. What is
written for a span that there can be is read as its whole seconds, or as none if it is below zero;
and it is the canonical row of these seconds, or `0s`. -/
theorem spans_are_read_exactly :
    (∀ (s : List Char) (d : Span), read s = .ok d ↔
        ∃ terms, terms ≠ [] ∧ AreTerms units terms (trim s) ∧ total terms ≤ maxSeconds
          ∧ d = ofSeconds (total terms))
      ∧ (∀ s : List Char, readInPlace s ≠ .error .brokenOff
        ∧ ∀ d, readInPlace s = .ok d ↔ read s = .ok d)
      ∧ (∀ d : Span, d.Fits → read d.text.toList
        = .ok ⟨if d.nanos < 0 then 0 else d.nanos - d.nanos % 1000000000⟩)
      ∧ ∀ (d : Span) (s : List Char), d.text.toList = s ↔
        (d.nanos < 1000000000 ∧ s = ['0', 's'])
          ∨ ∃ terms, terms ≠ [] ∧ AreTerms units terms s ∧ AreCanonical units terms
            ∧ total terms = (d.nanos / 1000000000).toNat := by
  have htext : ∀ d : Span, d.text.toList = d.write := fun d => String.toList_ofList
  refine ⟨fun s d => read_eq_ok_iff.trans read?_eq_some_iff, fun s => ⟨?_, fun d => ?_⟩,
    fun d hfits => ?_, fun d s => ?_⟩
  · rw [readInPlace_eq]
    cases read? s <;> simp
  · rw [readInPlace_eq, read_eq_ok_iff, orStop_eq_ok_iff]
  · rw [htext, read_eq_ok_iff, read?_write_of_le hfits.toNat_wholeSeconds_le, asWritten_eq]
  · have hnone : d.wholeSeconds.toNat = 0 ↔ d.nanos < 1000000000 := by
      rw [toNat_wholeSeconds]
      omega
    rw [htext, write_eq_iff, hnone, toNat_wholeSeconds]

/-- Half a second is dropped. -/
theorem ninety_seconds_and_a_half_come_back :
    (⟨90500000000⟩ : Span).Fits
      ∧ (⟨90500000000⟩ : Span).text = "1m30s"
      ∧ read (⟨90500000000⟩ : Span).text.toList = .ok (ofSeconds 90) :=
  ⟨by decide, by decide, spans_are_read_exactly.2.2.1 ⟨90500000000⟩ (by decide)⟩

end Measurement.Span
