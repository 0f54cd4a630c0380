/-
What is written for an address is read as that address.

The octets of a version 4 address have no superfluous zeros, so each is taken to
its last digit. The groups of a version 6 address are taken up to the end of the
text or up to `::`; what is left out there is as long as what is missing, since
the run that `::` stands for is a part of the address (`eq_around_longestZeroRun`).
Octets are tried before a group, and fail there because the text holds no point,
unless the address is shown with its last two groups as octets.
-/
import Measurement.Address
import Measurement.Proofs.Value

set_option autoImplicit false

namespace Measurement

open Measurement.Text

/-! ## 1. Hexadecimal numbers -/

namespace Text

theorem hexValue?_digitChar : ∀ d < 16, hexValue? (Nat.digitChar d) = some d := by decide

theorem hexNumber?_append (s : List Char) (c : Char) :
    hexNumber? (s ++ [c]) = (hexNumber? s).bind fun n => (hexValue? c).map (16 * n + ·) := by
  simp only [hexNumber?, List.foldlM_append, List.foldlM_cons, List.foldlM_nil]
  cases List.foldlM (fun n c => (hexValue? c).map (16 * n + ·)) 0 s with
  | none => rfl
  | some n => simp

@[simp] theorem hexNumber?_hexadecimal (n : Nat) : hexNumber? (hexadecimal n) = some n := by
  -- The last digit comes off the end, as the expansion puts it there.
  induction n using Nat.strongRecOn with
  | ind n ih =>
    rw [hexadecimal, Nat.toDigits_eq_if (by decide)]
    split
    · rename_i hlt
      have hread := hexNumber?_append [] (Nat.digitChar n)
      rw [hexValue?_digitChar n hlt] at hread
      simpa [hexNumber?] using hread
    · rename_i hle
      have hrest := ih (n / 16) (by omega)
      rw [hexadecimal] at hrest
      rw [hexNumber?_append, hrest, hexValue?_digitChar (n % 16) (Nat.mod_lt n (by decide))]
      simp only [Option.bind_some, Option.map_some, Option.some.injEq]
      omega

theorem isHex_of_mem_hexadecimal {n : Nat} {c : Char} (h : c ∈ hexadecimal n) :
    (hexValue? c).isSome = true := by
  obtain hdigit | hletter := mem_hexadecimal h
  · simp [hexValue?, hdigit]
  · have hletters : "abcdef".toList.all (fun d => (hexValue? d).isSome) = true := by decide
    exact List.all_eq_true.1 hletters c hletter

theorem hexadecimal_ne_nil (n : Nat) : hexadecimal n ≠ [] := Nat.toDigits_ne_nil

theorem length_hexadecimal_le (g : UInt16) : (hexadecimal g.toNat).length ≤ 4 :=
  (Nat.length_toDigits_le_iff (by decide) (by decide)).2 g.toNat_lt

end Text

namespace Address

/-! ## 2. Octets -/

theorem takeOctet_decimal (b : UInt8) {r : List Char} (hr : EndsDigits r) :
    takeOctet (decimal b.toNat ++ r) = some (b, r) := by
  have hdigits : ∀ c ∈ decimal b.toNat, c.isDigit = true := fun c hc => isDigit_of_mem_decimal hc
  -- At most three digits, and a zero in front only if it is alone.
  have hform : ∀ n < 256, ((decimal n).isEmpty || 3 < (decimal n).length
      || ((decimal n).head? == some '0' && 1 < (decimal n).length)) = false := by decide +kernel
  unfold takeOctet
  simp only [takeWhile_digits hdigits hr, dropWhile_digits hdigits hr, hform b.toNat b.toNat_lt,
    Bool.false_eq_true, if_false, valueOfDigits_decimal, if_pos b.toNat_lt]
  rw [Nat.toUInt8_eq, UInt8.ofNat_toNat]

theorem takeMark_cons (c : Char) (r : List Char) : takeMark c (c :: r) = some r := if_pos rfl

theorem takeV4_writeOctets (a b c d : UInt8) {r : List Char} (hr : EndsDigits r) :
    takeV4 (writeOctets [a, b, c, d] ++ r) = some ([a, b, c, d], r) := by
  have hpoint : ∀ s : List Char, EndsDigits ('.' :: s) := fun s => endsDigits_cons rfl
  have htext : writeOctets [a, b, c, d] ++ r
      = decimal a.toNat ++ '.' :: (decimal b.toNat ++ '.' :: (decimal c.toNat
        ++ '.' :: (decimal d.toNat ++ r))) := by
    simp [writeOctets, List.intercalate, List.intersperse]
  simp [htext, takeV4, takeMark_cons, takeOctet_decimal _ (hpoint _), takeOctet_decimal _ hr]

/-- Octets begin with a digit. -/
theorem takeV4_eq_none {s : List Char} (h : EndsDigits s) : takeV4 s = none := by
  have hoctet : takeOctet s = none := by
    cases s with
    | nil => rfl
    | cons c s => simp [takeOctet, h c (by simp)]
  rw [takeV4, hoctet]
  rfl

/-- Octets stand with a point between them. -/
theorem point_mem_of_takeV4 {s : List Char} {p : List UInt8 × List Char} (h : takeV4 s = some p) :
    '.' ∈ s := by
  unfold takeV4 at h
  simp only [Option.bind_eq_bind, Option.bind_eq_some_iff] at h
  obtain ⟨⟨a, s₁⟩, hfirst, ⟨b, s₂⟩, ⟨s₃, hmark, -⟩, -⟩ := h
  -- What is behind the first octet is a part of the text, and begins with the point.
  have hrest : s₁ = s.dropWhile Char.isDigit := by
    unfold takeOctet at hfirst
    dsimp only at hfirst
    split at hfirst
    · cases hfirst
    · split at hfirst
      · cases hfirst
        rfl
      · cases hfirst
  apply (List.dropWhile_sublist (l := s) Char.isDigit).subset
  rw [← hrest]
  cases s₁ with
  | nil => cases hmark
  | cons c s₁ =>
    rw [takeMark] at hmark
    split at hmark
    · rename_i hc
      rw [hc]
      exact List.mem_cons_self
    · cases hmark

theorem takeV4_eq_none_of_not_mem {s : List Char} (h : '.' ∉ s) : takeV4 s = none := by
  cases htake : takeV4 s with
  | none => rfl
  | some p => exact absurd (point_mem_of_takeV4 htake) h

/-! ## 3. Groups -/

/-- Whether nothing stands here, or a colon. -/
def EndsGroup (s : List Char) : Prop := ∀ c ∈ s.head?, c = ':'

theorem endsGroup_nil : EndsGroup [] := fun c hc => (by cases hc)

theorem endsGroup_colon (s : List Char) : EndsGroup (':' :: s) := by
  intro c hc
  cases hc
  rfl

theorem EndsGroup.endsDigits {s : List Char} (h : EndsGroup s) : EndsDigits s := by
  intro c hc
  rw [h c hc]
  rfl

theorem takeGroup_hexadecimal (g : UInt16) {r : List Char} (hr : EndsGroup r) :
    takeGroup (hexadecimal g.toNat ++ r) = some (g, r) := by
  have htake : (hexadecimal g.toNat ++ r).takeWhile (fun c => (hexValue? c).isSome)
      = hexadecimal g.toNat := by
    rw [List.takeWhile_append_of_pos fun c hc => isHex_of_mem_hexadecimal hc]
    cases r with
    | nil => simp
    | cons c r =>
      rw [hr c (by simp)]
      simp [hexValue?]
  have hshort : ¬ 4 < (hexadecimal g.toNat).length := Nat.not_lt.2 (length_hexadecimal_le g)
  unfold takeGroup
  simp only [htake, hexNumber?_hexadecimal, Option.map_some, List.drop_left]
  simp [hexadecimal_ne_nil, hshort]

theorem takeGroup_eq_none {s : List Char} (h : EndsGroup s) : takeGroup s = none := by
  cases s with
  | nil => rfl
  | cons c s =>
    rw [h c (by simp)]
    rfl

/-! ## 4. Rows of groups -/

/-- Whether a row of groups ends here: at the end of the text, or at two colons. -/
def EndsRow (s : List Char) : Prop := s = [] ∨ ∃ r, s = ':' :: ':' :: r

theorem EndsRow.endsGroup {s : List Char} (h : EndsRow s) : EndsGroup s := by
  obtain rfl | ⟨r, rfl⟩ := h
  · exact endsGroup_nil
  · exact endsGroup_colon _

theorem takeGroups_of_endsRow (limit : Nat) (first : Bool) {s : List Char} (h : EndsRow s) :
    takeGroups limit first s = ⟨[], false, s⟩ := by
  cases limit with
  | zero => rfl
  | succ limit =>
    -- Behind one colon the other one stands, where no group begins either.
    have hnone : ∀ s', EndsGroup s' → (if 1 ≤ limit then takeV4 s' else none) = none
        ∧ takeGroup s' = none := by
      intro s' hs'
      refine ⟨?_, takeGroup_eq_none hs'⟩
      rw [takeV4_eq_none hs'.endsDigits, ite_self]
    obtain rfl | ⟨r, rfl⟩ := h
    · cases first with
      | false => rfl
      | true => simp [takeGroups, hnone [] endsGroup_nil]
    · cases first with
      | false => simp [takeGroups, takeMark, hnone (':' :: r) (endsGroup_colon r)]
      | true => simp [takeGroups, hnone (':' :: ':' :: r) (endsGroup_colon (':' :: r))]

/-- Groups with a colon before each. -/
def behindColons (groups : List UInt16) : List Char :=
  groups.flatMap fun g => ':' :: hexadecimal g.toNat

theorem writeGroups_cons (g : UInt16) (groups : List UInt16) :
    writeGroups (g :: groups) = hexadecimal g.toNat ++ behindColons groups := by
  induction groups generalizing g with
  | nil => simp [writeGroups, behindColons]
  | cons x groups ih =>
    have hnext := ih x
    rw [writeGroups, List.map_cons] at hnext
    rw [writeGroups, List.map_cons, List.map_cons, List.intercalate_cons_of_ne_nil (by simp), hnext]
    simp [behindColons]

theorem endsGroup_behindColons (groups : List UInt16) {r : List Char} (hr : EndsRow r) :
    EndsGroup (behindColons groups ++ r) := by
  cases groups with
  | nil => exact hr.endsGroup
  | cons g groups => exact endsGroup_colon _

theorem point_not_mem_hexadecimal (n : Nat) : '.' ∉ hexadecimal n := fun h =>
  absurd (mem_hexadecimal h) (by decide)

theorem point_not_mem_behindColons (groups : List UInt16) : '.' ∉ behindColons groups := by
  intro h
  obtain ⟨g, -, hg⟩ := List.mem_flatMap.1 h
  obtain hcolon | hdigit := List.mem_cons.1 hg
  · exact absurd hcolon (by decide)
  · exact point_not_mem_hexadecimal _ hdigit

theorem point_not_mem_writeGroups (groups : List UInt16) : '.' ∉ writeGroups groups := by
  cases groups with
  | nil => exact List.not_mem_nil
  | cons g groups =>
    rw [writeGroups_cons]
    exact List.not_mem_append (point_not_mem_hexadecimal _) (point_not_mem_behindColons groups)

/-- One group more is taken, if no octets can be taken in its place. -/
theorem takeGroups_succ {limit : Nat} {first : Bool} {g : UInt16} {s r : List Char}
    (hmark : (if first then some s else takeMark ':' s) = some (hexadecimal g.toNat ++ r))
    (hpoint : '.' ∉ r) (hr : EndsGroup r) :
    takeGroups (limit + 1) first s =
      ⟨g :: (takeGroups limit false r).groups, (takeGroups limit false r).embedded,
        (takeGroups limit false r).rest⟩ := by
  have hnone : (if 1 ≤ limit then takeV4 (hexadecimal g.toNat ++ r) else none) = none := by
    have hclear := List.not_mem_append (point_not_mem_hexadecimal g.toNat) hpoint
    rw [takeV4_eq_none_of_not_mem hclear, ite_self]
  rw [takeGroups, hmark]
  simp only [hnone, takeGroup_hexadecimal g hr]

theorem takeGroups_behindColons (limit : Nat) {groups : List UInt16} {r : List Char}
    (hlength : groups.length ≤ limit) (hpoint : '.' ∉ r) (hr : EndsRow r) :
    takeGroups limit false (behindColons groups ++ r) = ⟨groups, false, r⟩ := by
  -- Each group uses up one of the limit, so at the end of the row nothing is left over to be taken.
  induction groups generalizing limit with
  | nil => exact takeGroups_of_endsRow limit false hr
  | cons g groups ih =>
    rw [List.length_cons] at hlength
    obtain ⟨limit, rfl⟩ : ∃ k, limit = k + 1 := ⟨limit - 1, by omega⟩
    have htext : behindColons (g :: groups) ++ r
        = ':' :: (hexadecimal g.toNat ++ (behindColons groups ++ r)) := by
      simp [behindColons]
    have hclear := List.not_mem_append (point_not_mem_behindColons groups) hpoint
    have hmark : (if false then some (behindColons (g :: groups) ++ r)
        else takeMark ':' (behindColons (g :: groups) ++ r))
        = some (hexadecimal g.toNat ++ (behindColons groups ++ r)) := by
      rw [htext]
      exact takeMark_cons ':' _
    rw [takeGroups_succ hmark hclear (endsGroup_behindColons groups hr), ih limit (by omega)]

/-- The groups that were written are taken, and no more. -/
theorem takeGroups_writeGroups (limit : Nat) {groups : List UInt16} {r : List Char}
    (hlength : groups.length ≤ limit) (hpoint : '.' ∉ r) (hr : EndsRow r) :
    takeGroups limit true (writeGroups groups ++ r) = ⟨groups, false, r⟩ := by
  cases groups with
  | nil => exact takeGroups_of_endsRow limit true hr
  | cons g groups =>
    rw [List.length_cons] at hlength
    obtain ⟨limit, rfl⟩ : ∃ k, limit = k + 1 := ⟨limit - 1, by omega⟩
    have hclear := List.not_mem_append (point_not_mem_behindColons groups) hpoint
    rw [writeGroups_cons, List.append_assoc,
      takeGroups_succ rfl hclear (endsGroup_behindColons groups hr),
      takeGroups_behindColons limit (by omega) hpoint hr]

/-! ## 5. The zeros that are left out -/

theorem eq_zeros_append_drop (groups : List UInt16) :
    groups = List.replicate (zeroRun groups) 0 ++ groups.drop (zeroRun groups) := by
  have hzeros : groups.takeWhile (· == 0) = List.replicate (zeroRun groups) 0 := by
    refine List.eq_replicate_iff.2 ⟨rfl, fun g hg => ?_⟩
    exact beq_iff_eq.1 (List.mem_takeWhile_imp (p := (· == 0)) hg)
  have hprefix : groups.takeWhile (· == 0) = groups.take (zeroRun groups) :=
    List.prefix_iff_eq_take.1 (List.takeWhile_prefix _)
  rw [← hzeros, hprefix, List.take_append_drop]

/-- The longest run of zeros stands where it is said to be. -/
theorem eq_around_longestZeroRun (groups : List UInt16) :
    groups = groups.take (longestZeroRun groups).1
      ++ List.replicate (longestZeroRun groups).2 0
      ++ groups.drop ((longestZeroRun groups).1 + (longestZeroRun groups).2) := by
  induction groups with
  | nil => rfl
  | cons g rest ih =>
    rw [longestZeroRun]
    split
    · -- The run at the front is the longest.
      simpa using eq_zeros_append_drop (g :: rest)
    · rw [List.take_succ_cons, Nat.add_right_comm, List.drop_succ_cons, List.cons_append,
        List.cons_append, ← ih]

theorem length_around_longestZeroRun (groups : List UInt16) :
    (groups.take (longestZeroRun groups).1).length + (longestZeroRun groups).2
      + (groups.drop ((longestZeroRun groups).1 + (longestZeroRun groups).2)).length
      = groups.length := by
  have hwhole := congrArg List.length (eq_around_longestZeroRun groups)
  rw [List.length_append, List.length_append, List.length_replicate] at hwhole
  exact hwhole.symm

/-! ## 6. Addresses -/

theorem groupOf_octets (g : UInt16) : groupOf (highOctet g) (lowOctet g) = g := by
  have hlt := g.toNat_lt
  have hsize : UInt8.size = 256 := rfl
  have hhigh : (highOctet g).toNat = g.toNat / 256 := UInt8.toNat_ofNat_of_lt' (by omega)
  have hlow : (lowOctet g).toNat = g.toNat % 256 := UInt8.toNat_ofNat_of_lt' (by omega)
  rw [groupOf, hhigh, hlow, Nat.div_add_mod']
  exact UInt16.ofNat_toNat

theorem takeV6_writeGroups {groups : List UInt16} (h : groups.length = 8) :
    takeV6 (writeGroups groups) = some (groups, []) := by
  have htake := takeGroups_writeGroups 8 (r := []) (Nat.le_of_eq h) List.not_mem_nil (Or.inl rfl)
  rw [List.append_nil] at htake
  rw [takeV6, htake]
  simp [h]

/-- The zeros that two colons stand for are as many as the groups that are missing. -/
theorem takeV6_around {front back : List UInt16} {zeros : Nat} (hzeros : 0 < zeros)
    (h : front.length + zeros + back.length = 8) :
    takeV6 (writeGroups front ++ ':' :: ':' :: writeGroups back)
      = some (front ++ List.replicate zeros 0 ++ back, []) := by
  have hclear : '.' ∉ ':' :: ':' :: writeGroups back := by
    simp [point_not_mem_writeGroups back]
  have hfewer : front.length ≤ 8 := by omega
  have hfit : back.length ≤ 7 - front.length := by omega
  have hfront := takeGroups_writeGroups 8 hfewer hclear (Or.inr ⟨_, rfl⟩)
  have hback := takeGroups_writeGroups (7 - front.length) (r := []) hfit List.not_mem_nil
    (Or.inl rfl)
  rw [List.append_nil] at hback
  have hdrop : dropLead? [':', ':'] (':' :: ':' :: writeGroups back) = some (writeGroups back) :=
    dropLead?_append [':', ':'] (writeGroups back)
  have hmissing : 8 - front.length - back.length = zeros := by omega
  have hshort : front.length ≠ 8 := by omega
  rw [takeV6, hfront]
  simp [hshort, hdrop, hback, hmissing]

theorem takeV6_mapped (a b : UInt16) :
    takeV6 ("::ffff:".toList ++ writeOctets [highOctet a, lowOctet a, highOctet b, lowOctet b])
      = some ([0, 0, 0, 0, 0, 0xFFFF, a, b], []) := by
  have hoctets := takeV4_writeOctets (highOctet a) (lowOctet a) (highOctet b) (lowOctet b)
    endsDigits_nil
  rw [List.append_nil] at hoctets
  generalize writeOctets [highOctet a, lowOctet a, highOctet b, lowOctet b] = octets at hoctets ⊢
  -- Nothing is before the colons, and behind them a group and the octets.
  have hfront : takeGroups 8 true ("::ffff:".toList ++ octets)
      = ⟨[], false, "::ffff:".toList ++ octets⟩ :=
    takeGroups_of_endsRow 8 true (Or.inr ⟨"ffff:".toList ++ octets, rfl⟩)
  have hdrop : dropLead? [':', ':'] ("::ffff:".toList ++ octets)
      = some ("ffff:".toList ++ octets) :=
    dropLead?_append [':', ':'] ("ffff:".toList ++ octets)
  have hlast : takeGroups 6 false (':' :: octets) = ⟨[a, b], true, []⟩ := by
    rw [takeGroups]
    simp [takeMark, hoctets, groupOf_octets]
  have hletter : takeV4 ("ffff:".toList ++ octets) = none :=
    takeV4_eq_none (endsDigits_cons (c := 'f') rfl)
  have hgroup : takeGroup ("ffff:".toList ++ octets) = some (0xFFFF, ':' :: octets) :=
    takeGroup_hexadecimal 0xFFFF (endsGroup_colon octets)
  have hback : takeGroups 7 true ("ffff:".toList ++ octets) = ⟨[0xFFFF, a, b], true, []⟩ := by
    rw [takeGroups]
    simp only [if_true, hletter, ite_self, hgroup, hlast]
  rw [takeV6, hfront]
  simp only [List.length_nil, hdrop, Option.map_some, hback]
  rfl

theorem takeV6_writeV6 {groups : List UInt16} (h : groups.length = 8) :
    takeV6 (writeV6 groups) = some (groups, []) := by
  unfold writeV6
  split
  · exact takeV6_mapped _ _
  · dsimp only
    split
    · -- The groups in front of the longest run, two colons in its place, and the groups behind it.
      rename_i hrun
      rw [takeV6_around (by omega) ((length_around_longestZeroRun groups).trans h),
        ← eq_around_longestZeroRun]
    · exact takeV6_writeGroups h

/-- No octets stand at the front of a version 6 address. -/
theorem takeV4_writeV6 (groups : List UInt16) : takeV4 (writeV6 groups) = none := by
  obtain ⟨octets, htext⟩ | ⟨front, back, htext⟩ | htext := writeV6_form groups
  · rw [htext]
    exact takeV4_eq_none (endsDigits_cons (c := ':') rfl)
  · rw [htext]
    apply takeV4_eq_none_of_not_mem
    simp [point_not_mem_writeGroups]
  · rw [htext]
    exact takeV4_eq_none_of_not_mem (point_not_mem_writeGroups groups)

theorem ofOctets?_toList (octets : Vector UInt8 4) :
    ofOctets? octets.toList = some (v4 octets) := by
  simp [ofOctets?, Vector.toList]

theorem ofGroups?_toList (groups : Vector UInt16 8) :
    ofGroups? groups.toList = some (v6 groups) := by
  simp [ofGroups?, Vector.toList]

/-- What is written for an address is read as that address. -/
theorem read?_write (a : Address) : read? a.write = some a := by
  cases a with
  | v4 octets =>
    obtain ⟨a, b, c, d, hlist⟩ := List.length_eq_four.1 octets.length_toList
    have htake := takeV4_writeOctets a b c d endsDigits_nil
    rw [List.append_nil, ← hlist] at htake
    rw [write, read?, htake]
    exact ofOctets?_toList octets
  | v6 groups =>
    have htake := takeV6_writeV6 groups.length_toList
    rw [write, read?, takeV4_writeV6, htake]
    exact ofGroups?_toList groups

end Address

/-- Of addresses nothing needs to be supposed. -/
theorem Value.readsBack_of_ne_real {v : Value} (h : v.primitive ≠ .real) : v.ReadsBack := by
  cases v with
  | real x => exact absurd rfl h
  | address a => exact a.read?_write
  | _ => trivial

end Measurement
