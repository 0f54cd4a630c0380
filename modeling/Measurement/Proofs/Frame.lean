/-
What is read from a stream of frames.

The head of a stream is its first four octets, and the length that they give is
their value in base 256, most significant first (`lengthOf_head`). Every length
below 2³² comes back from its four octets (`lengthOf_lengthOctets`); the body of
a frame is far shorter, so that a frame which was written is read as its body and
what follows it (`read_frame`). A row of frames is read as the row of their
bodies, by induction on the row (`readAll_joined`).
-/
import Measurement.Frame

set_option autoImplicit false

namespace Measurement.Frame

/-! ## 1. Heads -/

/-- Four octets. -/
def head (a b c d : UInt8) : ByteArray := ⟨#[a, b, c, d]⟩

/-- The number that four octets make, most significant first. -/
def bigEndian (a b c d : UInt8) : Nat :=
  a.toNat * 16777216 + b.toNat * 65536 + c.toNat * 256 + d.toNat

/-- A stream of four octets or more begins with a head. -/
theorem exists_head {stream : ByteArray} (h : 4 ≤ stream.size) :
    ∃ a b c d tail, stream = head a b c d ++ tail := by
  refine ⟨stream[0], stream[1], stream[2], stream[3], stream.extract 4 stream.size, ?_⟩
  have hhead : stream.extract 0 4 = head stream[0] stream[1] stream[2] stream[3] :=
    ByteArray.extract_add_four (a := stream) (i := 0) (by omega)
  rw [← hhead, ← ByteArray.extract_eq_extract_append_extract 4 (Nat.zero_le _) h,
    ByteArray.extract_zero_size]

/-- A stream is too short for a head, or too short for the body behind its head, or it has both. -/
theorem size_lt_or_exists_head (stream : ByteArray) :
    stream.size < 4 ∨ ∃ a b c d tail, stream = head a b c d ++ tail
      ∧ (tail.size < bigEndian a b c d
        ∨ ∃ body rest, tail = body ++ rest ∧ body.size = bigEndian a b c d) := by
  by_cases hshort : stream.size < 4
  · exact .inl hshort
  · obtain ⟨a, b, c, d, tail, rfl⟩ := exists_head (Nat.not_lt.1 hshort)
    refine .inr ⟨a, b, c, d, tail, rfl, ?_⟩
    by_cases hcut : tail.size < bigEndian a b c d
    · exact .inl hcut
    · refine .inr ⟨tail.extract 0 (bigEndian a b c d),
        tail.extract (bigEndian a b c d) tail.size, ?_, ?_⟩
      · rw [← ByteArray.extract_eq_extract_append_extract _ (Nat.zero_le _) (Nat.not_lt.1 hcut),
          ByteArray.extract_zero_size]
      · rw [ByteArray.size_extract]
        omega

theorem toList_head (a b c d : UInt8) : (head a b c d).toList = [a, b, c, d] := by
  have hstep : ∀ (i : Nat) (r : List UInt8), i < 4 →
      ByteArray.toList.loop (head a b c d) i r
        = ByteArray.toList.loop (head a b c d) (i + 1) ((head a b c d).get! i :: r) := by
    intro i r hi
    rw [ByteArray.toList.loop]
    exact if_pos hi
  have hlast : ∀ r : List UInt8, ByteArray.toList.loop (head a b c d) 4 r = r.reverse := by
    intro r
    rw [ByteArray.toList.loop]
    exact if_neg (Nat.lt_irrefl 4)
  rw [ByteArray.toList, hstep 0 _ (by decide), hstep 1 _ (by decide), hstep 2 _ (by decide),
    hstep 3 _ (by decide), hlast]
  rfl

theorem lengthOf_head (a b c d : UInt8) : lengthOf (head a b c d) = bigEndian a b c d := by
  rw [lengthOf, toList_head, bigEndian]
  simp only [List.take_succ_cons, List.take_zero, List.map_cons, List.map_nil, List.foldl_cons,
    List.foldl_nil]
  omega

/-- The four octets of a length are its digits in base 256. -/
theorem exists_head_of_length {n : Nat} (h : n < 4294967296) :
    ∃ a b c d, lengthOctets n = head a b c d ∧ bigEndian a b c d = n := by
  refine ⟨(n >>> 24).toUInt8, (n >>> 16).toUInt8, (n >>> 8).toUInt8, n.toUInt8, rfl, ?_⟩
  have hoctet : ∀ m : Nat, m.toUInt8.toNat = m % 256 := fun m => UInt8.toNat_ofNat'
  rw [bigEndian]
  simp only [hoctet, Nat.shiftRight_eq_div_pow]
  omega

theorem lengthOf_lengthOctets {n : Nat} (h : n < 4294967296) : lengthOf (lengthOctets n) = n := by
  obtain ⟨a, b, c, d, hoctets, hvalue⟩ := exists_head_of_length h
  rw [hoctets, lengthOf_head, hvalue]

/-! ## 2. One frame -/

theorem read_of_size_lt {stream : ByteArray} (h : stream.size < 4) :
    read stream = .error .closed := if_pos h

/-- Behind the head comes the body, if it is not too large and there is enough for it. -/
theorem read_head_append (a b c d : UInt8) (tail : ByteArray) :
    read (head a b c d ++ tail) =
      if maxSize < bigEndian a b c d then .error (.tooLarge (bigEndian a b c d))
      else if tail.size < bigEndian a b c d then .error .broken
      else .ok (tail.extract 0 (bigEndian a b c d),
        tail.extract (bigEndian a b c d) tail.size) := by
  have hsize : (head a b c d ++ tail).size = 4 + tail.size := ByteArray.size_append
  have hhead : (head a b c d ++ tail).extract 0 4 = head a b c d :=
    ByteArray.extract_append_eq_left rfl
  have hbody : ∀ i j, (head a b c d ++ tail).extract (4 + i) (4 + j) = tail.extract i j := by
    intro i j
    exact ByteArray.extract_append_size_add' rfl
  have hfrom : ∀ j, (head a b c d ++ tail).extract 4 (4 + j) = tail.extract 0 j := hbody 0
  rw [read, hhead, lengthOf_head, hsize, if_neg (by omega)]
  dsimp only
  rw [hfrom, hbody]
  by_cases hlarge : maxSize < bigEndian a b c d
  · rw [if_pos hlarge, if_pos hlarge]
  · rw [if_neg hlarge, if_neg hlarge]
    by_cases hshort : tail.size < bigEndian a b c d
    · rw [if_pos hshort, if_pos (by omega)]
    · rw [if_neg hshort, if_neg (by omega)]

/-- A body of the length that the head gives is read, and what follows it is left. -/
theorem read_head_body {a b c d : UInt8} {body : ByteArray} (hsize : body.size = bigEndian a b c d)
    (hmax : body.size ≤ maxSize) (rest : ByteArray) :
    read (head a b c d ++ (body ++ rest)) = .ok (body, rest) := by
  have htotal : (body ++ rest).size = body.size + rest.size := ByteArray.size_append
  rw [read_head_append, ← hsize, if_neg (by omega), if_neg (by omega)]
  have hbody : (body ++ rest).extract 0 body.size = body := ByteArray.extract_append_eq_left rfl
  have hrest : (body ++ rest).extract body.size (body ++ rest).size = rest :=
    ByteArray.extract_append_eq_right rfl htotal
  rw [hbody, hrest]

theorem write_of_le {body : ByteArray} (h : body.size ≤ maxSize) :
    write body = .ok (lengthOctets body.size ++ body) := if_pos h

theorem write_of_lt {body : ByteArray} (h : maxSize < body.size) :
    write body = .error (.tooLarge body.size) := if_neg (Nat.not_le.2 h)

theorem write_eq_ok_iff {body frame : ByteArray} :
    write body = .ok frame ↔ body.size ≤ maxSize ∧ frame = lengthOctets body.size ++ body := by
  by_cases h : body.size ≤ maxSize
  · rw [write_of_le h, Except.ok.injEq, eq_comm]
    exact ⟨fun he => ⟨h, he⟩, And.right⟩
  · rw [write_of_lt (Nat.not_le.1 h)]
    constructor
    · intro he
      cases he
    · rintro ⟨hle, -⟩
      exact absurd hle h

/-- A frame that was written is read as its body and what follows it. -/
theorem read_frame {body frame : ByteArray} (h : write body = .ok frame) (rest : ByteArray) :
    read (frame ++ rest) = .ok (body, rest) := by
  obtain ⟨hmax, rfl⟩ := write_eq_ok_iff.1 h
  have hlt : body.size < 4294967296 := Nat.lt_of_le_of_lt hmax (by decide)
  have hlength := lengthOf_lengthOctets hlt
  rw [ByteArray.append_assoc]
  refine read_head_body ?_ hmax rest
  rw [← lengthOf_head]
  exact hlength.symm

/-! ## 3. Rows of frames -/

theorem readAll_of_error {stream : ByteArray} {e : FrameFault} (h : read stream = .error e) :
    readAll stream = ([], e) := by
  rw [readAll]
  split
  · rename_i hread
    rw [h] at hread
    cases hread
    rfl
  · rename_i hread
    rw [h] at hread
    cases hread

theorem readAll_of_ok {stream body rest : ByteArray} (h : read stream = .ok (body, rest)) :
    readAll stream = (body :: (readAll rest).1, (readAll rest).2) := by
  rw [readAll]
  split
  · rename_i hread
    rw [h] at hread
    cases hread
  · rename_i hread
    rw [h] at hread
    cases hread
    rfl

/-- The stream of some frames. -/
def joined (frames : List ByteArray) : ByteArray := frames.foldr (· ++ ·) .empty

/-- The frames of some bodies are read as these bodies, and then the stream is at its end. -/
theorem readAll_joined {bodies frames : List ByteArray} (h : bodies.mapM write = .ok frames) :
    readAll (joined frames) = (bodies, .closed) := by
  induction bodies generalizing frames with
  | nil =>
    rw [List.mapM_nil] at h
    cases h
    exact readAll_of_error (read_of_size_lt (by decide))
  | cons body bodies ih =>
    rw [List.mapM_cons] at h
    cases hframe : write body with
    | error e =>
      rw [hframe] at h
      cases h
    | ok frame =>
      cases hframes : bodies.mapM write with
      | error e =>
        rw [hframe, hframes] at h
        cases h
      | ok rest =>
        rw [hframe, hframes] at h
        cases h
        rw [joined, List.foldr_cons]
        change readAll (frame ++ joined rest) = _
        rw [readAll_of_ok (read_frame hframe _), ih hframes]

end Measurement.Frame
