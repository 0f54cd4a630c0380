/-
Frames: messages on a stream of octets.

A frame is the length of its body in four octets, most significant first, and
the body, which is the text of one message in UTF-8. A body has at most sixteen
mebioctets, which is checked before the body is read or written.
-/
import Measurement.Message.Reading

set_option autoImplicit false

namespace Measurement

/-- What can go wrong with the frames of a stream (`ProtocolError`). -/
inductive FrameFault where
  /-- The stream ended before a frame. -/
  | closed
  /-- The stream ended within a frame, or takes nothing. -/
  | broken
  /-- The other side was silent for too long. -/
  | timeout
  /-- The body is too large. -/
  | tooLarge (size : Nat)
  /-- The body is not UTF-8. -/
  | notText
  /-- The body is no message. -/
  | invalid (fault : Fault)
deriving DecidableEq

namespace Frame

/-- The largest body (`MAX_MESSAGE_SIZE`). -/
def maxSize : Nat := 16 * 1024 * 1024

end Frame

/-- The wording of a fault of frames; that of a broken stream is not worded further. -/
def FrameFault.message : FrameFault → String
  | closed => "Connection closed"
  | broken => "IO error: "
  | timeout => "Timed out"
  | tooLarge size => s!"Message too large: {size} bytes (max {Frame.maxSize})"
  | notText => "Invalid UTF-8 in message"
  | invalid fault => "Invalid message: " ++ fault.message

namespace Frame

/-! ## 1. Octets -/

/-- The octets of a length. -/
def lengthOctets (n : Nat) : ByteArray :=
  ⟨#[(n >>> 24).toUInt8, (n >>> 16).toUInt8, (n >>> 8).toUInt8, n.toUInt8]⟩

/-- The length that the first four octets give. -/
def lengthOf (octets : ByteArray) : Nat :=
  ((octets.toList.take 4).map UInt8.toNat).foldl (fun n b => 256 * n + b) 0

/-- The frame around a body (`write_message`). -/
def write (body : ByteArray) : Except FrameFault ByteArray :=
  if body.size ≤ maxSize then .ok (lengthOctets body.size ++ body)
  else .error (.tooLarge body.size)

/-- The body of the frame at the head of a stream that ends, and what follows it
(`read_message`). -/
def read (stream : ByteArray) : Except FrameFault (ByteArray × ByteArray) :=
  if stream.size < 4 then .error .closed
  else
    let length := lengthOf (stream.extract 0 4)
    -- Refused before the body is there, which may never come.
    if maxSize < length then .error (.tooLarge length)
    else if stream.size < 4 + length then .error .broken
    else .ok (stream.extract 4 (4 + length), stream.extract (4 + length) stream.size)

theorem size_of_read {stream body rest : ByteArray} (h : read stream = .ok (body, rest)) :
    rest.size < stream.size := by
  unfold read at h
  split at h
  · exact absurd h (by simp)
  · rename_i h4
    simp only at h
    split at h
    · exact absurd h (by simp)
    · split at h
      · exact absurd h (by simp)
      · rename_i hl
        simp only [Except.ok.injEq, Prod.mk.injEq] at h
        rw [← h.2, ByteArray.size_extract]
        omega

/-- The bodies of the frames of a stream, and what ends them. -/
def readAll (stream : ByteArray) : List ByteArray × FrameFault :=
  match h : read stream with
  | .error e => ([], e)
  | .ok (body, rest) =>
    have _shorter : rest.size < stream.size := size_of_read h
    let (bodies, e) := readAll rest
    (body :: bodies, e)
termination_by stream.size
decreasing_by assumption

/-! ## 2. Messages -/

/-- The body that holds a message (`encode`). -/
def encode (m : Message) : ByteArray := m.text.toUTF8

/-- The message in a body (`decode`). -/
def decode (lookup : RegistryLookup) (body : ByteArray) : Except FrameFault Message :=
  match String.fromUTF8? body with
  | none => .error .notText
  | some s => (Message.read lookup s).mapError .invalid

end Frame

end Measurement
