/-
What a peer gets for what it sends.

A peer that sends its octets and closes its end gets one reply at most, and what
it gets is decided by the first frame alone. A stream that ends before the head
of a frame, or a frame that is too large or cut off, is not answered, and nothing
happens. Every other frame is answered: what holds a message is handed to the
scheduler, whose reply is written back, and what holds none is answered with an
exception and handed to no one (`one_request_one_reply`).

Whether a reply gets through is a matter of its size. A reply that is too large
for a frame is not written, and yet the request was carried out.
-/
import Measurement.Component.Exchange
import Measurement.Proofs.Frame
import Measurement.Proofs.Time.Timers

set_option autoImplicit false

namespace Measurement

/-- The peer that sends some octets, closes its end and reads everything. -/
def Peer.sending (identity : String) (sent : ByteArray) : Peer :=
  ⟨identity, sent, false, .everything⟩

namespace Component

variable {lookup : RegistryLookup} {identity : String} {sent body rest : ByteArray}

/-! ## 1. What is received -/

theorem scheduler_startJob (x : Component) (token : String) :
    (x.startJob token).scheduler = x.scheduler := by
  rw [startJob]
  split <;> rfl

theorem scheduler_signal (x : Component) (token : String) :
    (x.signal token).scheduler = x.scheduler := by
  rw [signal]
  split <;> rfl

theorem scheduler_foldl_startJob (x : Component) (tokens : List String) :
    (tokens.foldl startJob x).scheduler = x.scheduler := by
  induction tokens generalizing x with
  | nil => rfl
  | cons token tokens ih => rw [List.foldl_cons, ih, scheduler_startJob]

/-- A message does to the scheduler of a component what it does to a scheduler. -/
theorem scheduler_receive (x : Component) (identity : String) (m : Message) :
    (x.receive identity m).2.scheduler = (x.scheduler.receive x.now x.now identity m).2 := by
  rw [receive]
  dsimp only
  split
  · rw [scheduler_signal]
  · rw [scheduler_foldl_startJob]

theorem request_of_read_error {e : FrameFault} (h : Frame.read sent = .error e) :
    request lookup (.sending identity sent) = .error e := by
  simp only [request, Peer.sending, h, Bool.false_and]
  rfl

theorem request_of_read (h : Frame.read sent = .ok (body, rest)) :
    request lookup (.sending identity sent) = Frame.decode lookup body := by
  simp only [request, Peer.sending, h]

/-- What is in a body is a message if the body is text and the text can be read. -/
theorem decode_eq_ok_iff {m : Message} : Frame.decode lookup body = .ok m
    ↔ ∃ s, String.fromUTF8? body = some s ∧ Message.read lookup s = .ok m := by
  rw [Frame.decode]
  cases String.fromUTF8? body with
  | none =>
    constructor
    · intro h
      cases h
    · rintro ⟨s, hs, -⟩
      cases hs
  | some s =>
    dsimp only
    constructor
    · intro h
      refine ⟨s, rfl, ?_⟩
      cases hread : Message.read lookup s with
      | error fault =>
        rw [hread] at h
        cases h
      | ok n =>
        rw [hread] at h
        exact congrArg Except.ok (Except.ok.inj h)
    · rintro ⟨t, ht, hread⟩
      cases ht
      rw [hread]
      rfl

/-- What is wrong with a body: it is no text, or its text is no message. -/
def IsFaultOf (lookup : RegistryLookup) (body : ByteArray) (e : FrameFault) : Prop :=
  (String.fromUTF8? body = none ∧ e = .notText)
    ∨ ∃ s fault, String.fromUTF8? body = some s ∧ Message.read lookup s = .error fault
      ∧ e = .invalid fault

theorem isFaultOf_of_decode {e : FrameFault} (h : Frame.decode lookup body = .error e) :
    IsFaultOf lookup body e := by
  unfold Frame.decode at h
  split at h
  · rename_i hnone
    cases h
    exact .inl ⟨hnone, rfl⟩
  · rename_i s hs
    cases hread : Message.read lookup s with
    | error fault =>
      rw [hread] at h
      cases h
      exact .inr ⟨s, fault, hs, hread, rfl⟩
    | ok m =>
      rw [hread] at h
      cases h

/-! ## 2. What is answered -/

/-- What a peer gets that reads everything: the frame of the reply, if the reply fits in one. -/
def framed (reply : Message) : Exchanged :=
  if (Frame.encode reply).size ≤ Frame.maxSize then
    ⟨.ok (), Frame.lengthOctets (Frame.encode reply).size ++ Frame.encode reply⟩
  else ⟨.error (.frame (.tooLarge (Frame.encode reply).size)), .empty⟩

theorem answer_sending (x : Component) (millis : Nat) (reply : Message) :
    x.answer (.sending identity sent) millis reply = (framed reply, x) := by
  rw [answer, framed]
  by_cases hsize : (Frame.encode reply).size ≤ Frame.maxSize
  · rw [Frame.write_of_le hsize, if_pos hsize]
    rfl
  · rw [Frame.write_of_lt (Nat.not_le.1 hsize), if_neg hsize]

theorem serve_of_message (x : Component) (millis : Nat) {m : Message}
    (hread : Frame.read sent = .ok (body, rest)) (h : Frame.decode lookup body = .ok m) :
    x.serve lookup (.sending identity sent) millis
      = (framed (x.receive identity m).1, (x.receive identity m).2) := by
  rw [serve, request_of_read hread, h]
  exact answer_sending _ millis _

theorem serve_of_no_message (x : Component) (millis : Nat) {e : FrameFault}
    (hread : Frame.read sent = .ok (body, rest)) (h : Frame.decode lookup body = .error e) :
    x.serve lookup (.sending identity sent) millis
      = (framed (.exception ⟨none, e.message⟩), x) := by
  rw [serve, request_of_read hread, h]
  rcases isFaultOf_of_decode h with ⟨-, rfl⟩ | ⟨s, fault, -, -, rfl⟩
  · exact answer_sending x millis _
  · exact answer_sending x millis _

/-- What is written is the length of the text of a reply in octets of UTF-8, and these. -/
theorem framed_eq (reply : Message) :
    let payload := reply.toJson.render.toUTF8
    (payload.size ≤ Frame.maxSize → ∃ a b c d, Frame.bigEndian a b c d = payload.size
        ∧ framed reply = ⟨.ok (), Frame.head a b c d ++ payload⟩)
      ∧ (Frame.maxSize < payload.size →
        framed reply = ⟨.error (.frame (.tooLarge payload.size)), .empty⟩) := by
  intro payload
  have hencode : Frame.encode reply = payload := rfl
  rw [framed, hencode]
  constructor
  · intro hsize
    have hlt : payload.size < 4294967296 := Nat.lt_of_le_of_lt hsize (by decide)
    obtain ⟨a, b, c, d, hoctets, hvalue⟩ := Frame.exists_head_of_length hlt
    refine ⟨a, b, c, d, hvalue, ?_⟩
    rw [if_pos hsize, hoctets]
  · intro hsize
    rw [if_neg (Nat.not_le.2 hsize)]

theorem written_of_framed {serve : ByteArray → Exchanged × Component} {reply : Message}
    {y : Component} (h : ∀ rest, serve rest = (framed reply, y)) :
    let payload := reply.toJson.render.toUTF8
    (payload.size ≤ Frame.maxSize → ∃ a b c d, Frame.bigEndian a b c d = payload.size
        ∧ ∀ rest, serve rest = (⟨.ok (), Frame.head a b c d ++ payload⟩, y))
      ∧ (Frame.maxSize < payload.size →
        ∀ rest, serve rest = (⟨.error (.frame (.tooLarge payload.size)), .empty⟩, y)) := by
  intro payload
  obtain ⟨hfits, hlarge⟩ := framed_eq reply
  constructor
  · intro hsize
    obtain ⟨a, b, c, d, hvalue, hframed⟩ := hfits hsize
    refine ⟨a, b, c, d, hvalue, ?_⟩
    intro rest
    rw [h, hframed]
  · intro hsize rest
    rw [h, hlarge hsize]

theorem serve_of_read_error (x : Component) (millis : Nat) {e : FrameFault}
    (hread : Frame.read sent = .error e) (he : e = .broken ∨ ∃ n, e = .tooLarge n) :
    x.serve lookup (.sending identity sent) millis = (⟨.error (.frame e), .empty⟩, x) := by
  rw [serve, request_of_read_error hread]
  rcases he with rfl | ⟨n, rfl⟩
  · rfl
  · rfl

/-- A component (`serve`) does nothing on a stream without a frame, or with one that is too large or
cut off. For any other first frame there is one reply, whatever follows the frame: that of the
scheduler to the message in the frame, or else an exception without token that says what is wrong
with the frame, which leaves everything as it is. The peer gets one frame, whose payload is the JSON
text of the reply in UTF-8, or nothing if that is too large. The frames of some bodies are read as
these bodies. -/
theorem one_request_one_reply (x : Component) (lookup : RegistryLookup) (identity : String)
    (millis : Nat) :
    let serve (sent : ByteArray) := x.serve lookup (.sending identity sent) millis
    (∀ sent : ByteArray, sent.size < 4 ∨ ∃ a b c d tail, sent = Frame.head a b c d ++ tail
        ∧ (tail.size < Frame.bigEndian a b c d
          ∨ ∃ body rest, tail = body ++ rest ∧ body.size = Frame.bigEndian a b c d))
      ∧ (∀ sent : ByteArray, sent.size < 4 → serve sent = (⟨.ok (), .empty⟩, x))
      ∧ (∀ a b c d tail, Frame.maxSize < Frame.bigEndian a b c d →
        serve (Frame.head a b c d ++ tail)
          = (⟨.error (.frame (.tooLarge (Frame.bigEndian a b c d))), .empty⟩, x))
      ∧ (∀ a b c d tail, Frame.bigEndian a b c d ≤ Frame.maxSize →
        tail.size < Frame.bigEndian a b c d →
        serve (Frame.head a b c d ++ tail) = (⟨.error (.frame .broken), .empty⟩, x))
      ∧ (∀ a b c d body, Frame.bigEndian a b c d ≤ Frame.maxSize →
        body.size = Frame.bigEndian a b c d →
        ∃ reply y,
          (let payload := reply.toJson.render.toUTF8;
            (payload.size ≤ Frame.maxSize →
              ∃ a' b' c' d', Frame.bigEndian a' b' c' d' = payload.size
              ∧ ∀ rest, serve (Frame.head a b c d ++ (body ++ rest))
                = (⟨.ok (), Frame.head a' b' c' d' ++ payload⟩, y))
            ∧ (Frame.maxSize < payload.size → ∀ rest,
              serve (Frame.head a b c d ++ (body ++ rest))
                = (⟨.error (.frame (.tooLarge payload.size)), .empty⟩, y)))
          ∧ ((∃ s m, String.fromUTF8? body = some s ∧ Message.read lookup s = .ok m
              ∧ reply = (x.scheduler.receive x.now x.now identity m).1
              ∧ y.scheduler = (x.scheduler.receive x.now x.now identity m).2)
            ∨ ((∀ s, String.fromUTF8? body = some s → ∀ m, Message.read lookup s ≠ .ok m)
              ∧ (∃ e, IsFaultOf lookup body e ∧ reply = .exception ⟨none, e.message⟩) ∧ y = x)))
      ∧ ∀ bodies frames, bodies.mapM Frame.write = .ok frames →
        Frame.readAll (Frame.joined frames) = (bodies, .closed) := by
  intro serve
  refine ⟨Frame.size_lt_or_exists_head, ?_, ?_, ?_, ?_, fun bodies frames => Frame.readAll_joined⟩
  · intro sent hshort
    change Component.serve x lookup (.sending identity sent) millis = _
    rw [Component.serve, request_of_read_error (Frame.read_of_size_lt hshort)]
  · intro a b c d tail hlarge
    have hread := Frame.read_head_append a b c d tail
    rw [if_pos hlarge] at hread
    exact serve_of_read_error x millis hread (.inr ⟨_, rfl⟩)
  · intro a b c d tail hmax hcut
    have hread := Frame.read_head_append a b c d tail
    rw [if_neg (Nat.not_lt.2 hmax), if_pos hcut] at hread
    exact serve_of_read_error x millis hread (.inl rfl)
  · intro a b c d body hmax hsize
    -- What follows the body plays no part in what is read.
    have hbody : ∀ rest, Frame.read (Frame.head a b c d ++ (body ++ rest)) = .ok (body, rest) :=
      fun rest => Frame.read_head_body hsize (hsize ▸ hmax) rest
    cases hdecode : Frame.decode lookup body with
    | ok m =>
      have hserve : ∀ rest, serve (Frame.head a b c d ++ (body ++ rest))
          = (framed (x.receive identity m).1, (x.receive identity m).2) := fun rest =>
        serve_of_message x millis (hbody rest) hdecode
      refine ⟨(x.receive identity m).1, (x.receive identity m).2, written_of_framed hserve,
        .inl ?_⟩
      obtain ⟨s, hs, hm⟩ := decode_eq_ok_iff.1 hdecode
      exact ⟨s, m, hs, hm, rfl, x.scheduler_receive identity m⟩
    | error e =>
      have hserve : ∀ rest, serve (Frame.head a b c d ++ (body ++ rest))
          = (framed (.exception ⟨none, e.message⟩), x) := fun rest =>
        serve_of_no_message x millis (hbody rest) hdecode
      refine ⟨.exception ⟨none, e.message⟩, x, written_of_framed hserve, .inr ?_⟩
      refine ⟨?_, ⟨e, isFaultOf_of_decode hdecode, rfl⟩, rfl⟩
      intro s hs m hm
      rw [decode_eq_ok_iff.2 ⟨s, hs, hm⟩] at hdecode
      cases hdecode

/-- A component without services, at the beginning of the first day. -/
def vacant : Component := .make (.empty .everyone) .epoch

/-- The reply to a body that is no text. -/
def noTextReply : String :=
  "\x7b\"exception\":null,\"version\":1,\"message\":\"Invalid UTF-8 in message\"\x7d"

/-- A frame with an octet that is no text is answered with an exception, also if another octet
follows. -/
theorem stray_octet_is_answered :
    let payload := noTextReply.toUTF8
    ∃ a b c d, Frame.bigEndian a b c d = payload.size
      ∧ vacant.serve (fun uri => .error (.unknownRegistry uri))
          (.sending "bob" (Frame.head 0 0 0 1 ++ (⟨#[255]⟩ ++ ⟨#[7]⟩))) 0
        = (⟨.ok (), Frame.head a b c d ++ payload⟩, vacant) := by
  obtain ⟨-, -, -, -, hframe, -⟩ := one_request_one_reply vacant
    (fun uri => .error (.unknownRegistry uri)) "bob" 0
  obtain ⟨reply, y, ⟨hserve, -⟩, hreply⟩ := hframe 0 0 0 1 ⟨#[255]⟩ (by decide) rfl
  have hnone : String.fromUTF8? ⟨#[255]⟩ = none := by decide +kernel
  rcases hreply with ⟨s, m, hs, -⟩ | ⟨-, ⟨e, he, rfl⟩, rfl⟩
  · rw [hnone] at hs
    cases hs
  · rcases he with ⟨-, rfl⟩ | ⟨s, fault, hs, -, -⟩
    · have htext : (Message.exception ⟨none, FrameFault.notText.message⟩).toJson.render
          = noTextReply := by decide +kernel
      rw [htext] at hserve
      obtain ⟨a, b, c, d, hvalue, hsame⟩ := hserve (by decide +kernel)
      exact ⟨a, b, c, d, hvalue, hsame ⟨#[7]⟩⟩
    · rw [hnone] at hs
      cases hs

end Component

end Measurement
