/-
Exchanges: one request and one reply on a pair of streams.

A component reads one frame from its peer and answers it (`serve`). A request
that is no message is answered with an exception; a frame that is cut off, too
large or late is not answered at all. Whatever follows the first frame is left
unread. While the component waits for its peer, time passes.
-/
import Measurement.Component.Basic
import Measurement.Frame

set_option autoImplicit false

namespace Measurement

/-- How a peer takes what is written to it. -/
inductive Intake where
  /-- It reads everything. -/
  | everything
  /-- It has room for so many octets and reads nothing. -/
  | room (octets : Nat)
  /-- It has closed its end. -/
  | closed
deriving DecidableEq

/-- The other side of an exchange. -/
structure Peer where
  identity : String
  /-- What the peer sends. -/
  sent : ByteArray
  /-- Whether the peer stays silent after that instead of closing its end. -/
  holds : Bool
  intake : Intake

/-- Why an exchange was broken off (`ServerError`). -/
inductive ExchangeFault where
  /-- The request did not arrive in time. -/
  | timeout
  /-- The streams or the frames on them are at fault. -/
  | frame (fault : FrameFault)
deriving DecidableEq

/-- The wording of a fault of an exchange. -/
def ExchangeFault.message : ExchangeFault → String
  | timeout => "Request timeout"
  | frame fault => "Protocol error: " ++ fault.message

/-- How an exchange went, and what the peer got. -/
structure Exchanged where
  outcome : Except ExchangeFault Unit
  written : ByteArray

namespace Component

/-- What the frame at the head of a stream holds (`read_request`). A stream that is held open is
late where one that ends is cut off. -/
def request (lookup : RegistryLookup) (p : Peer) : Except FrameFault Message :=
  match Frame.read p.sent with
  | .ok (body, _) => Frame.decode lookup body
  -- More could still come from a peer that holds its end open.
  | .error e => .error (if p.holds && (e == .closed || e == .broken) then .timeout else e)

/-- Writes a reply to a peer (`write_reply`). -/
def answer [Timers] (x : Component) (p : Peer) (millis : Nat) (m : Message) :
    Exchanged × Component :=
  match Frame.write (Frame.encode m) with
  | .error e => (⟨.error (.frame e), .empty⟩, x)
  | .ok frame =>
    match p.intake with
    | .everything => (⟨.ok (), frame⟩, x)
    | .closed => (⟨.error (.frame .broken), .empty⟩, x)
    | .room octets =>
      if frame.size ≤ octets then (⟨.ok (), frame⟩, x)
      -- What there was room for has been written.
      else (⟨.error (.frame .timeout), frame.extract 0 octets⟩, x.advance millis)

/-- Reads one request and answers it, waiting for the peer no longer than some milliseconds at a
time (`serve`). -/
def serve [Timers] (x : Component) (lookup : RegistryLookup) (p : Peer) (millis : Nat) :
    Exchanged × Component :=
  match request lookup p with
  | .ok m =>
    let (reply, x) := x.receive p.identity m
    x.answer p millis reply
  | .error .timeout => (⟨.error .timeout, .empty⟩, x.advance millis)
  | .error .closed => (⟨.ok (), .empty⟩, x)
  | .error .notText => x.answer p millis (.exception ⟨none, FrameFault.notText.message⟩)
  | .error (.invalid e) => x.answer p millis (.exception ⟨none, (FrameFault.invalid e).message⟩)
  | .error e => (⟨.error (.frame e), .empty⟩, x)

end Component

end Measurement
