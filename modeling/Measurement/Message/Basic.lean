/-
Messages: everything that a client and a component say to each other.

A client submits a specification and gets a receipt; with the token of the
receipt it redeems what the component now has for it, or interrupts the
measurement. A component announces capabilities and withdraws them, reports
results and exceptions, and puts several messages into an envelope.
-/
import Measurement.Statement.Kinds

set_option autoImplicit false

namespace Measurement

/-! ## 1. Notifications -/

/-- A request for what a component now has for a receipt. -/
structure Redemption where
  verb : String
  token : String
deriving DecidableEq

/-- A request to stop a measurement early. -/
structure Interrupt where
  verb : String
  token : String
deriving DecidableEq

/-- Accepted, not finished yet: a copy of the specification. -/
structure Receipt where
  statement : Statement
deriving DecidableEq

namespace Receipt

/-- The receipt for a specification, with its token. -/
def ofSpecification (s : Specification) : Receipt := ⟨s.statement.withToken s.token⟩

/-- The token of a receipt. -/
def token (r : Receipt) : String := r.statement.token

/-- The verb of a receipt. -/
def verb (r : Receipt) : String := r.statement.verb

/-- The request for what a component now has for the receipt. -/
def redemption (r : Receipt) : Redemption := ⟨r.verb, r.token⟩

/-- The request to stop the measurement. -/
def interrupt (r : Receipt) : Interrupt := ⟨r.verb, r.token⟩

end Receipt

/-- A capability is no longer offered. -/
structure Withdrawal where
  statement : Statement
deriving DecidableEq

namespace Withdrawal

/-- The withdrawal of a capability, with its token. -/
def ofCapability (c : Capability) : Withdrawal := ⟨c.statement.withToken c.token⟩

/-- The token of a withdrawal. -/
def token (w : Withdrawal) : String := w.statement.token

end Withdrawal

/-- A report of a failure, perhaps about the bearer of a token. -/
structure Exception where
  token : Option String
  message : String
deriving DecidableEq

/-- The text of an exception. -/
def Exception.text (e : Exception) : String :=
  match e.token with
  | some token => token ++ ": " ++ e.message
  | none => e.message

/-- What an envelope carries. -/
inductive EnvelopeKind where
  | message
  | statement
  | notification
deriving DecidableEq

namespace EnvelopeKind

/-- The name of a kind of envelope. -/
def name : EnvelopeKind → String
  | message => "message"
  | statement => "statement"
  | notification => "notification"

/-- The kind of envelope with a name (`EnvelopeKind::from_name`). -/
def ofName? (s : String) : Option EnvelopeKind :=
  [message, statement, notification].find? fun k => k.name == s

@[simp] theorem ofName?_name (k : EnvelopeKind) : ofName? k.name = some k := by
  cases k <;> decide

end EnvelopeKind

/-! ## 2. Messages -/

/-- The kinds of messages. -/
inductive MessageKind where
  | capability
  | specification
  | result
  | receipt
  | redemption
  | withdrawal
  | interrupt
  | exception
  | envelope
deriving DecidableEq

namespace MessageKind

/-- All kinds, in the order in which a message is searched for them. -/
def all : List MessageKind :=
  [capability, specification, result, receipt, redemption, withdrawal, interrupt, exception,
    envelope]

/-- The name of a kind of message. -/
def name : MessageKind → String
  | capability => "capability"
  | specification => "specification"
  | result => "result"
  | receipt => "receipt"
  | redemption => "redemption"
  | withdrawal => "withdrawal"
  | interrupt => "interrupt"
  | exception => "exception"
  | envelope => "envelope"

end MessageKind

/-- A message. -/
inductive Message where
  | capability (c : Capability)
  | specification (s : Specification)
  | result (r : Result)
  | receipt (r : Receipt)
  | redemption (r : Redemption)
  | withdrawal (w : Withdrawal)
  | interrupt (i : Interrupt)
  | exception (e : Exception)
  | envelope (kind : EnvelopeKind) (contents : List Message)

instance : Inhabited Message := ⟨.exception ⟨none, ""⟩⟩

namespace Message

/-- The kind of a message. -/
def kind : Message → MessageKind
  | capability _ => .capability
  | specification _ => .specification
  | result _ => .result
  | receipt _ => .receipt
  | redemption _ => .redemption
  | withdrawal _ => .withdrawal
  | interrupt _ => .interrupt
  | exception _ => .exception
  | envelope _ _ => .envelope

/-- The token of a message (`Message::token`). Envelopes have none, and exceptions may have one. -/
def token? : Message → Option String
  | capability c => some c.token
  | specification s => some s.token
  | result r => some r.token
  | receipt r => some r.token
  | redemption r => some r.token
  | withdrawal w => some w.token
  | interrupt i => some i.token
  | exception e => e.token
  | envelope _ _ => none

/-- The statement in a message. -/
def statement? : Message → Option Statement
  | capability c => some c.statement
  | specification s => some s.statement
  | result r => some r.statement
  | receipt r => some r.statement
  | withdrawal w => some w.statement
  | redemption _ | interrupt _ | exception _ | envelope _ _ => none

mutual

/-- Whether two messages say the same. -/
def same : Message → Message → Bool
  | capability c, capability d => c.statement.same d.statement
  | specification s, specification t => s.statement.same t.statement
  | result r, result s => r.statement.same s.statement
  | receipt r, receipt s => r.statement.same s.statement
  | redemption r, redemption s => decide (r = s)
  | withdrawal w, withdrawal v => w.statement.same v.statement
  | interrupt i, interrupt j => decide (i = j)
  | exception e, exception f => decide (e = f)
  | envelope k ms, envelope l ns => decide (k = l) && sameAll ms ns
  | _, _ => false

/-- Whether two lists of messages say the same, one by one. -/
def sameAll : List Message → List Message → Bool
  | [], [] => true
  | m :: ms, n :: ns => same m n && sameAll ms ns
  | _, _ => false

end

end Message

end Measurement
