/-
The configuration of a component.

It says where the component keeps its files, which registry its own services
use, who may use which capability, and which services it runs. Every part may
be left out. A name that is not known is an error wherever the names are fixed.

A section is a table, or the array of its values in order; values at the end of
the array may be left out where they have a default.
-/
import Measurement.Authorizer
import Measurement.Configuration.Timeout
import Measurement.Registry.Core
import Measurement.Service.Basic
import Measurement.Toml.Document

set_option autoImplicit false

namespace Measurement

/-! ## 1. What a configuration says -/

/-- The services that a component can run by itself (`ServiceKind`). -/
inductive ServiceKind where
  | clock
  | tick
deriving DecidableEq

/-- The name of a kind of service. -/
def ServiceKind.name : ServiceKind → String
  | clock => "clock"
  | tick => "tick"

/-- A service to run (`ServiceConfig`). -/
structure ServiceChoice where
  kind : ServiceKind
  /-- The label of its capability, if it is not the name of its kind. -/
  label : Option String
deriving DecidableEq

/-- Where a component keeps its files, and how long it waits for a client (`ComponentConfig`). -/
structure Housing where
  /-- The folder of the files. -/
  folder : String
  socket : String
  log : String
  timeout : Span
deriving DecidableEq

/-- The registry that a component's own services use (`RegistryConfig`). -/
structure RegistryChoice where
  uri : String
  /-- A file with a document to load at the start. -/
  file : Option String
deriving DecidableEq

/-- Who may use which capability (`AuthorizationConfig`). -/
structure Authorization where
  /-- Whether a capability without a rule may be used by everyone. -/
  allowsByDefault : Bool
  /-- The members of each role. -/
  roles : List (String × List String)
  /-- The roles that may use the capability with a label. -/
  capabilities : List (String × List String)
deriving DecidableEq

/-- The configuration of a component (`Config`). -/
structure Configuration where
  housing : Housing
  registry : RegistryChoice
  authorization : Authorization
  services : List ServiceChoice
deriving DecidableEq

/-- The housing where nothing is said about it. -/
def Housing.usual : Housing := ⟨".", "mplane.sock", "mplaned.log", .ofSeconds 30⟩

/-- The registry where nothing is said about it. -/
def RegistryChoice.usual : RegistryChoice := ⟨Registry.coreUri, none⟩

/-- The authorization where nothing is said about it. -/
def Authorization.usual : Authorization := ⟨true, [], []⟩

/-! ## 2. Parts of a document -/

namespace Configuration

open Toml

/-- A text. -/
def text? : Node → Option String
  | .text s => some s
  | _ => none

/-- The items of an array. -/
def items? : Node → Option (List Node)
  | .array items => some items
  | .tables items => some (items.map (.table .header))
  | _ => none

/-- A list of parts of one kind. -/
def list? {α : Type} (part? : Node → Option α) (v : Node) : Option (List α) :=
  (items? v).bind fun items => items.mapM part?

/-- The entries of a table whose names are free. -/
def entries? {α : Type} (part? : Node → Option α) : Node → Option (List (String × α))
  | .table _ es => es.mapM fun e => (part? e.2).map fun a => (e.1, a)
  | _ => none

/-- Whether a value holds nothing. -/
def holdsNothing : Node → Bool
  | .array items => items.isEmpty
  | .tables items => items.isEmpty
  | .table _ es => es.isEmpty
  | .text _ | .scalar => false

/-- A name out of a few: a text, or a table whose only entry has that name and holds nothing. -/
def choice? {α : Type} (names : List (String × α)) : Node → Option α
  | .text s => entryUnder? s names
  | .table _ [(name, v)] => if holdsNothing v then entryUnder? name names else none
  | _ => none

/-- A section: a table with known names, or the array of its values. -/
inductive Section where
  | named (es : Entries)
  | listed (items : List Node)

/-- The section that a value holds; none if it has a name that is not known. -/
def section? (names : List String) : Node → Option Section
  | .table _ es => if es.all fun e => names.contains e.1 then some (.named es) else none
  | .array items => some (.listed items)
  | .tables items => some (.listed (items.map (.table .header)))
  | .text _ | .scalar => none

/-- The value of a section under a name, or at a place. What stands for a value that is left out
depends on the form of the section. -/
def Section.get? {α : Type} (s : Section) (name : String) (place : Nat)
    (part? : Node → Option α) (unnamed unlisted : Option α) : Option α :=
  match s with
  | .named es => (entryUnder? name es).elim unnamed part?
  | .listed items => (items[place]?).elim unlisted part?

/-- The value of a section under a name, or at a place, with a default. -/
def Section.getOr {α : Type} (s : Section) (name : String) (place : Nat)
    (part? : Node → Option α) (usual : α) : Option α :=
  s.get? name place part? (some usual) (some usual)

/-! ## 3. Sections -/

/-- A length of time. -/
def timeout? (v : Node) : Option Span := (text? v).bind Timeout.read?

/-- The section on the housing. -/
def housing? (v : Node) : Option Housing := do
  let s ← section? ["state_dir", "socket", "log", "request_timeout"] v
  let folder ← s.getOr "state_dir" 0 text? Housing.usual.folder
  let socket ← s.getOr "socket" 1 text? Housing.usual.socket
  let log ← s.getOr "log" 2 text? Housing.usual.log
  let timeout ← s.getOr "request_timeout" 3 timeout? Housing.usual.timeout
  some ⟨folder, socket, log, timeout⟩

/-- The section on the registry. -/
def registry? (v : Node) : Option RegistryChoice := do
  let s ← section? ["uri", "file"] v
  let uri ← s.getOr "uri" 0 text? RegistryChoice.usual.uri
  let file ← s.getOr "file" 1 (fun v => (text? v).map some) RegistryChoice.usual.file
  some ⟨uri, file⟩

/-- The section on authorization. -/
def authorization? (v : Node) : Option Authorization := do
  let s ← section? ["default", "roles", "capabilities"] v
  let allows ← s.getOr "default" 0 (choice? [("allow", true), ("deny", false)])
    Authorization.usual.allowsByDefault
  let roles ← s.getOr "roles" 1 (entries? (list? text?)) []
  let capabilities ← s.getOr "capabilities" 2 (entries? (list? text?)) []
  some ⟨allows, roles, capabilities⟩

/-- A section on a service, which has to name its kind. -/
def service? (v : Node) : Option ServiceChoice := do
  let s ← section? ["kind", "label"] v
  let kind ← s.get? "kind" 0
    (choice? [(ServiceKind.clock.name, .clock), (ServiceKind.tick.name, .tick)]) none none
  let label ← s.get? "label" 1 (fun v => (text? v).map some) (some none) none
  some ⟨kind, label⟩

/-- The configuration that a document says. -/
def ofEntries? (es : Entries) : Option Configuration := do
  let s ← section? ["component", "registry", "authorization", "service"] (.table .header es)
  let housing ← s.getOr "component" 0 housing? .usual
  let registry ← s.getOr "registry" 1 registry? .usual
  let authorization ← s.getOr "authorization" 2 authorization? .usual
  let services ← s.getOr "service" 3 (list? service?) []
  some ⟨housing, registry, authorization, services⟩

/-- The configuration that a text says (`Config::parse`). -/
def read? (s : String) : Option Configuration := (Toml.read? s).bind ofEntries?

/-! ## 4. What follows from it -/

/-- A path as seen from a folder (`in_state_dir`); an absolute one stays as it is. -/
def joined (folder path : String) : String :=
  if path.toList.head? = some '/' then path
  else if folder.isEmpty || folder.toList.getLast? = some '/' then folder ++ path
  else folder ++ "/" ++ path

/-- The path of the socket. -/
def socketPath (c : Configuration) : String := joined c.housing.folder c.housing.socket

/-- The path of the log. -/
def logPath (c : Configuration) : String := joined c.housing.folder c.housing.log

/-- The path of the lock, which keeps a second component out. -/
def lockPath (c : Configuration) : String := joined c.housing.folder "mplaned.pid"

end Configuration

/-- The policy that a section on authorization describes (`AuthorizationConfig::authorizer`). -/
def Authorization.policy (a : Authorization) : RolePolicy :=
  let withRoles := a.roles.foldl (fun p r => p.addRole r.1 r.2) (.plain a.allowsByDefault)
  a.capabilities.foldl (fun p r => p.restrict r.1 r.2) withRoles

/-- The capability of a service that a component runs by itself (`services::build`). -/
def ServiceChoice.capability (c : ServiceChoice) (r : Registry) : Except ReadFault Capability :=
  let label := c.label.getD c.kind.name
  match c.kind with
  | .clock => Service.clockCapability r label
  | .tick => Service.tickCapability r label

end Measurement
