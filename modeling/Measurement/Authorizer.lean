/-
Who may use which capability.

A scheduler leaves that to an authorizer, which may be any function of the label
of the capability and of the identity (`Authorizer::authorize`). The one that
comes with it is a policy of roles (`RoleAuthorizer`). Identities belong to roles,
  and a rule names the roles that may use the
capability with a label. Adding members to a role or roles to a rule only adds
to what is there. A label without a rule falls back to the default decision; a
rule without roles lets nobody in.
-/
import Measurement.Table

set_option autoImplicit false

namespace Measurement

/-- A policy of roles (`RoleAuthorizer`). -/
structure RolePolicy where
  /-- The decision for labels without a rule. -/
  allowsByDefault : Bool
  /-- The members of each role. -/
  members : Table (List String)
  /-- The roles that may use the capability with a label. -/
  rules : Table (List String)
deriving DecidableEq

namespace RolePolicy

/-- The policy without roles and rules. -/
def plain (allowsByDefault : Bool) : RolePolicy := ⟨allowsByDefault, .empty, .empty⟩

/-- A table with more names in one of its lists. -/
def extend (t : Table (List String)) (name : String) (more : List String) :
    Table (List String) :=
  t.insert name ((t.get? name).getD [] ++ more)

/-- The policy with more members in a role (`add_role`). -/
def addRole (p : RolePolicy) (role : String) (identities : List String) : RolePolicy :=
  { p with members := extend p.members role identities }

/-- The policy with more roles in the rule for a label (`restrict`). -/
def restrict (p : RolePolicy) (label : String) (roles : List String) : RolePolicy :=
  { p with rules := extend p.rules label roles }

/-- Whether an identity belongs to a role. -/
def isMember (p : RolePolicy) (role identity : String) : Bool :=
  match p.members.get? role with
  | some identities => identities.contains identity
  | none => false

/-- Whether an identity may use the capability with a label (`RoleAuthorizer::authorize`). -/
def allows (p : RolePolicy) (label identity : String) : Bool :=
  match p.rules.get? label with
  | some roles => roles.any fun role => p.isMember role identity
  | none => p.allowsByDefault

end RolePolicy

/-- What decides who may use which capability: any function of label and identity. -/
structure Authorizer where
  /-- Whether an identity may use the capability with a label. -/
  allows : String → String → Bool

namespace Authorizer

/-- Everyone may use everything (`AllowAll`). -/
def everyone : Authorizer := ⟨fun _ _ => true⟩

/-- A policy of roles decides. -/
def roles (policy : RolePolicy) : Authorizer := ⟨policy.allows⟩

/-- One answer for all (`FakeAuthorizer`). -/
def fixed (answer : Bool) : Authorizer := ⟨fun _ _ => answer⟩

end Authorizer

end Measurement
