/-
What a policy of roles decides.

A policy is built by calls that give members to a role or roles to a label, in
any order and number. Both tables of the policy only collect, and in the same
way, so one step lemma (`lists_extend`) and one run lemma (`lists_collected`) say
for both that a name has what any of the calls for it gave it.

The decision can therefore be told from the calls alone (`allows_built_iff`).
That a call is among them is all that counts, and not where: so the order of the
calls makes no difference, and calls for a label that has a rule already can only
let more identities in.
-/
import Measurement.Configuration.Basic
import Measurement.Proofs.Table

set_option autoImplicit false

namespace Measurement.RolePolicy

/-! ## 1. Lists under names -/

/-- Whether a table lists an item under a name. -/
def Lists (t : Table (List String)) (name item : String) : Prop :=
  ∃ items, t.get? name = some items ∧ item ∈ items

section

variable {t : Table (List String)} {name other item : String} {more : List String}

theorem get?_extend : (extend t name more).get? other =
    if other = name then some ((t.get? name).getD [] ++ more) else t.get? other :=
  Table.get?_insert t name other _

theorem lists_extend :
    Lists (extend t name more) other item ↔ Lists t other item ∨ (other = name ∧ item ∈ more) := by
  rw [Lists, Lists, get?_extend]
  by_cases hname : other = name
  · subst hname
    cases t.get? other <;> simp
  · simp [hname]

/-- What was there keeps its place, so a name is never lost. -/
theorem get?_extend_eq_none_iff :
    (extend t name more).get? other = none ↔ t.get? other = none ∧ other ≠ name := by
  rw [get?_extend]
  by_cases hname : other = name
  · simp [hname]
  · simp [hname]

/-- A table with more names in several of its lists, one after the other. -/
def collected (t : Table (List String)) (rows : List (String × List String)) :
    Table (List String) :=
  rows.foldl (fun t r => extend t r.1 r.2) t

theorem lists_collected {rows : List (String × List String)} :
    Lists (collected t rows) name item
      ↔ Lists t name item ∨ ∃ items, (name, items) ∈ rows ∧ item ∈ items := by
  -- What the first row adds is in the table that the other rows start with.
  induction rows generalizing t with
  | nil => simp [collected]
  | cons r rows ih =>
    rw [collected, List.foldl_cons, ← collected, ih, lists_extend, or_assoc]
    refine or_congr Iff.rfl ?_
    constructor
    · rintro (⟨rfl, hitem⟩ | ⟨items, hitems, hitem⟩)
      · exact ⟨r.2, List.mem_cons_self, hitem⟩
      · exact ⟨items, List.mem_cons_of_mem r hitems, hitem⟩
    · rintro ⟨items, hitems, hitem⟩
      obtain hhere | hitems := List.mem_cons.1 hitems
      · subst hhere
        exact .inl ⟨rfl, hitem⟩
      · exact .inr ⟨items, hitems, hitem⟩

theorem get?_collected_eq_none_iff {rows : List (String × List String)} :
    (collected t rows).get? name = none
      ↔ t.get? name = none ∧ ∀ items, (name, items) ∉ rows := by
  induction rows generalizing t with
  | nil => simp [collected]
  | cons r rows ih =>
    rw [collected, List.foldl_cons, ← collected, ih, get?_extend_eq_none_iff, and_assoc]
    refine and_congr Iff.rfl ?_
    constructor
    · rintro ⟨hname, hrows⟩ items hitems
      obtain hhere | hitems := List.mem_cons.1 hitems
      · subst hhere
        exact hname rfl
      · exact hrows items hitems
    · intro h
      refine ⟨?_, fun items hitems => h items (List.mem_cons_of_mem r hitems)⟩
      rintro rfl
      exact h r.2 List.mem_cons_self

end

/-! ## 2. Tables of rows -/

/-- The policy whose tables are collected from rows. -/
def ofRows (allowsByDefault : Bool) (members rules : List (String × List String)) : RolePolicy :=
  ⟨allowsByDefault, collected .empty members, collected .empty rules⟩

theorem isMember_iff {p : RolePolicy} {role identity : String} :
    p.isMember role identity = true ↔ Lists p.members role identity := by
  rw [isMember, Lists]
  cases p.members.get? role <;> simp

/-- A policy decides by what its tables list, and by the default only where no rule is. -/
theorem allows_iff {p : RolePolicy} {label identity : String} :
    p.allows label identity = true
      ↔ (∃ role, Lists p.rules label role ∧ Lists p.members role identity)
        ∨ (p.rules.get? label = none ∧ p.allowsByDefault = true) := by
  rw [allows]
  cases hrule : p.rules.get? label with
  | none => simp [Lists, hrule]
  | some roles => simp [Lists, hrule, isMember_iff]

theorem allows_ofRows_iff {allowsByDefault : Bool} {members rules : List (String × List String)}
    {label identity : String} :
    (ofRows allowsByDefault members rules).allows label identity = true
      ↔ (∃ roles, (label, roles) ∈ rules ∧ ∃ role ∈ roles, ∃ identities,
          (role, identities) ∈ members ∧ identity ∈ identities)
        ∨ ((∀ roles, (label, roles) ∉ rules) ∧ allowsByDefault = true) := by
  have hempty : ∀ name item, ¬ Lists Table.empty name item := by
    rintro name item ⟨items, hitems, -⟩
    cases hitems
  rw [allows_iff, ofRows]
  simp only [lists_collected, get?_collected_eq_none_iff, hempty, false_or, Table.get?_empty,
    true_and]
  refine or_congr ?_ Iff.rfl
  constructor
  · rintro ⟨role, ⟨roles, hroles, hrole⟩, hmember⟩
    exact ⟨roles, hroles, role, hrole, hmember⟩
  · rintro ⟨roles, hroles, role, hrole, hmember⟩
    exact ⟨role, ⟨roles, hroles, hrole⟩, hmember⟩

/-! ## 3. Calls -/

/-- A call that builds a policy. -/
inductive Call where
  | addRole (role : String) (identities : List String)
  | restrict (label : String) (roles : List String)
deriving DecidableEq

/-- The policy after a call. -/
def Call.apply (p : RolePolicy) : Call → RolePolicy
  | addRole role identities => p.addRole role identities
  | restrict label roles => p.restrict label roles

/-- The policy that calls build one after the other. -/
def built (allowsByDefault : Bool) (cs : List Call) : RolePolicy :=
  cs.foldl Call.apply (plain allowsByDefault)

/-- What calls give to roles. -/
def memberRows : List Call → List (String × List String)
  | [] => []
  | .addRole role identities :: cs => (role, identities) :: memberRows cs
  | .restrict _ _ :: cs => memberRows cs

/-- What calls give to labels. -/
def ruleRows : List Call → List (String × List String)
  | [] => []
  | .addRole _ _ :: cs => ruleRows cs
  | .restrict label roles :: cs => (label, roles) :: ruleRows cs

theorem mem_memberRows {cs : List Call} {role : String} {identities : List String} :
    (role, identities) ∈ memberRows cs ↔ .addRole role identities ∈ cs := by
  induction cs with
  | nil => simp [memberRows]
  | cons c cs ih => cases c <;> simp [memberRows, ih]

theorem mem_ruleRows {cs : List Call} {label : String} {roles : List String} :
    (label, roles) ∈ ruleRows cs ↔ .restrict label roles ∈ cs := by
  induction cs with
  | nil => simp [ruleRows]
  | cons c cs ih => cases c <;> simp [ruleRows, ih]

/-- However calls of the two kinds are mixed, each table collects those that are for it. -/
theorem built_eq (allowsByDefault : Bool) (cs : List Call) :
    built allowsByDefault cs = ofRows allowsByDefault (memberRows cs) (ruleRows cs) := by
  -- For any policy at the start, since the calls behind the first one start with what it left.
  have hrun : ∀ p : RolePolicy, cs.foldl Call.apply p = ⟨p.allowsByDefault,
      collected p.members (memberRows cs), collected p.rules (ruleRows cs)⟩ := by
    induction cs with
    | nil => exact fun p => rfl
    | cons c cs ih =>
      intro p
      rw [List.foldl_cons, ih]
      cases c <;> rfl
  exact hrun _

theorem allows_built_iff {allowsByDefault : Bool} {cs : List Call} {label identity : String} :
    (built allowsByDefault cs).allows label identity = true
      ↔ (∃ roles, .restrict label roles ∈ cs ∧ ∃ role ∈ roles, ∃ identities,
          .addRole role identities ∈ cs ∧ identity ∈ identities)
        ∨ ((∀ roles, .restrict label roles ∉ cs) ∧ allowsByDefault = true) := by
  rw [built_eq, allows_ofRows_iff]
  simp only [mem_memberRows, mem_ruleRows]

theorem allows_built_congr {allowsByDefault : Bool} {cs ds : List Call}
    (h : ∀ c, c ∈ cs ↔ c ∈ ds) (label identity : String) :
    (built allowsByDefault cs).allows label identity
      = (built allowsByDefault ds).allows label identity := by
  rw [Bool.eq_iff_iff, allows_built_iff, allows_built_iff]
  simp only [h]

/-- More calls take nothing away where there is a rule. -/
theorem allows_built_mono {allowsByDefault : Bool} {cs ds : List Call} (h : cs ⊆ ds)
    {label identity : String} (hrule : ∃ roles, Call.restrict label roles ∈ cs)
    (hallows : (built allowsByDefault cs).allows label identity = true) :
    (built allowsByDefault ds).allows label identity = true := by
  rw [allows_built_iff] at hallows ⊢
  obtain ⟨roles, hroles, role, hrole, identities, hidentities, hidentity⟩ | ⟨hnone, -⟩ := hallows
  · exact .inl ⟨roles, h hroles, role, hrole, identities, h hidentities, hidentity⟩
  · -- Where a rule is, nothing is allowed by default.
    obtain ⟨roles, hroles⟩ := hrule
    exact absurd hroles (hnone roles)

/-- The calls that a section on authorization stands for. -/
def sectionCalls (a : Authorization) : List Call :=
  a.roles.map (fun r => .addRole r.1 r.2) ++ a.capabilities.map fun r => .restrict r.1 r.2

theorem policy_eq_built (a : Authorization) :
    a.policy = built a.allowsByDefault (sectionCalls a) := by
  rw [built, sectionCalls, List.foldl_append, List.foldl_map, List.foldl_map]
  rfl

/-! ## 4. Decisions -/

/-- The policy that calls build allows what they say: a label that some of them name is for the
members of the roles that they list for it, any other label is as the default has it. So neither
order nor repetition of the calls counts, further calls take nothing away where a label has a rule,
and a label for which no roles are listed is for nobody. The policy of a section on authorization
allows what the section says. -/
theorem policy_decides_by_tables (allowsByDefault : Bool) (cs : List Call) :
    (∀ label identity, (built allowsByDefault cs).allows label identity = true
        ↔ (∃ roles, .restrict label roles ∈ cs ∧ ∃ role ∈ roles, ∃ identities,
            .addRole role identities ∈ cs ∧ identity ∈ identities)
          ∨ ((∀ roles, .restrict label roles ∉ cs) ∧ allowsByDefault = true))
      ∧ (∀ ds, (∀ c, c ∈ cs ↔ c ∈ ds) → ∀ label identity,
        (built allowsByDefault cs).allows label identity
          = (built allowsByDefault ds).allows label identity)
      ∧ (∀ label, (∃ roles, .restrict label roles ∈ cs) → ∀ ds, cs ⊆ ds → ∀ identity,
        (built allowsByDefault cs).allows label identity = true →
          (built allowsByDefault ds).allows label identity = true)
      ∧ (∀ label, .restrict label [] ∈ cs → (∀ roles, .restrict label roles ∈ cs → roles = []) →
        ∀ identity, (built allowsByDefault cs).allows label identity = false)
      ∧ ∀ (a : Authorization) (label identity : String),
        a.policy.allows label identity = true
          ↔ (∃ roles, (label, roles) ∈ a.capabilities ∧ ∃ role ∈ roles, ∃ identities,
              (role, identities) ∈ a.roles ∧ identity ∈ identities)
            ∨ ((∀ roles, (label, roles) ∉ a.capabilities) ∧ a.allowsByDefault = true) := by
  refine ⟨fun label identity => allows_built_iff, fun ds h => allows_built_congr h, ?_, ?_, ?_⟩
  · intro label hrule ds hsub identity
    exact allows_built_mono hsub hrule
  · intro label hlabel hempty identity
    rw [← Bool.not_eq_true, allows_built_iff]
    rintro (⟨roles, hroles, role, hrole, -⟩ | ⟨hnone, -⟩)
    · rw [hempty roles hroles] at hrole
      exact absurd hrole List.not_mem_nil
    · exact absurd hlabel (hnone [])
  · intro a label identity
    rw [policy_eq_built, allows_built_iff]
    simp [sectionCalls]

end Measurement.RolePolicy
