/-
What is made from a capability, and which schema and token it has.

A capability is specified or withdrawn, a specification is given its values and
a scope, its token is renewed, and it gets a receipt and a result; the receipt
is redeemed or interrupted (`Derives`). Whatever comes of a capability in any
number of such steps has its schema, for none of them adds or removes a part.

A receipt, a result and a withdrawal are given the token of what they are made
from, and no step after that changes it (`Bears`). So what a receipt is redeemed
with is the token that the specification had when the receipt was made.
-/
import Measurement.Proofs.Statement.Alike
import Measurement.Proofs.Statement.Settled
import Mathlib.Logic.Relation

set_option autoImplicit false

namespace Measurement

namespace Statement

/-! ## 1. Operations that keep the schema -/

/-- Whether an operation gives a parameter a value, or takes it away, or sets the scope. -/
def Operation.isEdit : Operation → Bool
  | setParameter _ _ | setParameterText _ _ | setScope _ => true
  | _ => false

variable {s t : Statement}

theorem sameSchema_of_names (hregistry : s.registry = t.registry)
    (hparameters : s.parameters.names = t.parameters.names)
    (hcolumns : s.columns.names = t.columns.names) : s.SameSchema t :=
  ⟨congrArg Registry.uri hregistry, .of_eq hparameters, .of_eq hcolumns⟩

/-- Another parameter under a name that is there changes no name. -/
theorem sameSchema_insert_parameter {name : String} {p : Parameter} (q : Parameter)
    (h : s.parameters.get? name = some p) :
    SameSchema { s with parameters := s.parameters.insert name q } s := by
  have hnames : (s.parameters.insert name q).names = s.parameters.names := by
    rw [Table.names_insert, if_pos (Table.mem_names_iff.2 ⟨p, h⟩)]
  exact sameSchema_of_names rfl hnames rfl

/-- Values and scopes are no part of the schema, and setting them leaves the token as it was
given. -/
theorem sameSchema_of_isEdit {o : Operation} (h : o.isEdit = true) (s : Statement) :
    (o.apply s).SameSchema s ∧ (o.apply s).givenToken = s.givenToken := by
  have hs : s.SameSchema s ∧ s.givenToken = s.givenToken := ⟨sameSchema_of_names rfl rfl rfl, rfl⟩
  cases o with
  | setScope scope => exact ⟨sameSchema_of_names rfl rfl rfl, rfl⟩
  | setParameter name v =>
    refine orKeep_preserves (p := fun t => t.SameSchema s ∧ t.givenToken = s.givenToken) hs ?_
    intro t ht
    obtain ⟨p, q, hp, -, rfl⟩ := setParameter_eq_ok_iff.1 ht
    exact ⟨sameSchema_insert_parameter q hp, rfl⟩
  | setParameterText name text =>
    refine orKeep_preserves (p := fun t => t.SameSchema s ∧ t.givenToken = s.givenToken) hs ?_
    intro t ht
    obtain ⟨p, q, hp, -, rfl⟩ := setParameterText_eq_ok_iff.1 ht
    exact ⟨sameSchema_insert_parameter q hp, rfl⟩
  | _ => cases h

end Statement

namespace Message

open Statement

/-! ## 2. Messages that are made from others -/

/-- Whether a message is made from another in one step. What is attempted and fails leaves the
message as it was. -/
inductive Derives : Message → Message → Prop where
  | editCapability (c : Capability) {o : Operation} : o.isEdit = true →
    Derives (.capability c) (.capability ⟨o.apply c.statement⟩)
  | editSpecification (s : Specification) {o : Operation} : o.isEdit = true →
    Derives (.specification s) (.specification ⟨o.apply s.statement⟩)
  | editResult (r : Result) {o : Operation} : o.isEdit = true →
    Derives (.result r) (.result ⟨o.apply r.statement⟩)
  | specify (c : Capability) : Derives (.capability c) (.specification (.ofCapability c))
  | withdraw (c : Capability) : Derives (.capability c) (.withdrawal (.ofCapability c))
  | retoken (s : Specification) (t : Instant) :
    Derives (.specification s) (.specification (s.retoken t))
  | forOccurrence (s : Specification) (occurrence : Scope) :
    Derives (.specification s) (.specification (s.forOccurrence occurrence))
  | receive (s : Specification) : Derives (.specification s) (.receipt (.ofSpecification s))
  | report (s : Specification) : Derives (.specification s) (.result (.ofSpecification s))
  | redeem (r : Receipt) : Derives (.receipt r) (.redemption r.redemption)
  | interrupt (r : Receipt) : Derives (.receipt r) (.interrupt r.interrupt)

/-- Whether a message is made from another in any number of steps. -/
def ComesOf (n m : Message) : Prop := Relation.ReflTransGen Derives m n

variable {m n : Message}

/-- What is made from a message in one step has its schema. -/
theorem sameSchema_of_derives (h : Derives m n) :
    ∃ s, m.statement? = some s ∧ ∀ t ∈ n.statement?, t.SameSchema s := by
  cases h with
  | editCapability c ho | editSpecification c ho | editResult c ho =>
    refine ⟨c.statement, rfl, fun t ht => ?_⟩
    cases ht
    exact (sameSchema_of_isEdit ho _).1
  | specify s | report s =>
    refine ⟨s.statement, rfl, fun t ht => ?_⟩
    cases ht
    refine sameSchema_of_names rfl ?_ ?_
    · simp [Specification.ofCapability, Result.ofSpecification, clearParameters, fillParameters,
        freeParameters, clearRows, withToken]
    · simp [Specification.ofCapability, Result.ofSpecification, clearParameters, fillParameters,
        freeParameters, clearRows, withToken]
  | withdraw s | retoken s t | forOccurrence s scope | receive s =>
    refine ⟨s.statement, rfl, fun t ht => ?_⟩
    cases ht
    exact sameSchema_of_names rfl rfl rfl
  | redeem r | interrupt r =>
    refine ⟨r.statement, rfl, fun t ht => ?_⟩
    cases ht

/-- Whatever comes of a message has its schema. -/
theorem schemaDigest_of_comesOf (h : n.ComesOf m) {s t : Statement}
    (hs : m.statement? = some s) (ht : n.statement? = some t) :
    t.schemaDigest = s.schemaDigest := by
  induction h generalizing t with
  | refl =>
    rw [hs] at ht
    cases ht
    rfl
  | tail _ hstep ih =>
    obtain ⟨u, hu, hsame⟩ := sameSchema_of_derives hstep
    rw [← ih hu, schemaDigest, schemaDigest, (hsame t ht).schemaLines_eq]

/-! ## 3. Tokens -/

/-- Whether a message that is made from a specification or a capability was given a token. -/
def Bears (token : String) : Message → Prop
  | result r => r.statement.givenToken = some token
  | receipt r => r.statement.givenToken = some token
  | withdrawal w => w.statement.givenToken = some token
  | redemption r => r.token = token
  | interrupt i => i.token = token
  | _ => False

theorem token?_of_bears {token : String} (h : m.Bears token) : m.token? = some token := by
  cases m with
  | result r | receipt r | withdrawal r => exact congrArg some (token_of_given h)
  | redemption r | interrupt r => exact congrArg some h
  | _ => exact h.elim

/-- A token that was given stays through every step. -/
theorem bears_of_derives {token : String} (h : Derives m n) (hm : m.Bears token) :
    n.Bears token := by
  cases h with
  | editResult r ho => exact (sameSchema_of_isEdit ho _).2.trans hm
  | redeem r | interrupt r => exact token_of_given hm
  | _ => exact hm.elim

theorem token?_of_comesOf {token : String} (h : n.ComesOf m) (hm : m.Bears token) :
    n.token? = some token := by
  refine token?_of_bears ?_
  induction h with
  | refl => exact hm
  | tail _ hstep ih => exact bears_of_derives hstep ih

/-! ## 4. What comes of a capability -/

/-- Whether a message comes of a receipt or a result of a specification. -/
def Answers (m : Message) (s : Specification) : Prop :=
  m.ComesOf (.receipt (.ofSpecification s)) ∨ m.ComesOf (.result (.ofSpecification s))

theorem token?_of_answers {s : Specification} (h : m.Answers s) : m.token? = some s.token := by
  obtain h | h := h
  · exact token?_of_comesOf h rfl
  · exact token?_of_comesOf h rfl

theorem Answers.step {s : Specification} (h : m.Answers s) (hstep : Derives m n) : n.Answers s :=
  h.imp (·.tail hstep) (·.tail hstep)

/-- Whatever comes of a capability is a capability or a specification, or answers a specification
that comes of it, or withdraws a capability that does. -/
theorem cases_of_comesOf {c : Capability} (h : m.ComesOf (.capability c)) :
    m.kind = .capability ∨ m.kind = .specification
      ∨ (∃ s, (specification s).ComesOf (.capability c) ∧ m.Answers s)
      ∨ ∃ d, (capability d).ComesOf (.capability c) ∧ m = .withdrawal (.ofCapability d) := by
  induction h with
  | refl => exact .inl rfl
  | @tail m n hm hstep ih =>
    -- A result or a receipt answers a specification already, and what is made from it still does.
    have hanswered (hkind : m.kind = .result ∨ m.kind = .receipt) :
        ∃ s, (specification s).ComesOf (.capability c) ∧ n.Answers s := by
      obtain h | h | ⟨s, hs, hanswers⟩ | ⟨d, -, rfl⟩ := ih
      · rw [h] at hkind
        cases hkind <;> contradiction
      · rw [h] at hkind
        cases hkind <;> contradiction
      · exact ⟨s, hs, hanswers.step hstep⟩
      · cases hkind <;> contradiction
    cases hstep with
    | editCapability => exact .inl rfl
    | editSpecification | specify | retoken | forOccurrence => exact .inr (.inl rfl)
    | withdraw d => exact .inr (.inr (.inr ⟨d, hm, rfl⟩))
    | receive s => exact .inr (.inr (.inl ⟨s, hm, .inl .refl⟩))
    | report s => exact .inr (.inr (.inl ⟨s, hm, .inr .refl⟩))
    | editResult => exact .inr (.inr (.inl (hanswered (.inl rfl))))
    | redeem | interrupt => exact .inr (.inr (.inl (hanswered (.inr rfl))))

/-- The identity of a request follows it. Statements of one verb and registry to which the same
parts are added in any two orders, each under a name of its own, with labels, links, tokens, scopes
and exports set anywhere in between, have one schema, and one content if they come to have one scope
and one export; this stays so whatever is done to both of them after. Whatever comes of a capability
has its schema, and is a capability or a specification, or answers a specification and has its
token, or withdraws a capability and has its token; and all that answers a specification has its
token. -/
theorem identity_follows_the_request :
    (∀ (verb : String) (r : Registry) (os ps qs : List Operation),
      (∀ o ∈ os ++ ps, o.adds.isSome = true ∨ o.isHead = true) →
      (os.filter fun o => o.adds.isSome).Perm (ps.filter fun o => o.adds.isSome) →
      (os.filterMap Operation.adds).Nodup →
      ∀ s t : Statement, s = (make verb r).run (os ++ qs) → t = (make verb r).run (ps ++ qs) →
        s.schemaDigest = t.schemaDigest
          ∧ (s.scope = t.scope → s.exportUri = t.exportUri → s.contentDigest = t.contentDigest))
    ∧ (∀ (c : Capability) (m : Message), m.ComesOf (.capability c) →
      (∀ s ∈ m.statement?, s.schemaDigest = c.statement.schemaDigest)
        ∧ (m.kind = .capability ∨ m.kind = .specification
          ∨ (∃ s, (specification s).ComesOf (.capability c) ∧ m.Answers s
            ∧ m.token? = some s.token)
          ∨ ∃ d, (capability d).ComesOf (.capability c) ∧ m = .withdrawal (.ofCapability d)
            ∧ m.token? = some d.token))
    ∧ ∀ (s : Specification) (m : Message), m.Answers s → m.token? = some s.token := by
  refine ⟨?_, ?_, fun s m => token?_of_answers⟩
  · rintro verb r os ps qs hbuilds hperm hnames s t rfl rfl
    rw [List.forall_mem_append] at hbuilds
    have halike := (alike_run_additions (make verb r) hbuilds.1 hbuilds.2 hperm hnames).run qs
    rw [run_append, run_append]
    exact ⟨halike.schemaDigest_eq, halike.contentDigest_eq⟩
  · intro c m hm
    refine ⟨fun s hs => schemaDigest_of_comesOf hm rfl hs, ?_⟩
    obtain h | h | ⟨s, hs, hanswers⟩ | ⟨d, hd, rfl⟩ := cases_of_comesOf hm
    · exact .inl h
    · exact .inr (.inl h)
    · exact .inr (.inr (.inl ⟨s, hs, hanswers, token?_of_answers hanswers⟩))
    · exact .inr (.inr (.inr ⟨d, hd, rfl, token?_of_comesOf .refl rfl⟩))

/-- Two texts and a column, added in two orders, of which one is given a label and the other a
token. -/
theorem reordered_parts_are_one_request :
    let os : List Operation := [.addParameterText "a" "x,y", .setLabel "first", .addColumn "b",
      .addParameterText "b" "*"]
    let ps : List Operation := [.addParameterText "b" "*", .setToken "second",
      .addParameterText "a" "x,y", .addColumn "b"]
    let qs : List Operation := [.setParameterText "a" "x"]
    let s := (make "v" Capability.letters).run (os ++ qs)
    let t := (make "v" Capability.letters).run (ps ++ qs)
    s.parameters.names = ["a", "b"] ∧ t.parameters.names = ["b", "a"]
      ∧ s.schemaDigest = t.schemaDigest ∧ s.contentDigest = t.contentDigest := by
  intro os ps qs s t
  have hperm : (os.filter fun o => o.adds.isSome).Perm (ps.filter fun o => o.adds.isSome) :=
    .trans (.cons _ (.swap _ _ [])) (.swap _ _ _)
  have hnames : (os.filterMap Operation.adds).Nodup := by decide
  have hbuilds : ∀ o ∈ os ++ ps, o.adds.isSome = true ∨ o.isHead = true := by decide
  obtain ⟨hschema, hcontent⟩ := identity_follows_the_request.1 "v" Capability.letters os ps qs
    hbuilds hperm hnames s t rfl rfl
  exact ⟨rfl, rfl, hschema, hcontent rfl rfl⟩

end Message

end Measurement
