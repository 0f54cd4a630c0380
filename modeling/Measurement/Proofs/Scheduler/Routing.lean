/-
Which of the services on offer a request reaches.

A request goes to the first registered service that it fulfills, and that is
decided by schema and scope alone. What the constraints of the capability admit
is looked at afterwards, for this one service, and no other is tried. So a
capability with a narrow constraint can stand in the way of one with the same
schema that is registered behind it: a request that only the second admits is
refused (`narrow_service_hides_wide_one`).

That is the only way in which an offer can be out of reach. For a request that
some service accepts, at the time of its scope and by someone who may use
everything, what decides is the first service before that one which the request
fulfills, if there is one: it accepts the request too, or one of its constraints
is violated (`violation_of_fulfills`).
-/
import Measurement.Proofs.Scheduler.Joining

set_option autoImplicit false

namespace Measurement

/-! ## 1. Why a capability with the right schema refuses -/

namespace Capability

/-- Checked values are refused only for a parameter whose value the offer does not admit. -/
theorem violation_of_checkValues {c : Capability} {ps : List Parameter} {e : ServiceFault}
    (h : c.checkValues ps = .error e) :
    ∃ p ∈ ps, ∃ v offered, p.value = some v ∧ c.statement.parameters.get? p.name = some offered
      ∧ offered.constraint.metBy v = false
      ∧ e = .invalid (.constraintViolation p.name v.text offered.constraint.text) := by
  induction ps with
  | nil => cases h
  | cons p ps ih =>
    have hlater : c.checkValues ps = .error e →
        ∃ q ∈ p :: ps, ∃ v offered, q.value = some v
          ∧ c.statement.parameters.get? q.name = some offered
          ∧ offered.constraint.metBy v = false
          ∧ e = .invalid (.constraintViolation q.name v.text offered.constraint.text) := by
      intro hps
      obtain ⟨q, hq, hviolation⟩ := ih hps
      exact ⟨q, List.mem_cons_of_mem p hq, hviolation⟩
    rw [checkValues] at h
    split at h
    · rename_i v offered hv hoffered
      by_cases hmet : offered.constraint.metBy v = true
      · rw [if_pos hmet] at h
        exact hlater h
      · rw [if_neg hmet, Except.error.injEq] at h
        rw [Bool.not_eq_true] at hmet
        exact ⟨p, List.mem_cons_self, v, offered, hv, hoffered, hmet, h.symm⟩
    · exact hlater h

end Capability

/-- A capability that a complete request fulfills refuses it only for one of its constraints. -/
theorem Specification.violation_of_fulfills {s : Specification} {c : Capability} {t : Instant}
    {e : ServiceFault} (hfulfills : s.fulfills c t = true) (hvalid : s.validate = .ok ())
    (h : c.accepts s = .error e) :
    ∃ p ∈ s.statement.parameters.values, ∃ v offered, p.value = some v
      ∧ c.statement.parameters.get? p.name = some offered
      ∧ offered.constraint.metBy v = false
      ∧ e = .invalid (.constraintViolation p.name v.text offered.constraint.text) := by
  rw [fulfills, Bool.and_eq_true, beq_iff_eq] at hfulfills
  rw [Capability.accepts, if_pos hfulfills.1, hvalid] at h
  exact Capability.violation_of_checkValues h

theorem Specification.validate_of_accepts {s : Specification} {c : Capability}
    (h : c.accepts s = .ok ()) : s.validate = .ok () := (Capability.accepts_eq_ok_iff.1 h).2.1

namespace Scheduler

/-! ## 2. What stands before a service -/

/-- A request that a service could run goes to that service, unless it fulfills one that is
registered before it. -/
theorem route_of_fulfills {x : Scheduler} {s : Specification} {t : Instant} {v : Service}
    {before after : List Service} (hservices : x.services = before ++ v :: after)
    (hv : s.fulfills v.capability t = true) :
    x.route s t = (before.find? fun w => s.fulfills w.capability t).or (some v) := by
  rw [route, hservices, List.find?_append, List.find?_cons, hv]

theorem submit_of_refused {x : Scheduler} {now armed : Reading} {identity : String}
    {s : Specification} {w : Service} {e : ServiceFault} (hrouted : x.route s now.wall = some w)
    (hallowed : x.authorizer.allows w.capability.knownAs identity = true)
    (hrefused : w.capability.accepts s = .error e) :
    (x.submit now armed identity s).1 = reject s e.message := by
  simp only [submit, hrouted, hallowed, hrefused]
  rfl

/-- A service that accepts a request is within its reach exactly if the first service before it
which the request fulfills accepts the request as well. If it does not, the request violates one of
its constraints, and the answer says which. -/
theorem accepted_unless_hidden (a : Authorizer) (h : List (Reading × Action)) (now armed : Reading)
    (identity : String) (s : Specification) (v : Service) (before after : List Service)
    (hservices : ((empty a).run h).services = before ++ v :: after)
    (hallowed : ∀ label, ((empty a).run h).authorizer.allows label identity = true)
    (htimely : s.scope.isExpired now.wall = false)
    (hfulfills : s.fulfills v.capability now.wall = true)
    (haccepts : v.capability.accepts s = .ok ()) :
    let reply := (((empty a).run h).submit now armed identity s).1
    let first := before.find? fun w => s.fulfills w.capability now.wall
    ((¬ ∃ e, reply = .exception e) ↔ ∀ w, first = some w → w.capability.accepts s = .ok ())
      ∧ ((∃ r, reply = .receipt r) ↔ ∀ w, first = some w → w.capability.accepts s = .ok ())
      ∧ ∀ w e, first = some w → w.capability.accepts s = .error e →
        reply = .exception ⟨some s.token, e.message⟩
          ∧ ∃ p ∈ s.statement.parameters.values, ∃ value offered, p.value = some value
            ∧ w.capability.statement.parameters.get? p.name = some offered
            ∧ offered.constraint.metBy value = false
            ∧ e = .invalid (.constraintViolation p.name value.text offered.constraint.text) := by
  intro reply first
  have hrouted : ((empty a).run h).route s now.wall = first.or (some v) :=
    route_of_fulfills hservices hfulfills
  have hreceived : (∀ w, first = some w → w.capability.accepts s = .ok ()) →
      ∃ r, reply = .receipt r := by
    intro haccepted
    rw [receipt_iff_admits]
    cases hfirst : first with
    | none =>
      rw [hfirst, Option.none_or] at hrouted
      exact ⟨v, hrouted, hallowed _, haccepts, .inr htimely⟩
    | some w =>
      rw [hfirst, Option.some_or] at hrouted
      exact ⟨w, hrouted, hallowed _, haccepted w hfirst, .inr htimely⟩
  have hrefused : ∀ w e, first = some w → w.capability.accepts s = .error e →
      reply = .exception ⟨some s.token, e.message⟩ := by
    intro w e hfirst he
    rw [hfirst, Option.some_or] at hrouted
    exact submit_of_refused hrouted (hallowed _) he
  have hnarrow : (¬ ∃ e, reply = .exception e) →
      ∀ w, first = some w → w.capability.accepts s = .ok () := by
    intro hno w hfirst
    cases hw : w.capability.accepts s with
    | error e => exact absurd ⟨_, hrefused w e hfirst hw⟩ hno
    | ok u => rfl
  have hreceipt : (∃ r, reply = .receipt r) → ¬ ∃ e, reply = .exception e := by
    rintro ⟨r, hr⟩ ⟨e, he⟩
    exact Message.noConfusion (hr.symm.trans he)
  refine ⟨⟨hnarrow, fun hw => hreceipt (hreceived hw)⟩,
    ⟨fun hr => hnarrow (hreceipt hr), hreceived⟩, ?_⟩
  intro w e hfirst he
  have hw : s.fulfills w.capability now.wall = true :=
    List.find?_some (p := fun w : Service => s.fulfills w.capability now.wall) hfirst
  exact ⟨hrefused w e hfirst he,
    Specification.violation_of_fulfills hw (Specification.validate_of_accepts haccepts) he⟩

/-! ## 3. Samples -/

/-- A service for the measurement of a text, which has to be one of a list. -/
def answeringOneOf (token : String) (texts : List String) : Service :=
  ⟨⟨{ (answering ["a"] []).capability.statement with
      givenToken := some token
      parameters := .ofList [("a", .make (letter "a") (.set (texts.map .string)))] }⟩,
    .succeed [], 1⟩

/-- A service for the measurement of any text. -/
def answeringAny : Service :=
  ⟨⟨(answering ["a"] []).capability.statement.withToken "any"⟩, .succeed [], 0⟩

/-- The scheduler of some services. -/
def offering (services : List Service) : Scheduler :=
  (empty .everyone).run (services.map (start, .register ·))

theorem second_service_is_reached_through_first :
    (offering [answeringOneOf "some" ["x", "y"], answeringAny]).services
        = [answeringOneOf "some" ["x", "y"]] ++ answeringAny :: []
      ∧ answeringAny.capability.accepts (askingOneOf ["y"] "y") = .ok ()
      ∧ ∃ r, ((offering [answeringOneOf "some" ["x", "y"], answeringAny]).submit start start "bob"
          (askingOneOf ["y"] "y")).1 = .receipt r := by
  have hservices : (offering [answeringOneOf "some" ["x", "y"], answeringAny]).services
      = [answeringOneOf "some" ["x", "y"]] ++ answeringAny :: [] := by decide +kernel
  have haccepts : answeringAny.capability.accepts (askingOneOf ["y"] "y") = .ok () := by
    decide +kernel
  refine ⟨hservices, haccepts, ?_⟩
  refine ((accepted_unless_hidden .everyone _ start start "bob" (askingOneOf ["y"] "y") answeringAny
    _ _ hservices (fun _ => rfl) (by decide) (by decide +kernel) haccepts).2.1).2 ?_
  decide +kernel

/-- A service that admits one text only hides a service for any text behind it: a request for
another text, which the second accepts, is refused. -/
theorem narrow_service_hides_wide_one :
    answeringAny ∈ (offering [answeringOneOf "one" ["x"], answeringAny]).services
      ∧ (∀ label, (offering [answeringOneOf "one" ["x"], answeringAny]).authorizer.allows label
          "bob" = true)
      ∧ (askingOneOf ["y"] "y").scope.isExpired start.wall = false
      ∧ (askingOneOf ["y"] "y").fulfills answeringAny.capability start.wall = true
      ∧ answeringAny.capability.accepts (askingOneOf ["y"] "y") = .ok ()
      ∧ ∃ e, ((offering [answeringOneOf "one" ["x"], answeringAny]).submit start start "bob"
          (askingOneOf ["y"] "y")).1 = .exception e := by
  refine ⟨by decide +kernel, fun _ => rfl, by decide, by decide +kernel, by decide +kernel, ?_⟩
  have hrouted : (offering [answeringOneOf "one" ["x"], answeringAny]).route
      (askingOneOf ["y"] "y") start.wall = some (answeringOneOf "one" ["x"]) := by decide +kernel
  have hrefused : (answeringOneOf "one" ["x"]).capability.accepts (askingOneOf ["y"] "y")
      = .error (.invalid (.constraintViolation "a" "y" "x")) := by decide +kernel
  exact ⟨_, submit_of_refused hrouted rfl hrefused⟩

end Scheduler

end Measurement
