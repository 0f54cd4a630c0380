/-
What a scheduler offers, after any history.

It is kept twice: as a row of services, which requests are routed along, and as
a catalog of capabilities under their tokens, which is shown to others and
decides whether a service is new. A registration adds to the end of both. A
withdrawal takes the entry with the token out of the catalog, and out of the row
every service whose capability has the token.

The invariant is that the catalog lists the services, position by position
(`Agrees`). Names occur once in a catalog, so tokens occur once in the row, and
a withdrawal takes away one service. Which services there are in the end is said
without the scheduler's collections: those that were registered and not withdrawn
since, in order of registration (`standing`, `services_run`).
-/
import Measurement.Proofs.Scheduler.Admission

set_option autoImplicit false

namespace Measurement.Scheduler

/-! ## 1. Registration and withdrawal -/

section

variable {x y : Scheduler} {v : Service} {token : String}

theorem addService_eq_ok_iff :
    x.addService v = .ok y ↔ v.capability.validate = .ok ()
      ∧ v.capability.token ∉ x.catalog.names
      ∧ { x with
          services := x.services ++ [v]
          catalog := x.catalog.insert v.capability.token v.capability } = y := by
  rw [addService, bind_eq_ok_iff]
  constructor
  · rintro ⟨u, hvalid, h⟩
    rw [mapError_eq_ok_iff] at hvalid
    by_cases hold : x.catalog.contains v.capability.token = true
    · rw [if_pos hold] at h
      cases h
    · rw [if_neg hold] at h
      exact ⟨hvalid, fun hmem => hold (Table.contains_of_mem hmem), Except.ok.inj h⟩
  · rintro ⟨hvalid, hnew, rfl⟩
    refine ⟨(), mapError_eq_ok_iff.2 hvalid, if_neg fun hold => hnew ?_⟩
    obtain ⟨c, hc⟩ := Option.isSome_iff_exists.1 hold
    exact Table.mem_names_iff.2 ⟨c, hc⟩

/-- A registration fails if the capability is not valid or its token is taken, and only then. -/
theorem exists_addService_eq_error_iff :
    (∃ e, x.addService v = .error e) ↔
      v.capability.validate ≠ .ok () ∨ v.capability.token ∈ x.catalog.names := by
  rw [← not_iff_not, not_or, not_not]
  constructor
  · intro h
    cases hv : x.addService v with
    | error e => exact absurd ⟨e, hv⟩ h
    | ok y =>
      obtain ⟨hvalid, hnew, -⟩ := addService_eq_ok_iff.1 hv
      exact ⟨hvalid, hnew⟩
  · rintro ⟨hvalid, hnew⟩ ⟨e, he⟩
    rw [addService_eq_ok_iff.2 ⟨hvalid, hnew, rfl⟩] at he
    cases he

theorem withdraw_eq_none_iff : x.withdraw token = none ↔ token ∉ x.catalog.names := by
  rw [withdraw, Option.map_eq_none_iff, Table.mem_names_iff, Option.eq_none_iff_forall_ne_some,
    not_exists]

theorem withdraw_eq_some_iff {w : Withdrawal} :
    x.withdraw token = some (w, y) ↔ ∃ c, x.catalog.get? token = some c ∧ .ofCapability c = w
      ∧ { x with
          services := x.services.filter fun v => v.capability.token ≠ token
          catalog := x.catalog.erase token } = y := by
  rw [withdraw, Option.map_eq_some_iff]
  simp only [Prod.mk.injEq]

theorem act_register (now : Reading) (h : x.addService v = .ok y) :
    x.act now (.register v) = y := by
  rw [act, h]

theorem act_register_of_error (now : Reading) {e : SchedulerFault} (h : x.addService v = .error e) :
    x.act now (.register v) = x := by
  rw [act, h]

theorem act_withdraw (now : Reading) {w : Withdrawal} (h : x.withdraw token = some (w, y)) :
    x.act now (.withdraw token) = y := by
  rw [act, h]

theorem act_withdraw_of_none (now : Reading) (h : x.withdraw token = none) :
    x.act now (.withdraw token) = x := by
  rw [act, h]

end

/-! ## 2. Actions that are about neither -/

/-- The service that an action is to register. -/
def Action.service? : Action → Option Service
  | .register v => some v
  | _ => none

/-- The tokens that an action takes back. -/
def Action.withdrawn : Action → List String
  | .withdraw token => [token]
  | _ => []

/-- Whether two schedulers offer the same. -/
def SameOffers (x y : Scheduler) : Prop := x.services = y.services ∧ x.catalog = y.catalog

theorem sameOffers_changeJob (x : Scheduler) (token : String) (f : Job → Job) :
    SameOffers (x.changeJob token f) x := by
  rw [changeJob]
  split <;> exact ⟨rfl, rfl⟩

theorem sameOffers_poll (x : Scheduler) (token : String) : SameOffers (x.poll token).2 x := by
  rw [poll_snd]
  exact sameOffers_changeJob x token Job.poll

theorem sameOffers_submit (x : Scheduler) (now armed : Reading) (identity : String)
    (s : Specification) : SameOffers (x.submit now armed identity s).2 x := by
  by_cases hadmits : ∃ v, x.Admits now identity s v
  · obtain ⟨v, hv⟩ := hadmits
    rw [submit_of_admits hv, join]
    split <;> exact ⟨rfl, rfl⟩
  · obtain ⟨message, asked, he⟩ := submit_of_not_admits (fun v hv => hadmits ⟨v, hv⟩) armed
    rw [he]
    exact ⟨rfl, rfl⟩

theorem sameOffers_receive (x : Scheduler) (now armed : Reading) (identity : String)
    (m : Message) : SameOffers (x.receive now armed identity m).2 x := by
  cases m with
  | specification s => exact sameOffers_submit x now armed identity s
  | redemption r => exact sameOffers_poll x r.token
  | interrupt i =>
    have hinterrupted := sameOffers_changeJob x i.token fun j => j.handle now .interrupt
    have hpolled := sameOffers_poll (x.handle now i.token .interrupt) i.token
    exact ⟨hpolled.1.trans hinterrupted.1, hpolled.2.trans hinterrupted.2⟩
  | _ => exact ⟨rfl, rfl⟩

theorem sameOffers_act {x : Scheduler} {a : Action} (now : Reading) (hservice : a.service? = none)
    (hwithdrawn : a.withdrawn = []) : SameOffers (x.act now a) x := by
  cases a with
  | register v => cases hservice
  | withdraw token => cases hwithdrawn
  | receive armed identity m => exact sameOffers_receive x now armed identity m
  | job token a => exact sameOffers_changeJob x token _
  | interruptAll => exact ⟨rfl, rfl⟩
  | prune => exact ⟨rfl, rfl⟩

/-! ## 3. The row and the catalog -/

/-- The row of the catalog for a service. -/
def listing (v : Service) : String × Capability := (v.capability.token, v.capability)

/-- Whether the catalog lists the services, position by position. -/
def Agrees (x : Scheduler) : Prop := x.catalog.entries = x.services.map listing

namespace Agrees

variable {x y : Scheduler} {v : Service} {token : String}

theorem of_sameOffers (h : Agrees x) (hy : SameOffers y x) : Agrees y := by
  rw [Agrees, hy.1, hy.2]
  exact h

theorem names_eq (h : Agrees x) : x.catalog.names = x.services.map fun v => v.capability.token := by
  rw [Table.names, h, List.map_map]
  rfl

theorem mem_names_iff (h : Agrees x) :
    token ∈ x.catalog.names ↔ ∃ v ∈ x.services, v.capability.token = token := by
  rw [h.names_eq, List.mem_map]

/-- Tokens of services differ, because they are names in a table. -/
theorem nodup (h : Agrees x) : (x.services.map fun v => v.capability.token).Nodup := by
  rw [← h.names_eq]
  exact x.catalog.nodup_names

theorem addService (h : Agrees x) (hy : x.addService v = .ok y) : Agrees y := by
  obtain ⟨-, hnew, rfl⟩ := addService_eq_ok_iff.1 hy
  have hentries : (x.catalog.insert v.capability.token v.capability).entries
      = x.catalog.entries ++ [listing v] :=
    putEntry_of_not_mem v.capability hnew
  rw [Agrees, hentries, h, List.map_append]
  rfl

theorem withdraw (h : Agrees x) {w : Withdrawal} (hy : x.withdraw token = some (w, y)) :
    Agrees y := by
  obtain ⟨c, -, -, rfl⟩ := withdraw_eq_some_iff.1 hy
  have hentries : (x.catalog.erase token).entries
      = (x.services.map listing).filter fun e => e.1 ≠ token := by
    rw [← h]
    rfl
  rw [Agrees, hentries, List.filter_map]
  rfl

theorem act (h : Agrees x) (now : Reading) (a : Action) : Agrees (x.act now a) := by
  cases a with
  | register v =>
    cases hy : x.addService v with
    | error e =>
      rw [act_register_of_error now hy]
      exact h
    | ok y =>
      rw [act_register now hy]
      exact h.addService hy
  | withdraw token =>
    cases hy : x.withdraw token with
    | none =>
      rw [act_withdraw_of_none now hy]
      exact h
    | some wy =>
      rw [act_withdraw now hy]
      exact h.withdraw hy
  | _ => exact h.of_sameOffers (sameOffers_act now rfl rfl)

theorem run (h : Agrees x) (acts : List (Reading × Action)) : Agrees (x.run acts) := by
  induction acts generalizing x with
  | nil => exact h
  | cons a acts ih => exact ih (h.act a.1 a.2)

/-- The catalog has one entry under a token, so one service has it. -/
theorem services_eq_of_mem (h : Agrees x) (hv : v ∈ x.services) :
    ∃ before after, x.services = before ++ v :: after
      ∧ (x.services.filter fun u => u.capability.token ≠ v.capability.token) = before ++ after := by
  obtain ⟨before, after, hservices⟩ := List.append_of_mem hv
  refine ⟨before, after, hservices, ?_⟩
  have hnodup := h.nodup
  rw [hservices, (List.perm_middle.map _).nodup_iff, List.map_cons, List.nodup_cons] at hnodup
  have hother : ∀ u ∈ before ++ after, u.capability.token ≠ v.capability.token :=
    fun u hu he => hnodup.1 (List.mem_map.2 ⟨u, hu, he⟩)
  rw [List.forall_mem_append] at hother
  rw [hservices, List.filter_append, List.filter_cons_of_neg (by simp),
    List.filter_eq_self.2 fun u hu => decide_eq_true (hother.1 u hu),
    List.filter_eq_self.2 fun u hu => decide_eq_true (hother.2 u hu)]

end Agrees

/-- The scheduler without services has an empty catalog. -/
theorem agrees_empty (a : Authorizer) : Agrees (empty a) := rfl

/-! ## 4. Services that stand -/

/-- The services of a row with other tokens than some. -/
def without (tokens : List String) (services : List Service) : List Service :=
  services.filter fun v => v.capability.token ∉ tokens

theorem without_of_forall {tokens : List String} {services : List Service}
    (h : ∀ v ∈ services, v.capability.token ∉ tokens) : without tokens services = services :=
  List.filter_eq_self.2 fun v hv => decide_eq_true (h v hv)

theorem without_nil (services : List Service) : without [] services = services :=
  without_of_forall fun _ _ => List.not_mem_nil

theorem without_append (tokens : List String) (services others : List Service) :
    without tokens (services ++ others) = without tokens services ++ without tokens others :=
  List.filter_append _ _

theorem without_singleton (token : String) (services : List Service) :
    without [token] services = services.filter fun v => v.capability.token ≠ token := by
  simp only [without, List.mem_singleton, ne_eq]

theorem without_without (tokens more : List String) (services : List Service) :
    without tokens (without more services) = without (more ++ tokens) services := by
  rw [without, without, without, List.filter_filter]
  simp only [List.mem_append, not_or, Bool.decide_and, Bool.and_comm]

/-- The tokens that are taken back in a history. -/
def withdrawn (h : List (Reading × Action)) : List String := h.flatMap fun a => a.2.withdrawn

/-- The service that an action registers, if it succeeds. -/
def added? (x : Scheduler) (a : Action) : Option Service :=
  a.service?.filter fun v => (x.addService v).toOption.isSome

/-- The services that a history registers and does not withdraw again, in order of registration. -/
def standing (x : Scheduler) : List (Reading × Action) → List Service
  | [] => []
  | a :: later => without (withdrawn later) (x.added? a.2).toList ++ (x.act a.1 a.2).standing later

section

variable {x : Scheduler} {v : Service}

theorem added?_eq_some_iff {a : Action} :
    x.added? a = some v ↔ a = .register v ∧ ∃ y, x.addService v = .ok y := by
  rw [added?, Option.filter_eq_some_iff]
  refine and_congr ⟨fun h => ?_, fun h => ?_⟩ ?_
  · cases a with
    | register u => exact congrArg Action.register (Option.some.inj h)
    | _ => cases h
  · rw [h]
    rfl
  · cases x.addService v <;> simp [Except.toOption]

theorem added?_of_error {e : SchedulerFault} (h : x.addService v = .error e) :
    x.added? (.register v) = none := by
  refine Option.eq_none_iff_forall_ne_some.2 fun u hu => ?_
  obtain ⟨hregister, y, hy⟩ := added?_eq_some_iff.1 hu
  cases hregister
  rw [h] at hy
  cases hy

/-- What an action does to the row: services with a token that it takes back are left out, and the
one that it registers stands at the end. -/
theorem services_act (h : Agrees x) (now : Reading) (a : Action) :
    (x.act now a).services = without a.withdrawn x.services ++ (x.added? a).toList := by
  cases a with
  | register v =>
    have hkept : without (Action.register v).withdrawn x.services = x.services := without_nil _
    rw [hkept]
    cases hy : x.addService v with
    | error e =>
      rw [act_register_of_error now hy, added?_of_error hy]
      exact (List.append_nil _).symm
    | ok y =>
      rw [act_register now hy, added?_eq_some_iff.2 ⟨rfl, y, hy⟩]
      obtain ⟨-, -, rfl⟩ := addService_eq_ok_iff.1 hy
      rfl
  | withdraw token =>
    refine Eq.trans ?_ (List.append_nil _).symm
    cases hy : x.withdraw token with
    | none =>
      -- No service has the token, because the catalog has no entry under it.
      rw [act_withdraw_of_none now hy]
      rw [withdraw_eq_none_iff, h.mem_names_iff] at hy
      exact (without_of_forall fun v hv he => hy ⟨v, hv, List.mem_singleton.1 he⟩).symm
    | some wy =>
      rw [act_withdraw now hy, Action.withdrawn, without_singleton]
      obtain ⟨c, -, -, he⟩ := withdraw_eq_some_iff.1 hy
      rw [← he]
  | _ =>
    rw [(sameOffers_act now rfl rfl).1]
    exact ((List.append_nil _).trans (without_nil _)).symm

/-- After a history there are the services that were there and have not been withdrawn, and then
those that it registered and did not withdraw again. -/
theorem services_run (h : Agrees x) (acts : List (Reading × Action)) :
    (x.run acts).services = without (withdrawn acts) x.services ++ x.standing acts := by
  induction acts generalizing x with
  | nil => exact ((List.append_nil _).trans (without_nil _)).symm
  | cons a acts ih =>
    have hrun : x.run (a :: acts) = (x.act a.1 a.2).run acts := rfl
    rw [hrun, ih (h.act a.1 a.2), services_act h, without_append, without_without,
      List.append_assoc]
    rfl

/-- A service stands because of a registration that succeeded. -/
theorem exists_of_mem_standing {acts : List (Reading × Action)} (h : v ∈ x.standing acts) :
    ∃ before now after, acts = before ++ (now, .register v) :: after
      ∧ ∃ y, (x.run before).addService v = .ok y := by
  induction acts generalizing x with
  | nil => cases h
  | cons a acts ih =>
    rw [standing, List.mem_append] at h
    obtain hadded | hlater := h
    · obtain ⟨hregister, y, hy⟩ :=
        added?_eq_some_iff.1 (Option.mem_toList.1 (List.mem_filter.1 hadded).1)
      exact ⟨[], a.1, acts, by rw [← hregister]; rfl, y, hy⟩
    · obtain ⟨before, now, after, rfl, y, hy⟩ := ih hlater
      exact ⟨a :: before, now, after, rfl, y, hy⟩

/-- A service that was withdrawn is reached again only after another registration. -/
theorem registered_of_routed (h : Agrees x) {token : String} {w : Withdrawal} {y : Scheduler}
    (hy : x.withdraw token = some (w, y)) (hv : v.capability.token = token)
    {later : List (Reading × Action)} {s : Specification} {t : Instant}
    (hrouted : (y.run later).route s t = some v) :
    ∃ before now after, later = before ++ (now, .register v) :: after
      ∧ ∃ z, (y.run before).addService v = .ok z := by
  have hmem : v ∈ (y.run later).services := List.mem_of_find?_eq_some hrouted
  rw [services_run (h.withdraw hy), List.mem_append] at hmem
  obtain hleft | hstands := hmem
  · obtain ⟨c, -, -, rfl⟩ := withdraw_eq_some_iff.1 hy
    have hother := (List.mem_filter.1 (List.mem_filter.1 hleft).1).2
    exact absurd hv (of_decide_eq_true hother)
  · exact exists_of_mem_standing hstands

end

/-! ## 5. List and catalog after a history -/

/-- After any history the catalog lists the services, position by position, under tokens that
differ, and the services are those that were registered and not withdrawn since, in order of
registration. A registration fails exactly if the capability is not valid or its token is there, and
a withdrawal exactly if the token is not; neither changes anything then. What succeeds adds one
service at the end, or takes away the one with the token and keeps the order of the others; and no
request is routed to that one again unless it was registered again. -/
theorem catalog_agrees_with_services (a : Authorizer) (h : List (Reading × Action)) :
    let x := (empty a).run h
    (x.services.length = x.catalog.size
        ∧ x.catalog.entries = x.services.map (fun v => (v.capability.token, v.capability))
        ∧ (x.services.map fun v => v.capability.token).Nodup
        ∧ x.services = (empty a).standing h)
      ∧ (∀ v, ((∃ e, x.addService v = .error e) ↔
            v.capability.validate ≠ .ok () ∨ v.capability.token ∈ x.catalog.names)
          ∧ (∀ e now, x.addService v = .error e → x.act now (.register v) = x)
          ∧ ∀ y, x.addService v = .ok y → y.services = x.services ++ [v]
            ∧ y.catalog.entries = x.catalog.entries ++ [(v.capability.token, v.capability)])
      ∧ ∀ token, (x.withdraw token = none ↔ token ∉ x.catalog.names)
          ∧ (∀ now, x.withdraw token = none → x.act now (.withdraw token) = x)
          ∧ ∀ w y, x.withdraw token = some (w, y) → w.token = token
            ∧ ∃ before v after, x.services = before ++ v :: after ∧ v.capability.token = token
              ∧ y.services = before ++ after
              ∧ y.catalog.entries
                = (before ++ after).map (fun u => (u.capability.token, u.capability))
              ∧ ∀ later s t, (y.run later).route s t = some v →
                ∃ earlier now rest, later = earlier ++ (now, .register v) :: rest
                  ∧ ∃ z, (y.run earlier).addService v = .ok z := by
  intro x
  have hx : Agrees x := (agrees_empty a).run h
  refine ⟨⟨?_, hx, hx.nodup, services_run (agrees_empty a) h⟩, fun v => ?_, fun token => ?_⟩
  · rw [Table.size, hx, List.length_map]
  · refine ⟨exists_addService_eq_error_iff, fun e now he => act_register_of_error now he, ?_⟩
    intro y hy
    have hentries := hx.addService hy
    obtain ⟨-, -, rfl⟩ := addService_eq_ok_iff.1 hy
    exact ⟨rfl, hentries.trans (by rw [hx, List.map_append]; rfl)⟩
  · refine ⟨withdraw_eq_none_iff, fun now hnone => act_withdraw_of_none now hnone, ?_⟩
    intro w y hy
    obtain ⟨c, hc, hw, he⟩ := withdraw_eq_some_iff.1 hy
    have hlisted : (token, c) ∈ x.services.map listing := hx ▸ Table.mem_of_get? hc
    obtain ⟨v, hv, hlisting⟩ := List.mem_map.1 hlisted
    obtain ⟨htoken, hcapability⟩ := Prod.mk.inj hlisting
    obtain ⟨before, after, hservices, hleft⟩ := hx.services_eq_of_mem hv
    have hleft' : y.services = before ++ after := by
      rw [← he, ← hleft, htoken]
    have hname : w.token = token := by
      rw [← hw, ← hcapability, ← htoken]
      rfl
    refine ⟨hname, before, v, after, hservices, htoken, hleft', ?_, ?_⟩
    · rw [hx.withdraw hy, hleft']
      rfl
    · intro later s t hrouted
      exact registered_of_routed hx hy htoken hrouted

end Measurement.Scheduler
