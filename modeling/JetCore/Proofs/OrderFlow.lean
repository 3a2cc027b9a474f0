import JetCore.Proofs.AckAfterWork
import JetCore.Proofs.OrderKeys
import JetCore.Proofs.ReplySafety
import JetCore.Spec.OrderFlow

/-!
# A reply means that the order is in the table

Each half is known on its own: the service returns a reply that was fetched
under the event id its publish returned (`traced_of_run`), and a delivery
publishes an answer after its upsert has committed. A run of both is a run of
each (`service_run`, `adapter_run`), and what ties them together is `Sound`:
deliveries come from stored orders, stored answers from calls of deliveries,
and fetched events from stored answers. An event id is that of one order only,
so the reply a request gets is that of the order it was stored as.
-/

namespace JetCore

open Lib

namespace OrderFlow

variable {collate : Text → Text} {acts : List OrderFlowAct}
  {act : OrderFlowAct} {s s' : OrderFlow}

/-! ## Steps -/

theorem serve_spec {a : RestAct} (h : s.serve a = some s') :
    ∃ api, s.api.step a = some api ∧ s' = { s with api := api } := by
  obtain ⟨api, hstep, rfl⟩ := Option.map_eq_some_iff.mp h
  exact ⟨api, hstep, rfl⟩

/-- What is left of a step that the service sees as the action `a`. -/
structure AtService (s : OrderFlow) (act : OrderFlowAct) (a : RestAct)
    (s' : OrderFlow) : Prop where
  step : s.api.step a = some s'.api
  adapter : s'.adapter = s.adapter
  orders : s'.orders = s.orders
  persisted : s'.persisted = s.persisted
  created : s'.created = s.created ++ act.stores
  stores : act.stores.map Call.eventId = a.stores
  fetches : ∀ events, a = .fetch events → act = .fetch events
  internal : act = .serve a → a.internal = true

theorem step_service {a : RestAct} (hact : act.atService = some a)
    (h : s.step collate act = some s') : AtService s act a s' := by
  cases act with
  | post body idempotencyKey waits =>
      cases hact
      obtain ⟨api, hstep, rfl⟩ := serve_spec h
      exact ⟨hstep, rfl, rfl, rfl, (List.append_nil _).symm, rfl, nofun, nofun⟩
  | store r call =>
      cases hact
      rw [step] at h
      split at h
      · obtain ⟨api, hstep, rfl⟩ := serve_spec h
        exact ⟨hstep, rfl, rfl, rfl, rfl, rfl, nofun, nofun⟩
      · cases h
  | fetch events =>
      cases hact
      obtain ⟨api, hstep, rfl⟩ := serve_spec h
      refine ⟨hstep, rfl, rfl, rfl, (List.append_nil _).symm, rfl, ?_, nofun⟩
      exact fun _ heq => congrArg _ (RestAct.fetch.inj heq)
  | serve a' =>
      cases hact
      rw [step] at h
      split at h
      · next hinternal =>
          obtain ⟨api, hstep, rfl⟩ := serve_spec h
          refine ⟨hstep, rfl, rfl, rfl, (List.append_nil _).symm, ?_, ?_,
            fun _ => hinternal⟩
          · cases a with
            | store r eventId => cases hinternal
            | _ => rfl
          · intro events heq
            subst heq
            cases hinternal
      · cases h
  | deliver d => cases hact
  | answer task r done call => cases hact

theorem step_deliver {d : Delivered}
    (h : s.step collate (.deliver d) = some s') :
    s' = { s with adapter := { s.adapter with
      started := s.adapter.started ++ [(d, handleDelivered d)] } } := by
  cases h
  rfl

theorem step_answer {task : ℕ} {r : (a : DbAct) → Except Exn a.Resp}
    {done : Bool} {call : Call}
    (h : s.step collate (.answer task r done call) = some s') :
    ∃ a, s'.adapter.log = s.adapter.log ++ [(task, ⟨a, r a⟩)] ∧
      s.adapter.step handleDelivered (.answer task r) = some s'.adapter ∧
      s' = { (if done || (r a).isOk then s.worked collate call a else s) with
        adapter := s'.adapter } := by
  rw [step, Option.bind_eq_some_iff] at h
  obtain ⟨a, hcalling, h⟩ := h
  obtain ⟨adapter, hstep, rfl⟩ := Option.map_eq_some_iff.mp h
  obtain ⟨d, a', k, hstarted, -, hlog⟩ := Tasks.step_answer hstep
  rw [calling, hstarted] at hcalling
  cases hcalling
  exact ⟨a, hlog, hstep, rfl⟩

/-- The next call of a delivery, answered. -/
theorem answer_of_call {task : ℕ} {r : (a : DbAct) → Except Exn a.Resp}
    {done : Bool} {call : Call} {d : Delivered} {a : DbAct}
    {k : Except Exn a.Resp → DbProg Unit}
    (h : s.adapter.started[task]? = some (d, .call a k)) :
    s.step collate (.answer task r done call) =
      some { (if done || (r a).isOk then s.worked collate call a else s) with
        adapter := {
          started := s.adapter.started.set task (d, k (r a))
          log := s.adapter.log ++ [(task, ⟨a, r a⟩)] } } := by
  rw [step, calling, h, Option.bind_some, Tasks.step, h]
  rfl

/-! ## What ties the halves together -/

/-- The identity of every stored order is its own. -/
theorem orders_nodup {as : List RestAct} {api : RestApi}
    (h : Run RestApi.step always {} as api) : api.orders.Nodup := by
  refine h.invariant (I := fun api => api.orders.Nodup) ?_ List.nodup_nil
  intro api a _ hnodup _ hstep
  rw [RestApi.orders_eq hstep]
  cases a with
  | store r eventId =>
      obtain ⟨-, hfresh, -⟩ := RestApi.step_store hstep
      rw [RestAct.stores, ← List.concat_eq_append]
      exact hnodup.concat hfresh
  | _ => exact (List.append_nil api.orders).symm ▸ hnodup

structure Sound (collate : Text → Text) (acts : List OrderFlowAct)
    (s : OrderFlow) : Prop where
  service : Run RestApi.step always {}
    (acts.filterMap OrderFlowAct.atService) s.api
  created : s.created.map Call.eventId = s.api.orders
  stored : ∀ r call, .store r call ∈ acts → call ∈ s.created
  internal : ∀ a, .serve a ∈ acts → a.internal = true
  tasks : ∃ tacts, Run (Tasks.step handleDelivered)
    (Tasks.Allows AnswersOwn) {} tacts s.adapter
  delivered : ∀ task d, s.adapter.subject? task = some d →
    ∃ call ∈ s.created, call.Originates d.event
  committed : ∀ task request,
    (task, ⟨.upsert request, .ok ()⟩) ∈ s.adapter.log →
      (s.orders.get? (collate request.orderId)).isSome
  persisted : ∀ call ∈ s.persisted, ∃ task r,
    (task, ⟨.publish call.args, r⟩) ∈ s.adapter.log
  fetched : ∀ event,
    RestApi.Fetched (acts.filterMap OrderFlowAct.atService) event →
      ∃ call ∈ s.persisted, call.Originates event

theorem isSome_upsert (orders : Orders) (request : OrderCreatedRequest)
    {key : Text} (h : collate request.orderId = key ∨
      (orders.get? key).isSome) :
    ((orders.upsert collate request).get? key).isSome := by
  have hlook := orders.look_upsert collate request key
  have hsome : ∀ orders : Orders,
      (orders.look key).isSome = (orders.get? key).isSome :=
    fun orders => Option.isSome_map
  rw [← hsome, hlook]
  split
  · rfl
  · next hne =>
      rw [hsome]
      exact h.resolve_left hne

theorem sound_nil : Sound collate [] {} where
  service := .nil _
  created := rfl
  stored := nofun
  internal := nofun
  tasks := ⟨[], .nil _⟩
  delivered := nofun
  committed := nofun
  persisted := nofun
  fetched := by
    intro event h
    obtain ⟨events, hmem, -⟩ := h
    cases hmem

theorem Sound.serve {a : RestAct} (hact : act.atService = some a)
    (hcarries : s.Carries act) (h : s.step collate act = some s')
    (hs : Sound collate acts s) : Sound collate (acts ++ [act]) s' := by
  have hat := step_service hact h
  have hacts : (acts ++ [act]).filterMap OrderFlowAct.atService =
      acts.filterMap OrderFlowAct.atService ++ [a] := by
    rw [List.filterMap_append, List.filterMap_cons, hact]
    rfl
  have hkept : ∀ call ∈ s.created, call ∈ s'.created := fun call hcall =>
    hat.created ▸ List.mem_append_left _ hcall
  refine ⟨hacts ▸ hs.service.snoc trivial hat.step, ?_, ?_, ?_,
    hat.adapter ▸ hs.tasks, ?_, ?_, ?_, ?_⟩
  · rw [hat.created, RestApi.orders_eq hat.step, List.map_append, hs.created,
      hat.stores]
  · intro r call hmem
    rcases List.mem_append.mp hmem with hmem | hmem
    · exact hkept call (hs.stored r call hmem)
    · obtain rfl := (List.mem_singleton.mp hmem).symm
      exact hat.created ▸ List.mem_append_right _ List.mem_cons_self
  · intro a' hmem
    rcases List.mem_append.mp hmem with hmem | hmem
    · exact hs.internal a' hmem
    · obtain rfl := List.mem_singleton.mp hmem
      cases hact
      exact hat.internal rfl
  · intro task d hd
    obtain ⟨call, hcall, horiginates⟩ :=
      hs.delivered task d (hat.adapter ▸ hd)
    exact ⟨call, hkept call hcall, horiginates⟩
  · intro task request hmem
    rw [hat.orders]
    exact hs.committed task request (hat.adapter ▸ hmem)
  · intro call hcall
    rw [hat.adapter]
    exact hs.persisted call (hat.persisted ▸ hcall)
  · intro event hfetched
    rw [hat.persisted]
    rw [hacts] at hfetched
    obtain ⟨events, hmem, hevent⟩ := hfetched
    rcases List.mem_append.mp hmem with hmem | hmem
    · exact hs.fetched event ⟨events, hmem, hevent⟩
    · obtain rfl := hat.fetches events (List.mem_singleton.mp hmem).symm
      exact hcarries event hevent

variable (acts) in
/-- What the service has seen is the same. -/
theorem filterMap_atService_snoc (hact : act.atService = none) :
    (acts ++ [act]).filterMap OrderFlowAct.atService =
      acts.filterMap OrderFlowAct.atService := by
  rw [List.filterMap_append, List.filterMap_cons, hact]
  exact List.append_nil _

theorem mem_of_mem_snoc {act' : OrderFlowAct} (h : act' ∈ acts ++ [act])
    (hne : act' ≠ act) : act' ∈ acts :=
  (List.mem_append.mp h).resolve_right fun hmem =>
    hne (List.mem_singleton.mp hmem)

theorem Sound.deliver {d : Delivered} (hcarries : s.Carries (.deliver d))
    (h : s.step collate (.deliver d) = some s')
    (hs : Sound collate acts s) :
    Sound collate (acts ++ [.deliver d]) s' := by
  obtain rfl := step_deliver h
  obtain ⟨tacts, htasks⟩ := hs.tasks
  have hsame := filterMap_atService_snoc acts
    (show (OrderFlowAct.deliver d).atService = none from rfl)
  refine ⟨hsame ▸ hs.service, hs.created, ?_, ?_, ?_, ?_, hs.committed,
    hs.persisted, hsame ▸ hs.fetched⟩
  · intro r call hmem
    exact hs.stored r call (mem_of_mem_snoc hmem nofun)
  · intro a hmem
    exact hs.internal a (mem_of_mem_snoc hmem nofun)
  · have hallows : Tasks.Allows AnswersOwn s.adapter (.start d) := trivial
    exact ⟨tacts ++ [.start d], htasks.snoc hallows rfl⟩
  · intro task d' hd
    rw [Tasks.subject?, List.getElem?_append] at hd
    split at hd
    · exact hs.delivered task d' hd
    · obtain ⟨⟨d'', p⟩, hget, rfl⟩ := Option.map_eq_some_iff.mp hd
      obtain hmem := List.mem_of_getElem? hget
      cases List.mem_singleton.mp hmem
      exact hcarries

/-- What a call leaves, whether it has done its work or not. -/
structure Leaves (collate : Text → Text) (s : OrderFlow) (a : DbAct)
    (t : OrderFlow) : Prop where
  api : t.api = s.api
  created : t.created = s.created
  rows : ∀ key, (s.orders.get? key).isSome → (t.orders.get? key).isSome
  kept : ∀ call ∈ s.persisted, call ∈ t.persisted
  persisted : ∀ call ∈ t.persisted,
    call ∈ s.persisted ∨ a = .publish call.args

theorem leaves_worked (s : OrderFlow) (call : Call) (a : DbAct) :
    Leaves collate s a (s.worked collate call a) := by
  cases a with
  | upsert request =>
      exact ⟨rfl, rfl, fun _ h => isSome_upsert _ _ (.inr h), fun _ h => h,
        fun _ h => .inl h⟩
  | publish args =>
      refine ⟨rfl, rfl, fun _ h => h, fun _ => List.mem_append_left _, ?_⟩
      intro c hc
      rcases List.mem_append.mp hc with hc | hc
      · exact .inl hc
      · rw [List.mem_singleton.mp hc]
        exact .inr rfl
  | _ => exact ⟨rfl, rfl, fun _ h => h, fun _ h => h, fun _ h => .inl h⟩

variable (collate) in
theorem leaves_if (s : OrderFlow) (call : Call) (a : DbAct) (did : Bool) :
    Leaves collate s a (if did then s.worked collate call a else s) := by
  cases did with
  | true => exact leaves_worked s call a
  | false =>
      exact ⟨rfl, rfl, fun _ h => h, fun _ h => h, fun _ h => .inl h⟩

theorem Sound.answer {task : ℕ} {r : (a : DbAct) → Except Exn a.Resp}
    {done : Bool} {call : Call}
    (hcarries : s.Carries (.answer task r done call))
    (h : s.step collate (.answer task r done call) = some s')
    (hs : Sound collate acts s) :
    Sound collate (acts ++ [.answer task r done call]) s' := by
  obtain ⟨a, hlog, hstep, heq⟩ := step_answer h
  have hleaves := leaves_if collate s call a
    (done || (r a).isOk)
  generalize hdid : (done || (r a).isOk) = did at hleaves heq
  generalize ht : (if did then s.worked collate call a else s) = t
    at hleaves heq
  obtain ⟨tacts, htasks⟩ := hs.tasks
  have hsame := filterMap_atService_snoc acts
    (show (OrderFlowAct.answer task r done call).atService = none from rfl)
  have hlogged : ∀ e ∈ s.adapter.log, e ∈ s'.adapter.log := fun e he =>
    hlog ▸ List.mem_append_left _ he
  generalize s'.adapter = adapter at *
  subst heq
  refine ⟨?_, ?_, ?_, ?_, ?_, ?_, ?_, ?_, ?_⟩
  · exact hsame ▸ hleaves.api ▸ hs.service
  · exact hleaves.created ▸ hleaves.api ▸ hs.created
  · intro r' call' hmem
    exact hleaves.created ▸ hs.stored r' call' (mem_of_mem_snoc hmem nofun)
  · intro a' hmem
    exact hs.internal a' (mem_of_mem_snoc hmem nofun)
  · have hallows : Tasks.Allows AnswersOwn s.adapter (.answer task r) :=
      hcarries
    exact ⟨tacts ++ [.answer task r], htasks.snoc hallows hstep⟩
  · intro task' d hd
    have hd' := (Tasks.subject?_answer hstep task').symm.trans hd
    obtain ⟨call', hcall, horiginates⟩ := hs.delivered task' d hd'
    exact ⟨call', hleaves.created ▸ hcall, horiginates⟩
  · intro task' request hmem
    rw [hlog] at hmem
    rcases List.mem_append.mp hmem with hmem | hmem
    · exact hleaves.rows _ (hs.committed task' request hmem)
    · -- the upsert has just committed
      have hcall := List.mem_singleton.mp hmem
      rw [Prod.mk.injEq] at hcall
      obtain rfl : a = .upsert request := (congrArg Sigma.fst hcall.2).symm
      have hok : r (.upsert request) = .ok () :=
        (eq_of_heq (Sigma.mk.inj hcall.2).2).symm
      rw [hok] at hdid
      obtain rfl : did = true := hdid.symm.trans (Bool.or_true _)
      rw [← ht]
      exact isSome_upsert _ _ (.inl rfl)
  · intro call' hcall
    rcases hleaves.persisted call' hcall with hcall | rfl
    · obtain ⟨task', r', hmem⟩ := hs.persisted call' hcall
      exact ⟨task', r', hlogged _ hmem⟩
    · exact ⟨task, r (.publish call'.args),
        hlog ▸ List.mem_append_right _ List.mem_cons_self⟩
  · intro event hfetched
    rw [hsame] at hfetched
    obtain ⟨call', hcall, horiginates⟩ := hs.fetched event hfetched
    exact ⟨call', hleaves.kept call' hcall, horiginates⟩

theorem sound_of_run (h : Run (step collate) Carries {} acts s) :
    Sound collate acts s := by
  refine h.history sound_nil ?_
  intro before m act t _ hs hcarries hstep
  cases act with
  | deliver d => exact hs.deliver hcarries hstep
  | answer task r done call => exact hs.answer hcarries hstep
  | post body idempotencyKey waits => exact hs.serve rfl hcarries hstep
  | store r call => exact hs.serve rfl hcarries hstep
  | fetch events => exact hs.serve rfl hcarries hstep
  | serve a => exact hs.serve rfl hcarries hstep

/-! ## Where a reply comes from -/

/-- A publish that has its event id was stored, or found to be a duplicate. -/
theorem stored_or_duplicate {as : List RestAct} {api : RestApi}
    (h : Run RestApi.step always {} as api) {r : ℕ} {eventId : String}
    (hphase : api.phase r = some (.publishing (some eventId))) :
    .store r eventId ∈ as ∨ .duplicate r eventId ∈ as := by
  revert hphase
  refine h.history (I := fun as api =>
    api.phase r = some (.publishing (some eventId)) →
      .store r eventId ∈ as ∨ .duplicate r eventId ∈ as) (fun h => ?_) ?_
  · cases h
  intro as api a t _ ih _ hstep hphase
  have hlast : a ∈ as ++ [a] := List.mem_append_right _ List.mem_cons_self
  have hbefore : api.phase r = some (.publishing (some eventId)) →
      .store r eventId ∈ as ++ [a] ∨ .duplicate r eventId ∈ as ++ [a] :=
    fun hold => (ih hold).imp (List.mem_append_left _)
      (List.mem_append_left _)
  by_cases hact : a.request? = some r
  · cases a with
    | store r' e =>
        cases hact
        obtain ⟨-, -, rfl⟩ := RestApi.step_store hstep
        cases RestApi.eq_of_setPhase hphase
        exact .inl hlast
    | duplicate r' e =>
        cases hact
        obtain ⟨-, -, rfl⟩ := RestApi.step_duplicate hstep
        cases RestApi.eq_of_setPhase hphase
        exact .inr hlast
    | publishRaises r' =>
        cases hact
        obtain ⟨-, rfl⟩ := RestApi.step_publishRaises hstep
        cases RestApi.eq_of_setPhase hphase
    | publishReturns r' =>
        cases hact
        obtain ⟨waits, e, -, rfl⟩ := RestApi.step_publishReturns hstep
        cases waits <;> cases RestApi.eq_of_setPhase hphase
    | register r' =>
        cases hact
        obtain ⟨_, -, rfl⟩ := RestApi.step_register hstep
        cases RestApi.eq_of_setPhase hphase
    | deadline r' =>
        cases hact
        obtain ⟨_, _, -, rfl⟩ := RestApi.step_deadline hstep
        cases RestApi.eq_of_setPhase hphase
    | cancel r' =>
        cases hact
        obtain ⟨_, -, rfl⟩ | ⟨_, _, _, -, rfl⟩ := RestApi.step_cancel hstep
        · cases RestApi.eq_of_setPhase hphase
        · cases RestApi.eq_of_setPhase hphase
    | resume r' =>
        cases hact
        obtain ⟨_, _, _, _, -, rfl, hnew⟩ := RestApi.step_resume hstep
        obtain rfl := RestApi.eq_of_setPhase hphase
        obtain ⟨-, _, -, hnew⟩ | ⟨-, hnew⟩ | ⟨-, hnew⟩ := hnew
        · cases hnew
        · cases hnew
        · cases hnew
    | arrive waits => cases hact
    | fetch events => cases hact
    | resolve => cases hact
    | ack => cases hact
  · obtain hsame | ⟨waits, -, -, hnew⟩ := RestApi.requests_step hstep hact
    · rw [RestApi.phase, hsame] at hphase
      exact hbefore hphase
    · rw [RestApi.phase, hnew] at hphase
      cases hphase

/-- Which calls a record allows: the answer to the order that was upserted. -/
def AnswersCommitted (d : Delivered) (h : Calls DbAct DbAct.Resp) (a : DbAct) :
    Prop :=
  ∀ args, a = .publish args → ∃ request,
    decodeOrderCreated d.event.payload = .ok request ∧
    ⟨.upsert request, .ok ()⟩ ∈ h ∧
    args = orderPersisted request.orderId d.occurredAt d.eventId

theorem AnswersCommitted.of_other {d : Delivered}
    {h : Calls DbAct DbAct.Resp} {a : DbAct}
    (ha : BusCalls.published? a = none) : AnswersCommitted d h a := by
  intro args hargs
  subst hargs
  cases ha

/-- A log line, and the ack or nak. -/
theorem answersCommitted_settle {d : Delivered} (line : LogLine) {a : DbAct}
    (ha : BusCalls.published? a = none) (h : Calls DbAct DbAct.Resp) :
    (do DbAct.call (.log line); DbAct.call a : DbProg Unit).wp
      (Prog.records AnswersOwn) (AnswersCommitted d) (fun _ _ => True) h := by
  have honly : ∀ b : DbAct, BusCalls.published? b = none →
      Prog.Only (fun b => BusCalls.published? b = none) (DbAct.call b) :=
    fun _ hb => Prog.Only.act hb
  exact Prog.Only.wp_of (fun _ _ => AnswersCommitted.of_other)
    ((honly (.log line) rfl).bind fun _ => honly a ha) h

theorem answersCommitted_handle (d : Delivered) :
    (handleDelivered d).wp (Prog.records AnswersOwn) (AnswersCommitted d)
      (fun _ _ => True) [] := by
  rw [handleDelivered, handleOrderCreated.eq_def]
  cases hdecode : decodeOrderCreated d.event.payload with
  | error e =>
      cases e with
      | malformedPayloadError why =>
          exact answersCommitted_settle _ rfl _
      | _ => trivial
  | ok request =>
      refine Prog.wp_bind.mpr (Prog.wp_attempt.mpr (Prog.wp_act.mpr
        ⟨fun _ h => ?_, fun r h hr => ?_⟩))
      · cases h
      obtain ⟨-, rfl⟩ := hr
      cases r with
      | error e =>
          cases e with
          | dbapiError => exact answersCommitted_settle _ rfl _
          | _ => trivial
      | ok u =>
          refine Prog.wp_bind.mpr (Prog.wp_act.mpr ⟨fun args hargs => ?_,
            fun r h hr => ?_⟩)
          · cases hargs
            exact ⟨request, hdecode, List.mem_cons_self, rfl⟩
          · cases r with
            | error e => trivial
            | ok u =>
                exact Prog.wp_act.mpr ⟨AnswersCommitted.of_other rfl,
                  fun _ _ _ => trivial⟩

/-- No two stored orders have one event id. -/
theorem Sound.alone (hs : Sound collate acts s) {call call' : Call}
    (hcall : call ∈ s.created) (hcall' : call' ∈ s.created)
    (hid : call'.eventId = call.eventId) : call' = call := by
  have hnodup : (s.created.map Call.eventId).Nodup :=
    hs.created ▸ orders_nodup hs.service
  exact List.inj_on_of_nodup_map hnodup hcall' hcall hid

/-- What a publish returned is the id of the order the request was stored as. -/
theorem Sound.storedAs (hs : Sound collate acts s) {call : Call}
    (hcall : call ∈ s.created) {r : ℕ} {eventId : String}
    (hid : call.eventId = eventId) (h : RestApi.PublishReturned
      (acts.filterMap OrderFlowAct.atService) r eventId) :
    StoredAs acts r call := by
  obtain ⟨before, after, m, hacts, hrun, hphase⟩ := h
  have hmem : ∀ a ∈ before, ∃ act ∈ acts, act.atService = some a :=
    fun a ha => List.mem_filterMap.mp (hacts ▸ List.mem_append_left _ ha)
  rcases stored_or_duplicate hrun hphase with hstored | hduplicate
  · obtain ⟨act, hact, hat⟩ := hmem _ hstored
    cases act with
    | store r' call' =>
        cases hat
        obtain rfl := hs.alone hcall (hs.stored _ _ hact) hid.symm
        exact .inl hact
    | serve a =>
        cases hat
        cases hs.internal _ hact
    | _ => cases hat
  · obtain ⟨act, hact, hat⟩ := hmem _ hduplicate
    subst hid
    cases act with
    | serve a =>
        cases hat
        exact .inr hact
    | _ => cases hat

/-- In every state of every run: a response with status 200 is the answer to
an order that the request was stored as, or taken for a duplicate of; that order
has been upserted and the upsert has committed, so it has a row; and it is the
only one with its event id. -/
theorem ok_reply_persisted (h : Run (step collate) Carries {} acts s)
    {r : ℕ} {response : Response}
    (hreturned : s.api.phase r = some (.returned response))
    (hstatus : response.statusCode = 200) :
    ∃ call ∈ s.created, ∃ request occurredAt,
      StoredAs acts r call ∧ s.Committed collate call request ∧
      response.content = encodeOrderPersisted request.orderId occurredAt ∧
      ∀ call' ∈ s.created, call'.eventId = call.eventId → call' = call := by
  have hs := sound_of_run h
  obtain ⟨eventId, event, rfl, hcorrelated, hfetched, hpublished⟩ :=
    (RestApi.traced_of_run hs.service).replied hreturned hstatus
  -- the event was published by a delivery, after its upsert
  obtain ⟨answer, hanswer, horiginates⟩ := hs.fetched event hfetched
  obtain ⟨task, x, hmem⟩ := hs.persisted answer hanswer
  obtain ⟨before, after, hsplit⟩ := List.append_of_mem hmem
  obtain ⟨tacts, htasks⟩ := hs.tasks
  obtain ⟨d, hd, hcommitted⟩ :=
    Tasks.logged_ok answersCommitted_handle htasks hsplit
  obtain ⟨request, hdecode, hupsert, hargs⟩ := hcommitted answer.args rfl
  obtain ⟨call, hcall, hdelivered⟩ := hs.delivered task d hd
  obtain ⟨-, -, hpayload, -, hcorrelation, -⟩ := horiginates
  obtain ⟨-, -, hbody, -, -, hid⟩ := id hdelivered
  have hsame : d.eventId = eventId := by
    rw [hargs, hcorrelated] at hcorrelation
    exact Option.some.inj hcorrelation
  have hlogged : (task, ⟨.upsert request, .ok ()⟩) ∈ s.adapter.log := by
    rw [hsplit]
    exact List.mem_append_left _ (mem_own.mp hupsert)
  refine ⟨call, hcall, request, d.occurredAt, ?_,
    ⟨hbody ▸ hdecode, ⟨task, d, hd, hdelivered, hlogged⟩,
      hs.committed task request hlogged⟩, ?_,
    fun _ hcall' hid' => hs.alone hcall hcall' hid'⟩
  · exact hs.storedAs hcall (hid.trans hsame) hpublished
  · rw [Response.reply, ← hpayload, hargs]
    rfl

/-! ## Over the bus -/

/-- What a listed recipient makes of the message that a publish has stored is
what that publish was called with, whatever the directory answers. -/
theorem originates_of_process {P : Primitives} (hP : P.Genuine)
    {w : Pydantic} (hw : w.Faithful) {call : Call} {event : Event}
    (hbuilt : call.event P = .ok event) {consumer : BusClient}
    {identity : Bytes} (hdrawn : IsIdentity identity)
    (hconsumer : consumer.encryptionKeypair =
      generateEncryptionKeypair P identity)
    (hvalid : ∀ j ∈ call.recipients, ValidRecipient P j)
    (hmem : Json.string consumer.encryptionKeypair.publicKey ∈ call.recipients)
    {identities : String → Except Exn (Option Bytes)} {drawn : Drawn}
    {msg : Msg} {world : World} {r : ReceivedEvent}
    (hdata : msg.data = event.toWire w)
    (hsubject : msg.subject = call.args.subject)
    (h : (consumer.process P w identities drawn msg world).1 = .ok r) :
    call.Originates r := by
  obtain ⟨log, hprocess⟩ :=
    process_quiet P w consumer identities drawn msg world
  rw [hprocess] at h
  obtain ⟨rfl, hevent, ciphertext, signature, _, _, hciphertext, hpayload,
    -⟩ := outcome_eq_ok.mp h
  rw [hdata, Event.fromWire_toWire hw] at hevent
  obtain ⟨c, _, _, hc, -, -, rfl⟩ := buildEvent_eq_ok.mp hbuilt
  have hevent := Except.ok.inj hevent
  have hne : call.recipients ≠ [] := List.ne_nil_of_mem hmem
  rw [encryptPayload, if_neg (by simpa using hne)] at hc
  rw [← hevent, b64decode_encode] at hciphertext
  obtain rfl := Except.ok.inj hciphertext
  rw [hconsumer] at hmem hpayload
  have hplain := (decrypt_encryptForRecipients hP hvalid hdrawn hmem hc).symm.trans
    hpayload
  rw [Call.Originates, ReceivedEvent.details, ← hevent]
  exact ⟨rfl, hsubject.symm, Except.ok.inj hplain, rfl, rfl, rfl⟩

/-! ## One order -/

/-- A tea under the id `o-1`. -/
def teaCall : Call where
  client := Sample.client
  recipients := Sample.recipients
  draws := Sample.draws
  now := 0
  args := orderCreated (teaDelivery "o-1").2.payload none

def teaDelivered : Delivered :=
  ⟨Sample.newYearText, (teaDelivery "o-1").2⟩

def teaRequest : OrderCreatedRequest :=
  ⟨Text.ofString "o-1", Text.ofString "tea", 1⟩

/-- The event of the answer. -/
def teaReply : ReceivedEvent where
  event := ⟨⟨{
      eventId := teaCall.eventId
      eventCreated := Sample.newYear
      eventType := "OrderPersisted"
      eventSchemaVersion := "1.0.0"
      sourceServiceId := Sample.client.serviceId
      correlationId := some teaCall.eventId },
    ⟨encryptionAlgorithm, []⟩, ""⟩⟩
  payload := encodeOrderPersisted (Text.ofString "o-1") Sample.newYearText
  msg := ⟨2, "events.orders.OrderPersisted", [], 1⟩

def returns (a : DbAct) : Except Exn a.Resp := .ok ()

/-- The request, the delivery of its order, and the reply. -/
def teaActs : List OrderFlowAct := [
  .post (teaDelivery "o-1").2.payload none true, .store 0 teaCall,
  .serve (.publishReturns 0), .serve (.register 0), .deliver teaDelivered,
  .answer 0 returns false teaCall, .answer 0 returns false teaCall,
  .fetch [teaReply], .serve .resolve, .serve (.resume 0)]

theorem teaDelivered_program : ∃ k k',
    handleDelivered teaDelivered = .call (.upsert teaRequest) k ∧
    k (.ok ()) = .call (.publish (orderPersisted teaRequest.orderId
      Sample.newYearText teaCall.eventId)) k' := by
  rw [handleDelivered, handleOrderCreated.eq_def,
    show decodeOrderCreated teaDelivered.event.payload = .ok teaRequest from
      teaDelivery_decodes (by decide)]
  exact ⟨_, _, rfl, rfl⟩

theorem ok_reply_persisted_tea : ∃ s,
    Run (step id) Carries {} teaActs s ∧
    s.api.phase 0 = some (.returned (.reply teaReply)) ∧
    ∃ call ∈ s.created, ∃ request occurredAt,
      StoredAs teaActs 0 call ∧ s.Committed id call request ∧
      (Response.reply teaReply).content =
        encodeOrderPersisted request.orderId occurredAt ∧
      ∀ call' ∈ s.created, call'.eventId = call.eventId → call' = call := by
  have hrun : ∃ s, Run (step id) Carries {} teaActs s ∧
      s.api.phase 0 = some (.returned (.reply teaReply)) := by
    obtain ⟨k, k', hupsert, hpublish⟩ := teaDelivered_program
    have hdelivered : teaCall.Originates teaDelivered.event :=
      ⟨rfl, rfl, rfl, rfl, rfl, rfl⟩
    refine ⟨_, .cons trivial rfl (.cons trivial rfl (.cons trivial rfl
      (.cons trivial rfl (.cons ⟨teaCall, List.mem_cons_self, hdelivered⟩ rfl
      (.cons nofun (answer_of_call (congrArg some
        (congrArg (Prod.mk teaDelivered) hupsert)))
      (.cons nofun (answer_of_call (congrArg some
        (congrArg (Prod.mk teaDelivered) hpublish)))
      (.cons ?_ rfl (.cons trivial rfl (.cons trivial rfl
        (.nil _)))))))))), rfl⟩
    intro event hevent
    rw [List.mem_singleton.mp hevent]
    exact ⟨_, List.mem_cons_self, rfl, rfl, rfl, rfl, rfl, rfl⟩
  obtain ⟨s, hrun, hphase⟩ := hrun
  exact ⟨s, hrun, hphase, ok_reply_persisted hrun hphase rfl⟩

end OrderFlow

end JetCore
