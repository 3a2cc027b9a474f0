import JetCore.Proofs.ReplyWait

/-!
# A reply that races the request

The watcher and `publish` run side by side, and nothing keeps the reply from
being fetched while the request is still on its way from the stream's answer to
`register`. A reply that is resolved then finds no entry and is acked for good.
As long as the watcher does not come to it before the request has registered,
the request is `Heading` for it: it has yet to register and the reply is still
next in line, or it is on track.
-/

namespace JetCore

open Lib

namespace RestApi

variable {s s' t : RestApi} {r : ℕ} {eventId : String} {payload : Bytes}
  {a : RestAct}

/-- Request `r` is on the way to its reply, or has yet to register for it. -/
def Heading (r : ℕ) (eventId : String) (payload : Bytes) (s : RestApi) :
    Prop :=
  OnTrack r eventId payload s ∨
  s.Before r eventId ∧ ∃ reply, firstReply eventId s.batch = some reply ∧
    reply.payload = payload

/-- A request that registers while the reply is next in line is on track. -/
theorem onTrack_register {reply : ReceivedEvent}
    (hphase : s.phase r = some (.published eventId))
    (hnext : firstReply eventId s.batch = some reply)
    (h : s.step (.register r) = some s') :
    OnTrack r eventId reply.payload s' := by
  obtain ⟨e, hold, rfl⟩ := step_register h
  cases hold.symm.trans hphase
  have hwait := phase_setPhase_acted hphase (s.pending.register eventId).2
    (.waiting eventId s.pending.futures.length .future)
  refine .inr ⟨⟨_, hwait⟩, fun f hwait' => ?_, fun _ => ⟨reply, hnext, rfl⟩⟩
  cases hwait.symm.trans hwait'
  exact .inl ⟨(s.pending.get?_register eventId eventId).trans (if_pos rfl),
    List.getElem?_concat_length⟩

theorem phase_of_request {waits : Bool} {phase : Phase}
    (h : s.requests[r]? = some ⟨waits, phase⟩) : s.phase r = some phase :=
  congrArg (Option.map Request.phase) h

theorem request_setPhase {waits : Bool} {old : Phase}
    (h : s.requests[r]? = some ⟨waits, old⟩) (new : Phase) :
    (s.setPhase r new).requests[r]? = some ⟨waits, new⟩ := by
  rw [setPhase, List.getElem?_modify]
  simp only [h, if_pos]
  rfl

/-- What a request that has yet to register can do. -/
theorem Before.act (hs : s.Before r eventId) (hreq : Requests r eventId s a)
    (h : s.step a = some s') (hact : a.request? = some r) :
    s'.Before r eventId ∨
    a = .register r ∧ s.phase r = some (.published eventId) := by
  obtain hnone | hreq' := hs
  · -- it has not arrived
    exfalso
    have hphase : s.phase r = none := congrArg (Option.map _) hnone
    obtain ⟨_, hold⟩ | ⟨_, hold, -⟩ | ⟨_, _, _, hold, -⟩ := act_phase h hact
    · cases hphase.symm.trans hold
    · cases hphase.symm.trans hold
    · cases hphase.symm.trans hold
  have hwaits : ∀ {waits phase}, s.requests[r]? = some ⟨waits, phase⟩ →
      waits = true := by
    intro waits phase heq
    obtain h | h | h := hreq' <;> cases heq.symm.trans h <;> rfl
  have hphase : s.phase r = some (.publishing none) ∨
      s.phase r = some (.publishing (some eventId)) ∨
      s.phase r = some (.published eventId) :=
    hreq'.imp phase_of_request (Or.imp phase_of_request phase_of_request)
  cases a with
  | arrive waits => cases hact
  | store r' e =>
      cases hact
      obtain ⟨hold, -, rfl⟩ := step_store h
      cases hreq rfl
      obtain ⟨⟨waits, _⟩, hq, rfl⟩ := Option.map_eq_some_iff.mp hold
      cases hwaits hq
      exact .inl (.inr (.inr (.inl (request_setPhase hq _))))
  | duplicate r' e =>
      cases hact
      obtain ⟨hold, -, rfl⟩ := step_duplicate h
      cases hreq rfl
      obtain ⟨⟨waits, _⟩, hq, rfl⟩ := Option.map_eq_some_iff.mp hold
      cases hwaits hq
      exact .inl (.inr (.inr (.inl (request_setPhase hq _))))
  | publishRaises r' => cases hact; exact absurd rfl hreq
  | publishReturns r' =>
      cases hact
      obtain ⟨waits, e, hq, rfl⟩ := step_publishReturns h
      cases hwaits hq
      have hpublishing := phase_of_request hq
      obtain hold | hold | hold := hphase
      · cases hold.symm.trans hpublishing
      · cases hold.symm.trans hpublishing
        exact .inl (.inr (.inr (.inr (request_setPhase hq _))))
      · cases hold.symm.trans hpublishing
  | register r' =>
      cases hact
      obtain ⟨e, hold, -⟩ := step_register h
      obtain hphase | hphase | hphase := hphase
      · cases hold.symm.trans hphase
      · cases hold.symm.trans hphase
      · exact .inr ⟨rfl, hphase⟩
  | deadline r' =>
      cases hact
      obtain ⟨_, _, hold, -⟩ := step_deadline h
      obtain hphase | hphase | hphase := hphase <;>
        cases hold.symm.trans hphase
  | cancel r' => cases hact; exact absurd rfl hreq
  | resume r' =>
      cases hact
      obtain ⟨_, _, _, _, hold, -⟩ := step_resume h
      obtain hphase | hphase | hphase := hphase <;>
        cases hold.symm.trans hphase
  | fetch events => cases hact
  | resolve => cases hact
  | ack => cases hact

theorem Before.other (hs : s.Before r eventId) (hreq : Requests r eventId s a)
    (h : s.step a = some s') (hact : a.request? ≠ some r) :
    s'.Before r eventId := by
  obtain hsame | ⟨waits, rfl, hlength, hnew⟩ := requests_step h hact
  · rw [Before, hsame]
    exact hs
  · cases hreq hlength.symm
    exact .inr (.inl hnew)

theorem Heading.step (hown : Owned s) (hs : Heading r eventId payload s)
    (hok : Unhurried r eventId payload s a) (h : s.step a = some s') :
    Heading r eventId payload s' := by
  obtain ⟨hundisturbed, hreq, hlate⟩ := hok
  obtain htrack | ⟨hbefore, reply, hnext, rfl⟩ := hs
  · exact .inl (htrack.step hown hundisturbed h)
  have hnext' := firstReply_kept h hnext fun hresolve =>
    hlate hresolve hbefore
  by_cases hact : a.request? = some r
  · obtain hbefore' | ⟨rfl, hpublished⟩ := hbefore.act hreq h hact
    · exact .inr ⟨hbefore', reply, hnext', rfl⟩
    · exact .inl (onTrack_register hpublished hnext h)
  · exact .inr ⟨hbefore.other hreq h hact, reply, hnext', rfl⟩

/-! ## Left to run, it returns -/

theorem OnTrack.unhurried (hs : OnTrack r eventId payload s)
    (hown : Own r a) : Unhurried r eventId payload s a := by
  refine ⟨hs.undisturbed hown, ?_, ?_⟩
  · obtain rfl | rfl | rfl := hown <;> trivial
  · rintro - hbefore
    -- a request on track has registered
    have hphase : (∃ f, s.phase r = some (.waiting eventId f .future)) ∨
        s.phase r = some (.returned ⟨200, payload⟩) :=
      hs.symm.imp And.left id
    obtain hnone | hq | hq | hq := hbefore
    · have hnone : s.phase r = none := congrArg (Option.map _) hnone
      obtain ⟨_, hphase⟩ | hphase := hphase <;> cases hnone.symm.trans hphase
    all_goals
      obtain ⟨_, hphase⟩ | hphase := hphase <;>
        cases (phase_of_request hq).symm.trans hphase

/-- The steps of a request up to its registration, none of which hurries. -/
theorem unhurried_of_own_act
    (ha : a = .duplicate r eventId ∨ a = .publishReturns r ∨ a = .register r) :
    Unhurried r eventId payload s a := by
  obtain rfl | rfl | rfl := ha
  · exact ⟨trivial, fun _ => rfl, nofun⟩
  · exact ⟨trivial, trivial, nofun⟩
  · exact ⟨fun hne => absurd rfl hne, trivial, nofun⟩

/-- A request that has arrived goes on to register. -/
theorem Before.registers {reply : ReceivedEvent} (hown : Owned s)
    (hs : s.Before r eventId) (harrived : r < s.requests.length)
    (hstored : eventId ∈ s.orders)
    (hnext : firstReply eventId s.batch = some reply) :
    ∃ as t, Run RestApi.step (Unhurried r eventId reply.payload) s as t ∧
      Owned t ∧ OnTrack r eventId reply.payload t := by
  -- from each phase on, the run from the next one is known
  have hpublished : ∀ {s : RestApi}, Owned s →
      s.requests[r]? = some ⟨true, .published eventId⟩ →
      firstReply eventId s.batch = some reply →
      ∃ as t, Run RestApi.step (Unhurried r eventId reply.payload) s as t ∧
        Owned t ∧ OnTrack r eventId reply.payload t := by
    intro s hown hq hnext
    have hphase := phase_of_request hq
    have hstep : s.step (.register r) = some
        ({ s with pending := (s.pending.register eventId).2 }.setPhase r
          (.waiting eventId s.pending.futures.length .future)) := by
      simp only [RestApi.step, hphase]
      rfl
    exact ⟨[.register r], _, .cons (unhurried_of_own_act (.inr (.inr rfl)))
      hstep (.nil _), hown.step hstep, onTrack_register hphase hnext hstep⟩
  have hpublishing : ∀ {s : RestApi}, Owned s →
      s.requests[r]? = some ⟨true, .publishing (some eventId)⟩ →
      firstReply eventId s.batch = some reply →
      ∃ as t, Run RestApi.step (Unhurried r eventId reply.payload) s as t ∧
        Owned t ∧ OnTrack r eventId reply.payload t := by
    intro s hown hq hnext
    have hstep : s.step (.publishReturns r) = some
        (s.setPhase r (.published eventId)) := by
      simp only [RestApi.step, hq]
      rfl
    obtain ⟨as, t, hrun, ht⟩ := hpublished (hown.step hstep)
      (request_setPhase hq _) hnext
    exact ⟨.publishReturns r :: as, t,
      .cons (unhurried_of_own_act (.inr (.inl rfl))) hstep hrun, ht⟩
  obtain hnone | hq | hq | hq := hs
  · exact absurd (List.getElem?_eq_none_iff.mp hnone) (Nat.not_le.mpr harrived)
  · have hstep : s.step (.duplicate r eventId) = some
        (s.setPhase r (.publishing (some eventId))) := by
      simp only [RestApi.step, phase_of_request hq, if_pos hstored]
    obtain ⟨as, t, hrun, ht⟩ := hpublishing (hown.step hstep)
      (request_setPhase hq _) hnext
    exact ⟨.duplicate r eventId :: as, t,
      .cons (unhurried_of_own_act (.inl rfl)) hstep hrun, ht⟩
  · exact hpublishing hown hq hnext
  · exact hpublished hown hq hnext

/-- A reply that is fetched once the order is stored and before the request's
deadline, and that the watcher does not come to before the request has
registered, is what the request returns. -/
theorem reply_not_early_returned {as bs : List RestAct}
    {events : List ReceivedEvent} {reply : ReceivedEvent}
    (hbefore : Run RestApi.step (Undisturbed r eventId reply.payload) {} as s)
    (hstored : eventId ∈ s.orders)
    (hrequest : s.Before r eventId ∨
      ∃ f, s.phase r = some (.waiting eventId f .future))
    (hfetch : s.step (.fetch events) = some s')
    (hreply : firstReply eventId events = some reply)
    (hafter : Run RestApi.step (Unhurried r eventId reply.payload) s' bs t) :
    (t.Before r eventId ∨
      (∃ f, t.phase r = some (.waiting eventId f .future)) ∨
      t.phase r = some (.returned (.reply reply))) ∧
    (r < t.requests.length →
      ∃ cs u, Run RestApi.step (Unhurried r eventId reply.payload) t cs u ∧
        u.phase r = some (.returned (.reply reply))) := by
  obtain ⟨hown, htracked⟩ := tracked_of_run hbefore
  obtain ⟨-, -, rfl⟩ := step_fetch hfetch
  have hs' : Heading r eventId reply.payload { s with batch := events } :=
    hrequest.symm.imp
      (fun hwait => .inr ⟨hwait, htracked, fun _ => ⟨reply, hreply, rfl⟩⟩)
      (fun hearly => ⟨hearly, reply, hreply, rfl⟩)
  obtain ⟨hownT, hstoredT, hT⟩ := hafter.invariant
    (I := fun s => Owned s ∧ eventId ∈ s.orders ∧
      Heading r eventId reply.payload s)
    (fun hs hok hst => ⟨hs.1.step hst, orders_step hst hs.2.1,
      hs.2.2.step hs.1 hok hst⟩)
    ⟨hown.step hfetch, hstored, hs'⟩
  obtain htrack | ⟨hearly, reply', hnext, hpayload⟩ := hT
  · exact ⟨.inr (htrack.symm.imp And.left id), fun _ =>
      htrack.returns (fun hs => hs.unhurried) rfl hownT⟩
  · refine ⟨.inl hearly, fun harrived => ?_⟩
    obtain ⟨cs, u, hrun, hownU, hU⟩ :=
      hearly.registers hownT harrived hstoredT hnext
    rw [hpayload] at hrun hU
    obtain ⟨ds, v, hrun', hreturned⟩ :=
      hU.returns (fun hs => hs.unhurried) rfl hownU
    exact ⟨cs ++ ds, v, hrun.append hrun', hreturned⟩

/-- The reply is fetched while the request's publish has not returned. -/
theorem reply_not_early_returned_publishing : ∃ s s',
    Run RestApi.step (Undisturbed 0 sampleId sampleReply.payload) {}
      [.arrive true, .store 0 sampleId] s ∧
    s.step (.fetch [sampleReply]) = some s' ∧
    (s'.Before 0 sampleId ∨
      (∃ f, s'.phase 0 = some (.waiting sampleId f .future)) ∨
      s'.phase 0 = some (.returned (.reply sampleReply))) ∧
    (0 < s'.requests.length →
      ∃ cs u, Run RestApi.step (Unhurried 0 sampleId sampleReply.payload) s' cs
        u ∧ u.phase 0 = some (.returned (.reply sampleReply))) := by
  have hbefore : Run RestApi.step (Undisturbed 0 sampleId sampleReply.payload)
      {} [.arrive true, .store 0 sampleId] _ :=
    .cons trivial rfl (.cons trivial rfl (.nil _))
  refine ⟨_, _, hbefore, rfl, ?_⟩
  exact reply_not_early_returned hbefore List.mem_cons_self
    (.inl (.inr (.inr (.inl rfl))))
    (show RestApi.step _ (.fetch [sampleReply]) = some _ from rfl) rfl (.nil _)

/-- One request alone. Its reply is fetched, resolved and acked before its
publish returns, and it runs into its deadline. -/
theorem early_reply_dropped : ∃ s s' t,
    Run RestApi.step always {} [.arrive true, .store 0 sampleId] s ∧
    sampleId ∈ s.orders ∧
    s.requests = [⟨true, .publishing (some sampleId)⟩] ∧
    s.step (.fetch [sampleReply]) = some s' ∧
    sampleReply.details.correlationId = some sampleId ∧
    Run RestApi.step always s' [.resolve, .ack, .publishReturns 0,
      .register 0, .deadline 0, .resume 0] t ∧
    t.phase 0 = some (.returned (.timeout sampleId)) := by
  refine ⟨_, _, _, exec_eq_some_iff.mp rfl, List.mem_cons_self, rfl, rfl, rfl,
    exec_eq_some_iff.mp rfl, rfl⟩

end RestApi

end JetCore
