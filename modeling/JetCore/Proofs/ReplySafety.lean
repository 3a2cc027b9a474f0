import JetCore.Proofs.ReplyWait

/-!
# No reply reaches the wrong request

What holds of the pending replies in every state of every run, with any number
of requests that share event ids, time out or are cancelled, and a watcher that
resolves whatever it fetches.

An entry always belongs to a request that waits (`Inflight`): a task removes
the entry of its event id in the same step in which it stops waiting. A future
that has its result keeps it, and has it from an event that carries the id of
the request that waits on it. With what the run has done so far at hand
(`Answered`), that id is the one the request's own publish returned.
-/

namespace JetCore

open Lib

namespace RestApi

variable {s s' t : RestApi} {a : RestAct} {as : List RestAct}

/-! ## Entries -/

/-- Every entry leads to the future of a request that waits under its key. -/
def Inflight (s : RestApi) : Prop :=
  ∀ c f, s.pending.pending.get? c = some f →
    ∃ r wake, s.phase r = some (.waiting c f wake)

/-- A request that waits goes on waiting on its future, or runs on. -/
theorem waiting_or_resume {r f : ℕ} {eventId : String} {wake : Wake}
    (h : s.step a = some s')
    (hphase : s.phase r = some (.waiting eventId f wake)) :
    (∃ wake', s'.phase r = some (.waiting eventId f wake')) ∨
      a = .resume r := by
  by_cases hact : a.request? = some r
  · obtain rfl | rfl | rfl := act_of_waiting h hphase hact
    · obtain ⟨e, f', hold, rfl⟩ := step_deadline h
      cases hold.symm.trans hphase
      exact .inl ⟨_, phase_setPhase_acted hold _ _⟩
    · obtain ⟨_, hold, -⟩ | ⟨e, f', _, hold, rfl⟩ := step_cancel h
      · cases hold.symm.trans hphase
      · cases hold.symm.trans hphase
        exact .inl ⟨_, phase_setPhase_acted hold _ _⟩
    · exact .inr rfl
  · exact .inl ⟨wake, phase_kept h hphase hact⟩

theorem Inflight.step (hs : Inflight s) (h : s.step a = some s') :
    Inflight s' := by
  intro c f hget
  obtain hold | ⟨r, rfl, hphase, rfl⟩ := entry_of_step h hget
  · obtain ⟨r, wake, hwait⟩ := hs c f hold
    obtain ⟨wake', hwait'⟩ | rfl := waiting_or_resume h hwait
    · exact ⟨r, wake', hwait'⟩
    · -- the request that runs on removes the entry
      obtain ⟨e, _, _, _, hphase, rfl, -⟩ := step_resume h
      cases hphase.symm.trans hwait
      have hnone := s.pending.get?_unregister c c
      rw [if_pos rfl] at hnone
      cases hget.symm.trans hnone
  · obtain ⟨e, hold, rfl⟩ := step_register h
    cases hold.symm.trans hphase
    exact ⟨r, .future, phase_setPhase_acted hold _ _⟩

/-! ## Results -/

/-- A future that has its result keeps it. -/
theorem result_kept {f : ℕ} {event : ReceivedEvent}
    (h : s.step a = some s')
    (hresult : s.pending.futures[f]? = some (.result event)) :
    s'.pending.futures[f]? = some (.result event) := by
  have hlt := (List.getElem?_eq_some_iff.mp hresult).1
  obtain hsame | ⟨hpending, -⟩ := future_step h hlt
  · exact hsame.trans hresult
  · cases hresult.symm.trans hpending

/-- The publish of request `r` returned `eventId`. -/
def PublishReturned (as : List RestAct) (r : ℕ) (eventId : String) : Prop :=
  ∃ before after m, as = before ++ .publishReturns r :: after ∧
    Run RestApi.step always {} before m ∧
    m.phase r = some (.publishing (some eventId))

/-- The watcher has fetched the event. -/
def Fetched (as : List RestAct) (event : ReceivedEvent) : Prop :=
  ∃ events, .fetch events ∈ as ∧ event ∈ events

theorem PublishReturned.snoc {r : ℕ} {eventId : String}
    (h : PublishReturned as r eventId) (a : RestAct) :
    PublishReturned (as ++ [a]) r eventId := by
  obtain ⟨before, after, m, rfl, hrun, hphase⟩ := h
  exact ⟨before, after ++ [a], m, by simp, hrun, hphase⟩

theorem Fetched.snoc {event : ReceivedEvent} (h : Fetched as event)
    (a : RestAct) : Fetched (as ++ [a]) event := by
  obtain ⟨events, hmem, hevent⟩ := h
  exact ⟨events, List.mem_append_left _ hmem, hevent⟩

/-- What the actions so far say of a state they lead to. -/
structure Traced (as : List RestAct) (s : RestApi) : Prop where
  batch : ∀ event ∈ s.batch, Fetched as event
  published : ∀ {r eventId}, s.phase r = some (.published eventId) →
    PublishReturned as r eventId
  waiting : ∀ {r eventId f wake},
    s.phase r = some (.waiting eventId f wake) → PublishReturned as r eventId
  result : ∀ {r eventId f wake event},
    s.phase r = some (.waiting eventId f wake) →
    s.pending.futures[f]? = some (.result event) →
    event.details.correlationId = some eventId ∧ Fetched as event
  replied : ∀ {r response}, s.phase r = some (.returned response) →
    response.statusCode = 200 → ∃ eventId event,
      response = .reply event ∧
      event.details.correlationId = some eventId ∧
      Fetched as event ∧ PublishReturned as r eventId

theorem traced_nil : Traced [] {} where
  batch := nofun
  published := nofun
  waiting := nofun
  result := nofun
  replied := nofun

/-- How a request comes to be in a phase: it was in it, or it has just moved
there. -/
theorem phase_step {r : ℕ} {new : Phase} (h : s.step a = some s')
    (hphase : s'.phase r = some new) :
    s.phase r = some new ∨ (∃ stored, new = .publishing stored) ∨
    (∃ waits eventId, a = .publishReturns r ∧
      s.phase r = some (.publishing (some eventId)) ∧
      new = afterPublish waits eventId) ∨
    (∃ eventId f wake, new = .waiting eventId f wake) ∨
    (∃ eventId f event, s.phase r = some (.waiting eventId f .future) ∧
      s.pending.futures[f]? = some (.result event) ∧
      new = .returned (.reply event)) ∨
    (∃ eventId, new = .returned (.timeout eventId)) ∨ new = .raised := by
  by_cases hact : a.request? = some r
  · cases a with
    | arrive waits => cases hact
    | store r' e =>
        cases hact
        obtain ⟨-, -, rfl⟩ := step_store h
        exact .inr (.inl ⟨_, eq_of_setPhase hphase⟩)
    | duplicate r' e =>
        cases hact
        obtain ⟨-, -, rfl⟩ := step_duplicate h
        exact .inr (.inl ⟨_, eq_of_setPhase hphase⟩)
    | publishRaises r' =>
        cases hact
        obtain ⟨-, rfl⟩ := step_publishRaises h
        simp [eq_of_setPhase hphase]
    | publishReturns r' =>
        cases hact
        obtain ⟨waits, e, hreq, rfl⟩ := step_publishReturns h
        exact .inr (.inr (.inl ⟨waits, e, rfl,
          congrArg (Option.map Request.phase) hreq, eq_of_setPhase hphase⟩))
    | register r' =>
        cases hact
        obtain ⟨e, -, rfl⟩ := step_register h
        exact .inr (.inr (.inr (.inl ⟨_, _, _, eq_of_setPhase hphase⟩)))
    | deadline r' =>
        cases hact
        obtain ⟨_, _, -, rfl⟩ := step_deadline h
        exact .inr (.inr (.inr (.inl ⟨_, _, _, eq_of_setPhase hphase⟩)))
    | cancel r' =>
        cases hact
        obtain ⟨_, -, rfl⟩ | ⟨_, _, _, -, rfl⟩ := step_cancel h
        · simp [eq_of_setPhase hphase]
        · exact .inr (.inr (.inr (.inl ⟨_, _, _, eq_of_setPhase hphase⟩)))
    | resume r' =>
        cases hact
        obtain ⟨e, f, _, _, hold, rfl, hnew⟩ := step_resume h
        obtain rfl := eq_of_setPhase hphase
        obtain ⟨rfl, event, hresult, rfl⟩ | ⟨-, rfl⟩ | ⟨-, rfl⟩ := hnew
        · exact .inr (.inr (.inr (.inr (.inl
            ⟨e, f, event, hold, hresult, rfl⟩))))
        · simp
        · simp
    | fetch events => cases hact
    | resolve => cases hact
    | ack => cases hact
  · obtain hsame | ⟨waits, -, -, hnew⟩ := requests_step h hact
    · rw [phase, hsame] at hphase
      exact .inl hphase
    · rw [phase, hnew] at hphase
      cases hphase
      exact .inr (.inl ⟨none, rfl⟩)

/-- Only a reply has status 200. -/
theorem statusCode_afterPublish {waits : Bool} {eventId : String}
    {response : Response} (h : afterPublish waits eventId = .returned response) :
    response.statusCode = 202 := by
  cases waits with
  | true => cases h
  | false =>
      cases h
      rfl

theorem Traced.step (hrun : Run RestApi.step always {} as s)
    (hs : Traced as s) (h : s.step a = some s') : Traced (as ++ [a]) s' := by
  have hown := Owned.of_run hrun
  refine ⟨?_, ?_, ?_, ?_, ?_⟩
  · intro event hevent
    obtain hsame | ⟨_, -, hbatch⟩ | ⟨events, rfl, -, hbatch⟩ := batch_step h
    · exact (hs.batch event (hsame ▸ hevent)).snoc a
    · exact (hs.batch event (hbatch ▸ List.mem_cons_of_mem _ hevent)).snoc a
    · exact ⟨events, List.mem_append_right _ List.mem_cons_self,
        hbatch ▸ hevent⟩
  · intro r eventId hphase
    obtain hold | ⟨_, heq⟩ | ⟨waits, e, rfl, hold, heq⟩ | ⟨_, _, _, heq⟩ |
      ⟨_, _, _, -, -, heq⟩ | ⟨_, heq⟩ | heq := phase_step h hphase
    · exact (hs.published hold).snoc a
    · cases heq
    · cases waits <;> cases heq
      exact ⟨as, [], s, rfl, hrun, hold⟩
    · cases heq
    · cases heq
    · cases heq
    · cases heq
  · intro r eventId f wake hwait
    obtain ⟨_, hold, -⟩ | ⟨-, hphase, -⟩ := waiting_step h hwait
    · exact (hs.waiting hold).snoc a
    · exact (hs.published hphase).snoc a
  · intro r eventId f wake event hwait hresult
    obtain ⟨wake', hold, -⟩ | ⟨rfl, -, rfl, -⟩ := waiting_step h hwait
    · obtain hsame | ⟨-, ⟨_, _, _, -, -, hcancelled⟩ |
          ⟨event', rest, c, rfl, hbatch, hc, hget, hset⟩⟩ :=
        future_step h (hown.future_lt hold)
      · obtain ⟨hc, hfetched⟩ := hs.result hold (hsame ▸ hresult)
        exact ⟨hc, hfetched.snoc a⟩
      · cases hcancelled.symm.trans hresult
      · cases hset.symm.trans hresult
        obtain rfl := hown.entry_id hget hold
        exact ⟨hc, (hs.batch event (hbatch ▸ List.mem_cons_self)).snoc _⟩
    · -- a future that has just been made is pending
      obtain ⟨e, -, rfl⟩ := step_register h
      have hpending : (s.pending.futures ++ [.pending])[
          s.pending.futures.length]? = some .pending :=
        List.getElem?_concat_length
      cases hpending.symm.trans hresult
  · intro r response hphase hstatus
    obtain hold | ⟨_, heq⟩ | ⟨waits, e, -, -, heq⟩ | ⟨_, _, _, heq⟩ |
      ⟨e, f, event, hwait, hresult, heq⟩ | ⟨_, heq⟩ | heq :=
        phase_step h hphase
    · obtain ⟨e, event, hresponse, hc, hfetched, hpublished⟩ :=
        hs.replied hold hstatus
      exact ⟨e, event, hresponse, hc, hfetched.snoc a, hpublished.snoc a⟩
    · cases heq
    · cases (statusCode_afterPublish heq.symm).symm.trans hstatus
    · cases heq
    · cases heq
      obtain ⟨hc, hfetched⟩ := hs.result hwait hresult
      exact ⟨e, event, rfl, hc, hfetched.snoc a, (hs.waiting hwait).snoc a⟩
    · cases heq
      cases hstatus
    · cases heq

theorem traced_of_run (h : Run RestApi.step always {} as s) : Traced as s :=
  h.history traced_nil fun hrun hs _ hst => hs.step hrun hst

theorem inflight_of_run (h : Run RestApi.step always {} as s) : Inflight s :=
  h.invariant (I := Inflight) (fun hs _ hst => Inflight.step hs hst) nofun

/-- In every state of every run: resolving never sets a result on a future that
is done. A response with status 200 carries the payload of an event the watcher
has fetched, whose correlation id is the event id the request's own publish
returned. A future that had its result at any earlier moment still has that
result. Every key is the event id of a request that is in flight, and so
without one there is no entry. -/
theorem reply_correlation_safe (h : Run RestApi.step always {} as s) :
    (∀ event, ∃ found p, s.pending.resolve event = .ok (found, p)) ∧
    (∀ r response, s.phase r = some (.returned response) →
      response.statusCode = 200 → ∃ eventId event,
        response.content = event.payload ∧
        event.details.correlationId = some eventId ∧
        Fetched as event ∧ PublishReturned as r eventId) ∧
    (∀ before after (m : RestApi) (f : ℕ) (event : ReceivedEvent),
      as = before ++ after →
      Run RestApi.step always {} before m → Run RestApi.step always m after s →
      m.pending.futures[f]? = some (FutureState.result event) →
      s.pending.futures[f]? = some (FutureState.result event)) ∧
    (∀ c ∈ s.pending.pending.keys, ∃ r f wake,
      s.phase r = some (.waiting c f wake)) ∧
    ((∀ r phase, s.phase r = some phase → phase.finished) →
      s.pending.pending.keys = []) := by
  have hkeys : ∀ c ∈ s.pending.pending.keys, ∃ r f wake,
      s.phase r = some (.waiting c f wake) := by
    intro c hc
    obtain ⟨f, hget⟩ := Dict.mem_keys.mp hc
    obtain ⟨r, wake, hwait⟩ := inflight_of_run h c f hget
    exact ⟨r, f, wake, hwait⟩
  refine ⟨?_, ?_, ?_, hkeys, ?_⟩
  · intro event
    obtain ⟨found, p, hresolve, -⟩ := s.pending.resolve_spec event
    exact ⟨found, p, hresolve⟩
  · intro r response hphase hstatus
    obtain ⟨eventId, event, rfl, hc, hfetched, hpublished⟩ :=
      (traced_of_run h).replied hphase hstatus
    exact ⟨eventId, event, rfl, hc, hfetched, hpublished⟩
  · intro before after m f event _ _ hafter hresult
    exact hafter.invariant
      (I := fun s => s.pending.futures[f]? = some (.result event))
      (fun hs _ hst => result_kept hst hs) hresult
  · intro hdone
    refine List.eq_nil_iff_forall_not_mem.mpr fun c hc => ?_
    obtain ⟨r, f, wake, hwait⟩ := hkeys c hc
    cases hdone r _ hwait

/-- A request that gets its reply: what it returned is the payload of a reply
to the id its publish returned. -/
theorem reply_correlation_safe_replied : ∃ s,
    Run RestApi.step always {} [.arrive true, .store 0 sampleId,
      .publishReturns 0, .register 0, .fetch [sampleReply], .resolve,
      .resume 0] s ∧
    s.phase 0 = some (.returned (.reply sampleReply)) ∧
    ∃ eventId event, (Response.reply sampleReply).content =
        ReceivedEvent.payload event ∧
      event.details.correlationId = some eventId ∧
      Fetched [.arrive true, .store 0 sampleId, .publishReturns 0,
        .register 0, .fetch [sampleReply], .resolve, .resume 0] event ∧
      PublishReturned [.arrive true, .store 0 sampleId, .publishReturns 0,
        .register 0, .fetch [sampleReply], .resolve, .resume 0] 0 eventId := by
  have hrun : Run RestApi.step always {} [.arrive true, .store 0 sampleId,
      .publishReturns 0, .register 0, .fetch [sampleReply], .resolve,
      .resume 0] _ := exec_eq_some_iff.mp rfl
  exact ⟨_, hrun, rfl, (reply_correlation_safe hrun).2.1 0 _ rfl rfl⟩

end RestApi

end JetCore
