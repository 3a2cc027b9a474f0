import JetCore.Spec.ReplyWait
import JetCore.Proofs.RestSteps
import JetCore.Proofs.Sample
import JetCore.Ref.DbAdapter

/-!
# Requests that wait for a reply

A request that has registered and is not disturbed holds the entry of its event
id until its future has its result (`Tracked`). Once the reply is fetched, the
request is on its way to it (`OnTrack`): each step leaves it so, and the
watcher and the request itself, left to run, bring it to the response with the
reply's payload. A request that is disturbed never gets there: `Lost` is what
it is from then on.
-/

namespace JetCore

open Lib

namespace RestApi

variable {s s' t : RestApi} {r : ℕ} {eventId : String} {payload : Bytes}
  {a : RestAct}

/-! ## The entry of a request that waits -/

/-- A waiting request holds the entry of its event id, or has its result. -/
def Tracked (r : ℕ) (eventId : String) (payload : Bytes) (s : RestApi) :
    Prop :=
  ∀ f, s.phase r = some (.waiting eventId f .future) →
    s.pending.pending.get? eventId = some f ∧
      s.pending.futures[f]? = some .pending ∨
    ∃ event, s.pending.futures[f]? = some (.result event) ∧
      event.payload = payload

/-- An undisturbed request that goes on waiting keeps its entry. -/
theorem entry_kept {f : ℕ} (hok : Undisturbed r eventId payload s a)
    (h : s.step a = some s')
    (hwait : s.phase r = some (.waiting eventId f .future))
    (hwait' : s'.phase r = some (.waiting eventId f .future))
    (hpending : s.pending.futures[f]? = some .pending)
    (hentry : s.pending.pending.get? eventId = some f) :
    s'.pending.pending.get? eventId = some f := by
  have hunanswered : s.Unanswered r eventId := ⟨f, hwait, hpending⟩
  obtain hsame | ⟨r', rfl, hphase, -⟩ | ⟨r', f', wake, rfl, hphase, -⟩ :=
    entry_step h eventId
  · rw [hsame, hentry]
  · -- another request registers over this one
    by_cases heq : r' = r
    · subst heq
      cases hphase.symm.trans hwait
    · exact absurd hunanswered (hok heq hphase)
  · -- another request leaves, or this one does
    by_cases heq : r' = r
    · subst heq
      obtain ⟨_, _, _, new, -, rfl, hnew⟩ := step_resume h
      have hne : new ≠ .waiting eventId f .future := by
        obtain ⟨-, _, -, rfl⟩ | ⟨-, rfl⟩ | ⟨-, rfl⟩ := hnew <;> nofun
      exact absurd rfl (waiting_of_setPhase hne hwait').1
    · exact absurd hunanswered (hok heq ⟨f', wake, hphase⟩)

theorem Tracked.step (hown : Owned s) (hs : Tracked r eventId payload s)
    (hok : Undisturbed r eventId payload s a) (h : s.step a = some s') :
    Tracked r eventId payload s' := by
  intro f hwait'
  obtain ⟨wake, hwait, hwake⟩ | ⟨rfl, -, rfl, -⟩ := waiting_step h hwait'
  · obtain rfl : wake = .future := hwake.resolve_right fun hne => hne rfl
    obtain ⟨hentry, hpending⟩ | ⟨event, hresult, hpayload⟩ := hs f hwait
    · obtain hsame | ⟨-, ⟨r', _, _, ha, hphase, -⟩ |
          ⟨event, rest, c, rfl, hbatch, hc, hget, hset⟩⟩ :=
        future_step h (hown.future_lt hwait)
      · exact .inl ⟨entry_kept hok h hwait hwait' hpending hentry,
          hsame.trans hpending⟩
      · -- the future is this request's, and so is the deadline
        obtain rfl := hown.own hphase hwait
        obtain rfl | rfl := ha
        · obtain ⟨_, _, -, rfl⟩ := step_deadline h
          exact absurd rfl (waiting_of_setPhase (by nofun) hwait').1
        · obtain ⟨_, -, rfl⟩ | ⟨_, _, _, -, rfl⟩ := step_cancel h
          · exact absurd rfl (waiting_of_setPhase (by nofun) hwait').1
          · exact absurd rfl (waiting_of_setPhase (by nofun) hwait').1
      · obtain rfl := hown.entry_id hget hwait
        exact .inr ⟨event, hset, hok ⟨f, hwait, hpending⟩ event
          (hbatch ▸ rfl) hc⟩
    · obtain hsame | ⟨hpending, -⟩ := future_step h (hown.future_lt hwait)
      · exact .inr ⟨event, hsame.trans hresult, hpayload⟩
      · cases hresult.symm.trans hpending
  · obtain ⟨e, hphase, rfl⟩ := step_register h
    rw [phase_setPhase, if_pos rfl] at hwait'
    obtain ⟨_, -, heq⟩ := Option.map_eq_some_iff.mp hwait'
    cases heq
    refine .inl ⟨(s.pending.get?_register eventId eventId).trans (if_pos rfl),
      ?_⟩
    exact List.getElem?_concat_length

/-- The two invariants of the runs that leave request `r` undisturbed. -/
theorem tracked_of_run {as : List RestAct}
    (h : Run RestApi.step (Undisturbed r eventId payload) {} as s) :
    Owned s ∧ Tracked r eventId payload s :=
  h.invariant (I := fun s => Owned s ∧ Tracked r eventId payload s)
    (fun hs hok hst => ⟨hs.1.step hst, hs.2.step hs.1 hok hst⟩)
    ⟨owned_nil, nofun⟩

/-! ## On the way to the reply -/

/-- Request `r` has returned the reply's payload, or waits for it with the
reply fetched or resolved. -/
def OnTrack (r : ℕ) (eventId : String) (payload : Bytes) (s : RestApi) :
    Prop :=
  s.phase r = some (.returned ⟨200, payload⟩) ∨
  (∃ f, s.phase r = some (.waiting eventId f .future)) ∧
    Tracked r eventId payload s ∧
    (s.Unanswered r eventId → ∃ reply,
      firstReply eventId s.batch = some reply ∧ reply.payload = payload)

theorem firstReply_cons (eventId : String) (event : ReceivedEvent)
    (rest : List ReceivedEvent) :
    firstReply eventId (event :: rest) =
      if event.details.correlationId = some eventId then some event
      else firstReply eventId rest := by
  rw [firstReply, List.find?_cons]
  split
  · next h => rw [if_pos (of_decide_eq_true h)]
  · next h => rw [if_neg (of_decide_eq_false h)]; rfl

/-- A reply that is resolved is the result of the future that holds the entry
of its correlation id. -/
theorem resolve_answers {f : ℕ} {event : ReceivedEvent}
    (h : s.step .resolve = some s')
    (hbatch : s.batch.head? = some event)
    (hc : event.details.correlationId = some eventId)
    (hentry : s.pending.pending.get? eventId = some f)
    (hpending : s.pending.futures[f]? = some .pending) :
    s'.pending.futures[f]? = some (.result event) := by
  obtain ⟨_, _, _, _, -, heq, hresolve, rfl, -⟩ := step_resolve h
  rw [heq] at hbatch
  cases hbatch
  obtain ⟨_, _, hspec, -, -, -, hset⟩ := s.pending.resolve_spec event
  cases hresolve.symm.trans hspec
  exact hset eventId f hc hentry hpending

/-- While the request waits unanswered, its reply stays next in line. -/
theorem firstReply_kept {reply : ReceivedEvent}
    (h : s.step a = some s')
    (hnext : firstReply eventId s.batch = some reply)
    (hkeep : a = .resolve → ∀ event, s.batch.head? = some event →
      event.details.correlationId ≠ some eventId) :
    firstReply eventId s'.batch = some reply := by
  obtain hsame | ⟨event, rfl, hbatch⟩ | ⟨_, -, hnil, -⟩ := batch_step h
  · rw [hsame, hnext]
  · have hne := hkeep rfl event (hbatch ▸ rfl)
    rw [hbatch, firstReply_cons, if_neg hne] at hnext
    exact hnext
  · rw [hnil] at hnext
    cases hnext

theorem OnTrack.step (hown : Owned s) (hs : OnTrack r eventId payload s)
    (hok : Undisturbed r eventId payload s a) (h : s.step a = some s') :
    OnTrack r eventId payload s' := by
  obtain hreturned | ⟨⟨f, hwait⟩, htracked, hdue⟩ := hs
  · exact .inl (finished_step rfl h hreturned)
  have hreply : s.ReplyDue r eventId := by
    obtain ⟨-, hpending⟩ | ⟨event, hresult, -⟩ := htracked f hwait
    · obtain ⟨reply, hnext, -⟩ := hdue ⟨f, hwait, hpending⟩
      exact .inl (hnext ▸ rfl)
    · exact .inr ⟨f, _, event, hwait, hresult⟩
  by_cases hact : a.request? = some r
  · obtain rfl | rfl | rfl := act_of_waiting h hwait hact
    · exact absurd hreply (hok rfl)
    · exact absurd hreply (hok rfl)
    · -- it runs on, and so its future has the result
      obtain ⟨_, _, _, new, hold, rfl, hnew⟩ := step_resume h
      cases hold.symm.trans hwait
      obtain ⟨-, event, hresult, rfl⟩ | ⟨hne, -⟩ | ⟨hne, -⟩ := hnew
      · obtain ⟨-, hpending⟩ | ⟨event', hresult', rfl⟩ := htracked f hwait
        · cases hresult.symm.trans hpending
        · cases hresult.symm.trans hresult'
          exact .inl (phase_setPhase_acted hold _ _)
      · cases hne
      · cases hne
  have hwait' := phase_kept h hwait hact
  refine .inr ⟨⟨f, hwait'⟩, htracked.step hown hok h, ?_⟩
  rintro ⟨f', hphase', hpending'⟩
  cases hwait'.symm.trans hphase'
  -- a future that is pending has been pending
  obtain ⟨hentry, hpending⟩ : s.pending.pending.get? eventId = some f ∧
      s.pending.futures[f]? = some .pending := by
    obtain hold | ⟨event, hresult, -⟩ := htracked f hwait
    · exact hold
    · obtain hsame | ⟨hpending, -⟩ := future_step h (hown.future_lt hwait)
      · cases (hsame.trans hresult).symm.trans hpending'
      · cases hresult.symm.trans hpending
  obtain ⟨reply, hnext, hpayload⟩ := hdue ⟨f, hwait, hpending⟩
  refine ⟨reply, firstReply_kept h hnext ?_, hpayload⟩
  rintro rfl event hhead hc
  cases (resolve_answers h hhead hc hentry hpending).symm.trans hpending'

/-! ## Left to run, it returns -/

/-- The steps of the watcher and of request `r` itself. -/
def Own (r : ℕ) (a : RestAct) : Prop := a = .resolve ∨ a = .ack ∨ a = .resume r

theorem OnTrack.undisturbed (hs : OnTrack r eventId payload s)
    (hown : Own r a) : Undisturbed r eventId payload s a := by
  obtain rfl | rfl | rfl := hown
  · rintro ⟨f, hphase, hpending⟩ event hhead hc
    obtain hreturned | ⟨-, -, hdue⟩ := hs
    · cases hreturned.symm.trans hphase
    · obtain ⟨reply, hnext, hpayload⟩ := hdue ⟨f, hphase, hpending⟩
      obtain ⟨rest, hbatch⟩ := List.head?_eq_some_iff.mp hhead
      rw [hbatch, firstReply_cons, if_pos hc] at hnext
      cases hnext
      exact hpayload
  · trivial
  · exact fun hne => absurd rfl hne

variable {ok : RestApi → RestAct → Prop}

/-- The watcher is done with the event whose ack it awaits. -/
theorem OnTrack.acked (hown : Owned s) (hs : OnTrack r eventId payload s)
    (hok : ∀ {s a}, OnTrack r eventId payload s → Own r a → ok s a) :
    ∃ as t, Run RestApi.step ok s as t ∧ Owned t ∧
      OnTrack r eventId payload t ∧ t.acking = none ∧ t.batch = s.batch := by
  cases hacking : s.acking with
  | none => exact ⟨[], s, .nil s, hown, hs, hacking, rfl⟩
  | some event =>
      have hack : s.step .ack = some { s with
          acking := none, acked := s.acked ++ [event.msg] } := by
        simp only [RestApi.step, hacking]
      refine ⟨[.ack], _, .cons (hok hs (.inr (.inl rfl))) hack (.nil _),
        hown.step hack, ?_, rfl, rfl⟩
      exact hs.step hown (hs.undisturbed (.inr (.inl rfl))) hack

/-- From wherever a request is on the way to its reply, the watcher and the
request itself get it there. -/
theorem OnTrack.returns
    (hok : ∀ {s a}, OnTrack r eventId payload s → Own r a → ok s a)
    {batch : List ReceivedEvent} : ∀ {s : RestApi}, s.batch = batch →
      Owned s → OnTrack r eventId payload s →
      ∃ as t, Run RestApi.step ok s as t ∧
        t.phase r = some (.returned ⟨200, payload⟩) := by
  induction batch with
  | nil =>
      intro s hbatch hown hs
      obtain hreturned | ⟨⟨f, hwait⟩, htracked, hdue⟩ := id hs
      · exact ⟨[], s, .nil s, hreturned⟩
      · obtain ⟨-, hpending⟩ | ⟨event, hresult, rfl⟩ := htracked f hwait
        · obtain ⟨reply, hnext, -⟩ := hdue ⟨f, hwait, hpending⟩
          rw [hbatch] at hnext
          cases hnext
        · obtain ⟨t, hstep, hreturned⟩ := resume_result hwait hresult
          exact ⟨[.resume r], t,
            .cons (hok hs (.inr (.inr rfl))) hstep (.nil t), hreturned⟩
  | cons event rest ih =>
      intro s hbatch hown hs
      obtain ⟨as, m, hrun, hown, hs, hacking, hsame⟩ := hs.acked hown hok
      obtain ⟨s', hstep, hrest⟩ := resolve_next hacking (hsame.trans hbatch)
      have hs' := hs.step hown (hs.undisturbed (.inl rfl)) hstep
      obtain ⟨bs, t, hrun', hreturned⟩ := ih hrest (hown.step hstep) hs'
      exact ⟨as ++ .resolve :: bs, t,
        hrun.append (.cons (hok hs (.inl rfl)) hstep hrun'), hreturned⟩

/-- A request that waits when the first reply to its event id is fetched, and
that is left undisturbed throughout, returns that reply's payload and nothing
else. -/
theorem fetched_reply_returned {as bs : List RestAct} {f : ℕ}
    {events : List ReceivedEvent} {reply : ReceivedEvent}
    (hbefore : Run RestApi.step (Undisturbed r eventId reply.payload) {} as s)
    (hwait : s.phase r = some (.waiting eventId f .future))
    (hfetch : s.step (.fetch events) = some s')
    (hreply : firstReply eventId events = some reply)
    (hafter : Run RestApi.step (Undisturbed r eventId reply.payload) s' bs t) :
    ((∃ f, t.phase r = some (.waiting eventId f .future)) ∨
      t.phase r = some (.returned (.reply reply))) ∧
    ∃ cs u, Run RestApi.step (Undisturbed r eventId reply.payload) t cs u ∧
      u.phase r = some (.returned (.reply reply)) := by
  obtain ⟨hown, htracked⟩ := tracked_of_run hbefore
  obtain ⟨-, -, rfl⟩ := step_fetch hfetch
  have hs' : OnTrack r eventId reply.payload { s with batch := events } :=
    .inr ⟨⟨f, hwait⟩, htracked, fun _ => ⟨reply, hreply, rfl⟩⟩
  obtain ⟨hownT, hT⟩ := hafter.invariant
    (I := fun s => Owned s ∧ OnTrack r eventId reply.payload s)
    (fun hs hok hst => ⟨hs.1.step hst, hs.2.step hs.1 hok hst⟩)
    ⟨hown.step hfetch, hs'⟩
  exact ⟨hT.symm.imp And.left id,
    hT.returns (fun hs => hs.undisturbed) rfl hownT⟩

/-- The event id of an order. -/
def sampleId : String := "019b76da-a800-7000-8000-000000000001"

/-- The write handler's answer to that order. -/
def sampleReply : ReceivedEvent where
  event := ⟨⟨{
      eventId := "019b76da-a801-7000-8000-000000000002"
      eventCreated := Sample.newYear
      eventType := "OrderPersisted"
      eventSchemaVersion := "1.0.0"
      sourceServiceId := Sample.client.serviceId
      correlationId := some sampleId },
    ⟨encryptionAlgorithm, []⟩, ""⟩⟩
  payload := encodeOrderPersisted (Text.ofString "o-1") "2026-01-01T00:00:00Z"
  msg := ⟨1, "events.orders.OrderPersisted", [], 1⟩

/-- One request alone, up to the fetch of its reply. -/
theorem fetched_reply_returned_alone : ∃ s s',
    Run RestApi.step (Undisturbed 0 sampleId sampleReply.payload) {}
      [.arrive true, .store 0 sampleId, .publishReturns 0, .register 0] s ∧
    s.step (.fetch [sampleReply]) = some s' ∧
    ((∃ f, s'.phase 0 = some (.waiting sampleId f .future)) ∨
      s'.phase 0 = some (.returned (.reply sampleReply))) ∧
    ∃ cs u, Run RestApi.step (Undisturbed 0 sampleId sampleReply.payload) s' cs
      u ∧ u.phase 0 = some (.returned (.reply sampleReply)) := by
  have hbefore : Run RestApi.step (Undisturbed 0 sampleId sampleReply.payload)
      {} [.arrive true, .store 0 sampleId, .publishReturns 0, .register 0]
      _ :=
    .cons trivial rfl (.cons trivial rfl (.cons trivial rfl
      (.cons (fun hne => absurd rfl hne) rfl (.nil _))))
  refine ⟨_, _, hbefore, rfl, ?_⟩
  exact fetched_reply_returned hbefore rfl
    (show RestApi.step _ (.fetch [sampleReply]) = some _ from rfl) rfl (.nil _)

/-! ## A request that is disturbed -/

/-- Request `r` gets no reply any more: no entry leads to its future, or it is
woken by something else, or it is done. -/
def Lost (r : ℕ) (s : RestApi) : Prop :=
  (∃ eventId f, s.phase r = some (.waiting eventId f .future) ∧
    s.pending.futures[f]? = some .pending ∧
    ∀ c, s.pending.pending.get? c ≠ some f) ∨
  (∃ eventId f wake, wake ≠ .future ∧
    s.phase r = some (.waiting eventId f wake)) ∨
  (∃ eventId, s.phase r = some (.returned (.timeout eventId))) ∨
  s.phase r = some .raised

theorem Lost.step (hown : Owned s) (hs : Lost r s)
    (h : s.step a = some s') : Lost r s' := by
  obtain ⟨eventId, f, hwait, hpending, hnone⟩ | ⟨eventId, f, wake, hne, hwait⟩ |
    ⟨eventId, hreturned⟩ | hraised := hs
  · by_cases hact : a.request? = some r
    · obtain rfl | rfl | rfl := act_of_waiting h hwait hact
      · obtain ⟨e, f', hold, rfl⟩ := step_deadline h
        exact .inr (.inl ⟨e, f', .timeout, nofun,
          phase_setPhase_acted hold _ _⟩)
      · obtain ⟨_, hold, -⟩ | ⟨e, f', _, hold, rfl⟩ := step_cancel h
        · cases hold.symm.trans hwait
        · refine .inr (.inl ⟨e, f', .cancelled, nofun, ?_⟩)
          rw [phase_setPhase, if_pos rfl]
          exact congrArg (Option.map _) hold
      · obtain ⟨_, _, _, _, hold, -, hnew⟩ := step_resume h
        cases hold.symm.trans hwait
        obtain ⟨-, _, hresult, -⟩ | ⟨heq, -⟩ | ⟨heq, -⟩ := hnew
        · cases hresult.symm.trans hpending
        · cases heq
        · cases heq
    · have hlt := hown.future_lt hwait
      have hother : ∀ {r' eventId wake}, (a = .deadline r' ∨ a = .cancel r') →
          s.phase r' ≠ some (.waiting eventId f wake) := by
        rintro r' _ _ (rfl | rfl) hphase
        · exact hact (hown.own hphase hwait ▸ rfl)
        · exact hact (hown.own hphase hwait ▸ rfl)
      refine .inl ⟨eventId, f, phase_kept h hwait hact, ?_, fun c hget => ?_⟩
      · obtain hsame | ⟨-, ⟨_, _, _, ha, hphase, -⟩ |
            ⟨_, _, c, _, _, _, hget, -⟩⟩ := future_step h hlt
        · exact hsame.trans hpending
        · exact absurd hphase (hother ha)
        · exact absurd hget (hnone c)
      · obtain hold | ⟨_, -, -, heq⟩ := entry_of_step h hget
        · exact hnone c hold
        · exact Nat.lt_irrefl _ (heq ▸ hlt)
  · by_cases hact : a.request? = some r
    · obtain rfl | rfl | rfl := act_of_waiting h hwait hact
      · obtain ⟨_, _, hold, -⟩ := step_deadline h
        cases hold.symm.trans hwait
        exact absurd rfl hne
      · obtain ⟨_, hold, -⟩ | ⟨e, f', _, hold, rfl⟩ := step_cancel h
        · cases hold.symm.trans hwait
        · refine .inr (.inl ⟨e, f', .cancelled, nofun, ?_⟩)
          rw [phase_setPhase, if_pos rfl]
          exact congrArg (Option.map _) hold
      · obtain ⟨_, _, _, new, hold, rfl, hnew⟩ := step_resume h
        cases hold.symm.trans hwait
        obtain ⟨heq, -⟩ | ⟨-, rfl⟩ | ⟨-, rfl⟩ := hnew
        · exact absurd heq hne
        · exact .inr (.inr (.inl ⟨_, phase_setPhase_acted hold _ _⟩))
        · exact .inr (.inr (.inr (phase_setPhase_acted hold _ _)))
    · exact .inr (.inl ⟨eventId, f, wake, hne, phase_kept h hwait hact⟩)
  · exact .inr (.inr (.inl ⟨eventId, finished_step rfl h hreturned⟩))
  · exact .inr (.inr (.inr (finished_step rfl h hraised)))

/-- Whoever registers or unregisters under the event id of a request that waits
unanswered leaves it without a reply for good. -/
theorem lost_of_disturbed {as bs : List RestAct} {r' : ℕ}
    (hbefore : Run RestApi.step ok {} as s)
    (hwait : s.Unanswered r eventId) (hne : r' ≠ r)
    (hother : a = .register r' ∧ s.phase r' = some (.published eventId) ∨
      ∃ f wake, a = .resume r' ∧
        s.phase r' = some (.waiting eventId f wake))
    (h : s.step a = some s') (hafter : Run RestApi.step ok s' bs t) :
    Lost r t ∧ ∀ event, t.phase r ≠ some (.returned (.reply event)) := by
  have hown := Owned.of_run hbefore
  obtain ⟨f, hphase, hpending⟩ := hwait
  have hlt := hown.future_lt hphase
  have hact : a.request? ≠ some r := by
    obtain ⟨rfl, -⟩ | ⟨_, _, rfl, -⟩ := hother
    · exact fun heq => hne (Option.some.inj heq)
    · exact fun heq => hne (Option.some.inj heq)
  have hentry : ∀ c, s'.pending.pending.get? c ≠ some f := by
    intro c hget
    obtain hold | ⟨_, -, -, heq⟩ := entry_of_step h hget
    · -- the entry of before is the one that was replaced or removed
      obtain rfl := hown.entry_id hold hphase
      obtain ⟨rfl, hpublished⟩ | ⟨_, _, rfl, hwaiting⟩ := hother
      · obtain ⟨e, hpublished', rfl⟩ := step_register h
        cases hpublished.symm.trans hpublished'
        have hnew := s.pending.get?_register eventId eventId
        rw [if_pos rfl] at hnew
        exact Nat.ne_of_lt hlt (Option.some.inj (hget.symm.trans hnew))
      · obtain ⟨e, _, _, _, hwaiting', rfl, -⟩ := step_resume h
        cases hwaiting.symm.trans hwaiting'
        have hnone := s.pending.get?_unregister eventId eventId
        rw [if_pos rfl] at hnone
        cases hget.symm.trans hnone
    · exact Nat.lt_irrefl _ (heq ▸ hlt)
  have hpending' : s'.pending.futures[f]? = some .pending := by
    obtain hsame | ⟨-, ⟨_, _, _, ha, -⟩ | ⟨_, _, _, ha, -⟩⟩ :=
      future_step h hlt
    · exact hsame.trans hpending
    · obtain ⟨rfl, -⟩ | ⟨_, _, rfl, -⟩ := hother <;> rcases ha with ha | ha <;>
        cases ha
    · obtain ⟨rfl, -⟩ | ⟨_, _, rfl, -⟩ := hother <;> cases ha
  obtain ⟨-, hlost⟩ := hafter.invariant (I := fun s => Owned s ∧ Lost r s)
    (fun hs _ hst => ⟨hs.1.step hst, hs.2.step hs.1 hst⟩)
    ⟨hown.step h, .inl ⟨eventId, f, phase_kept h hphase hact, hpending',
      hentry⟩⟩
  refine ⟨hlost, fun event hreturned => ?_⟩
  obtain ⟨_, _, hold, -⟩ | ⟨_, _, _, -, hold⟩ | ⟨_, hold⟩ | hold := hlost
  · cases hold.symm.trans hreturned
  · cases hold.symm.trans hreturned
  · cases congrArg Response.statusCode
      (Phase.returned.inj (Option.some.inj (hold.symm.trans hreturned)))
  · cases hold.symm.trans hreturned

/-- Two requests hold one event id, the second a retry of the first. Both wait
when the reply is fetched; the second gets it, and the first, whose entry the
second has taken over, runs into its deadline. -/
theorem retry_takes_reply : ∃ s s' t,
    Run RestApi.step always {} [.arrive true, .store 0 sampleId,
      .publishReturns 0, .register 0, .arrive true, .duplicate 1 sampleId,
      .publishReturns 1, .register 1] s ∧
    s.phase 0 = some (.waiting sampleId 0 .future) ∧
    s.phase 1 = some (.waiting sampleId 1 .future) ∧
    s.step (.fetch [sampleReply]) = some s' ∧
    sampleReply.details.correlationId = some sampleId ∧
    Run RestApi.step always s'
      [.resolve, .ack, .resume 1, .deadline 0, .resume 0] t ∧
    t.phase 1 = some (.returned (.reply sampleReply)) ∧
    t.phase 0 = some (.returned (.timeout sampleId)) := by
  refine ⟨_, _, _, exec_eq_some_iff.mp rfl, rfl, rfl, rfl, rfl,
    exec_eq_some_iff.mp rfl, rfl, rfl⟩

end RestApi

end JetCore
