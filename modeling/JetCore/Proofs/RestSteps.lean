import JetCore.Lib.Run
import JetCore.Ref.RestApi

/-!
# What each step of the REST service can do

One lemma for each kind of step says what it needs and what it leaves, so that
no invariant has to look into `step` again. `PendingReplies.resolve` has its
own, `resolve_spec`: it never raises, and the one future it may touch is the
one registered under the event's correlation id, if that is pending.

`Owned` is the invariant all others need: a future belongs to one request, and
an entry that leads to a waiting request's future stands under that request's
event id.
-/

namespace JetCore

open Lib

/-! ## Pending replies -/

namespace PendingReplies

variable {p p' : PendingReplies}

theorem get?_register (p : PendingReplies) (id c : String) :
    (p.register id).2.pending.get? c =
      if c = id then some p.futures.length else p.pending.get? c :=
  Dict.get?_set _ _ _ _

theorem get?_unregister (p : PendingReplies) (id c : String) :
    (p.unregister id).pending.get? c =
      if c = id then none else p.pending.get? c :=
  Dict.get?_pop _ _ _

theorem pending_cancel (p : PendingReplies) (f : ℕ) :
    (p.cancel f).pending = p.pending := by
  rw [cancel]
  split <;> rfl

theorem length_cancel (p : PendingReplies) (f : ℕ) :
    (p.cancel f).futures.length = p.futures.length := by
  rw [cancel]
  split
  · rfl
  · exact List.length_set

theorem done_eq_false {f : ℕ} :
    p.done f = false ↔ p.futures[f]? = some .pending := by
  rw [done, decide_eq_false_iff_not, not_not]

/-- `cancel` changes at most the future it is given, and only from pending. -/
theorem futures_cancel (p : PendingReplies) (f f' : ℕ) :
    (p.cancel f).futures[f']? = p.futures[f']? ∨
      f' = f ∧ p.futures[f']? = some .pending ∧
        (p.cancel f).futures[f']? = some .cancelled := by
  rw [cancel]
  split
  · exact .inl rfl
  · next hdone =>
      by_cases heq : f' = f
      · subst heq
        rw [Bool.not_eq_true] at hdone
        have hpending := done_eq_false.mp hdone
        exact .inr ⟨rfl, hpending, List.getElem?_set_self
          (List.getElem?_eq_some_iff.mp hpending).1⟩
      · exact .inl (List.getElem?_set_ne (Ne.symm heq))

/-- `resolve` answers, keeps every entry, and changes at most the one future
that is registered under the event's correlation id and pending. -/
theorem resolve_spec (p : PendingReplies) (event : ReceivedEvent) :
    ∃ found p', p.resolve event = .ok (found, p') ∧ p'.pending = p.pending ∧
      p'.futures.length = p.futures.length ∧
      (∀ f, p'.futures[f]? = p.futures[f]? ∨
        p.futures[f]? = some .pending ∧
        p'.futures[f]? = some (.result event) ∧
        ∃ c, event.details.correlationId = some c ∧
          p.pending.get? c = some f) ∧
      ∀ c f, event.details.correlationId = some c →
        p.pending.get? c = some f → p.futures[f]? = some .pending →
        p'.futures[f]? = some (.result event) := by
  rw [resolve]
  split
  · next hnone =>
      refine ⟨_, _, rfl, rfl, rfl, fun f => .inl rfl, fun c f hc => ?_⟩
      cases hnone.symm.trans hc
  · next c hc =>
      split
      · next hentry =>
          refine ⟨_, _, rfl, rfl, rfl, fun f => .inl rfl, fun c' f hc' hf => ?_⟩
          obtain rfl := Option.some.inj (hc.symm.trans hc')
          cases hentry.symm.trans hf
      · next f hf =>
          split
          · next hdone =>
              refine ⟨_, _, rfl, rfl, rfl, fun f => .inl rfl,
                fun c' f' hc' hf' hpending => ?_⟩
              obtain rfl := Option.some.inj (hc.symm.trans hc')
              obtain rfl := Option.some.inj (hf.symm.trans hf')
              cases hdone.symm.trans (done_eq_false.mpr hpending)
          · next hdone =>
              rw [Bool.not_eq_true] at hdone
              have hpending := done_eq_false.mp hdone
              have hlt := (List.getElem?_eq_some_iff.mp hpending).1
              rw [setResult, hdone]
              refine ⟨_, _, rfl, rfl, List.length_set, fun f' => ?_,
                fun c' f' hc' hf' _ => ?_⟩
              · by_cases hne : f = f'
                · subst hne
                  exact .inr ⟨hpending, List.getElem?_set_self hlt, c, hc, hf⟩
                · exact .inl (List.getElem?_set_ne hne)
              · obtain rfl := Option.some.inj (hc.symm.trans hc')
                obtain rfl := Option.some.inj (hf.symm.trans hf')
                exact List.getElem?_set_self hlt

end PendingReplies

/-- The request a step is one of, if it is a request's. -/
def RestAct.request? : RestAct → Option ℕ
  | .store r _ | .duplicate r _ | .publishRaises r | .publishReturns r
  | .register r | .deadline r | .cancel r | .resume r => some r
  | .arrive _ | .fetch _ | .resolve | .ack => none

/-- The event id of the order a step stores. -/
def RestAct.stores : RestAct → List String
  | .store _ eventId => [eventId]
  | _ => []

/-- The request is no longer in flight. -/
def Phase.finished : Phase → Bool
  | .returned _ | .raised => true
  | .publishing _ | .published _ | .waiting _ _ _ => false

/-! ## Phases -/

namespace RestApi

variable {s s' : RestApi} {r r' : ℕ}

theorem phase_setPhase (s : RestApi) (r r' : ℕ) (phase : Phase) :
    (s.setPhase r phase).phase r' =
      if r = r' then (s.phase r').map fun _ => phase else s.phase r' := by
  rw [RestApi.phase, RestApi.phase, setPhase]
  simp only [List.getElem?_modify, Option.map_map]
  split
  · cases s.requests[r']? <;> rfl
  · cases s.requests[r']? <;> rfl

theorem phase_setPhase_self {old : Phase} (h : s.phase r = some old)
    (new : Phase) : (s.setPhase r new).phase r = some new := by
  rw [phase_setPhase, if_pos rfl, h]
  rfl

/-- A phase is the one that was set, or was there before. -/
theorem phase_of_setPhase {new phase : Phase}
    (h : (s.setPhase r new).phase r' = some phase) :
    r = r' ∧ new = phase ∨ r ≠ r' ∧ s.phase r' = some phase := by
  rw [phase_setPhase] at h
  split at h
  · next heq =>
      obtain ⟨_, -, hnew⟩ := Option.map_eq_some_iff.mp h
      exact .inl ⟨heq, hnew⟩
  · next hne => exact .inr ⟨hne, h⟩

theorem eq_of_setPhase {new new' : Phase}
    (h : (s.setPhase r new).phase r = some new') : new' = new := by
  rcases phase_of_setPhase h with ⟨-, heq⟩ | ⟨hne, -⟩
  · exact heq.symm
  · exact absurd rfl hne

/-- The same where the step changes the pending replies too. -/
theorem phase_setPhase_acted {old : Phase} (h : s.phase r = some old)
    (p : PendingReplies) (new : Phase) :
    ({ s with pending := p }.setPhase r new).phase r = some new :=
  phase_setPhase_self (s := { s with pending := p }) h new

theorem requests_setPhase_of_ne (s : RestApi) {r r' : ℕ} (phase : Phase)
    (hne : r ≠ r') :
    (s.setPhase r phase).requests[r']? = s.requests[r']? := by
  rw [setPhase, List.getElem?_modify]
  simp only [if_neg hne]
  cases s.requests[r']? <;> rfl

/-- A request whose phase becomes one that waits for nothing. -/
theorem waiting_of_setPhase {new : Phase} {eventId : String} {f : ℕ}
    {wake : Wake} (hnew : new ≠ .waiting eventId f wake)
    (h : (s.setPhase r new).phase r' = some (.waiting eventId f wake)) :
    r ≠ r' ∧ s.phase r' = some (.waiting eventId f wake) :=
  (phase_of_setPhase h).resolve_left fun hset => hnew hset.2

/-! ## What a step needs and leaves -/

variable {a : RestAct} {eventId : String}

theorem step_store (h : s.step (.store r eventId) = some s') :
    s.phase r = some (.publishing none) ∧ eventId ∉ s.orders ∧
      s' = { s with orders := s.orders ++ [eventId] }.setPhase r
        (.publishing (some eventId)) := by
  simp only [step] at h
  split at h
  · next hphase =>
      split at h
      · cases h
      · next hnew => exact ⟨hphase, hnew, (Option.some.inj h).symm⟩
  · cases h

theorem step_duplicate (h : s.step (.duplicate r eventId) = some s') :
    s.phase r = some (.publishing none) ∧ eventId ∈ s.orders ∧
      s' = s.setPhase r (.publishing (some eventId)) := by
  simp only [step] at h
  split at h
  · next hphase =>
      split at h
      · next hmem => exact ⟨hphase, hmem, (Option.some.inj h).symm⟩
      · cases h
  · cases h

theorem step_publishRaises (h : s.step (.publishRaises r) = some s') :
    (∃ stored, s.phase r = some (.publishing stored)) ∧
      s' = s.setPhase r .raised := by
  simp only [step] at h
  split at h
  · next hphase => exact ⟨⟨_, hphase⟩, (Option.some.inj h).symm⟩
  · cases h

theorem step_publishReturns (h : s.step (.publishReturns r) = some s') :
    ∃ waits eventId,
      s.requests[r]? = some ⟨waits, .publishing (some eventId)⟩ ∧
      s' = s.setPhase r (afterPublish waits eventId) := by
  simp only [step] at h
  split at h
  · next hreq => exact ⟨_, _, hreq, (Option.some.inj h).symm⟩
  · cases h

theorem step_register (h : s.step (.register r) = some s') :
    ∃ eventId, s.phase r = some (.published eventId) ∧
      s' = { s with pending := (s.pending.register eventId).2 }.setPhase r
        (.waiting eventId s.pending.futures.length .future) := by
  simp only [step] at h
  split at h
  · next hphase => exact ⟨_, hphase, (Option.some.inj h).symm⟩
  · cases h

theorem step_deadline (h : s.step (.deadline r) = some s') :
    ∃ eventId f, s.phase r = some (.waiting eventId f .future) ∧
      s' = { s with pending := s.pending.cancel f }.setPhase r
        (.waiting eventId f .timeout) := by
  simp only [step] at h
  split at h
  · next hphase => exact ⟨_, _, hphase, (Option.some.inj h).symm⟩
  · cases h

theorem step_cancel (h : s.step (.cancel r) = some s') :
    (∃ stored, s.phase r = some (.publishing stored) ∧
      s' = s.setPhase r .raised) ∨
    ∃ eventId f wake, s.phase r = some (.waiting eventId f wake) ∧
      s' = { s with pending := s.pending.cancel f }.setPhase r
        (.waiting eventId f .cancelled) := by
  simp only [step] at h
  split at h
  · next hphase => exact .inl ⟨_, hphase, (Option.some.inj h).symm⟩
  · next hphase => exact .inr ⟨_, _, _, hphase, (Option.some.inj h).symm⟩
  · cases h

/-- What a task does with the way it was woken. -/
theorem step_resume (h : s.step (.resume r) = some s') :
    ∃ eventId f wake new, s.phase r = some (.waiting eventId f wake) ∧
      s' = { s with pending := s.pending.unregister eventId }.setPhase r new ∧
      (wake = .future ∧ (∃ event, s.pending.futures[f]? =
          some (.result event) ∧ new = .returned (.reply event)) ∨
        wake = .timeout ∧ new = .returned (.timeout eventId) ∨
        wake = .cancelled ∧ new = .raised) := by
  simp only [step] at h
  split at h
  · next eventId f wake hphase =>
      refine ⟨eventId, f, wake, ?_⟩
      cases wake with
      | future =>
          simp only [afterWait] at h
          split at h
          · next event hresult =>
              exact ⟨_, hphase, (Option.some.inj h).symm,
                .inl ⟨rfl, event, hresult, rfl⟩⟩
          · cases h
      | timeout =>
          exact ⟨_, hphase, (Option.some.inj h).symm, .inr (.inl ⟨rfl, rfl⟩)⟩
      | cancelled =>
          exact ⟨_, hphase, (Option.some.inj h).symm, .inr (.inr ⟨rfl, rfl⟩)⟩
  · cases h

theorem step_fetch {events : List ReceivedEvent}
    (h : s.step (.fetch events) = some s') :
    s.batch = [] ∧ s.acking = none ∧ s' = { s with batch := events } := by
  simp only [step] at h
  split at h
  · next hidle => exact ⟨hidle.1, hidle.2, (Option.some.inj h).symm⟩
  · cases h

theorem step_resolve (h : s.step .resolve = some s') :
    ∃ event rest found p, s.acking = none ∧ s.batch = event :: rest ∧
      s.pending.resolve event = .ok (found, p) ∧
      s'.pending = p ∧ s'.requests = s.requests ∧ s'.orders = s.orders ∧
      s'.batch = rest := by
  simp only [step] at h
  split at h
  · next event rest hacking hbatch =>
      rw [resolveNext] at h
      split at h
      · cases h
      · next found p hresolve =>
          cases h
          exact ⟨event, rest, found, p, hacking, hbatch, hresolve, rfl, rfl,
            rfl, rfl⟩
  · cases h

theorem step_ack (h : s.step .ack = some s') :
    ∃ event, s.acking = some event ∧
      s' = { s with acking := none, acked := s.acked ++ [event.msg] } := by
  simp only [step] at h
  split at h
  · next event hacking => exact ⟨event, hacking, (Option.some.inj h).symm⟩
  · cases h

theorem step_arrive {waits : Bool} (h : s.step (.arrive waits) = some s') :
    s' = { s with requests := s.requests ++ [⟨waits, .publishing none⟩] } :=
  (Option.some.inj h).symm

/-! ## What a step does to one part of the state -/

/-- A request that waits after a step has waited before it, and only a
deadline or a cancellation has changed what wakes it; or it has registered. -/
theorem waiting_step {f : ℕ} {wake : Wake} (h : s.step a = some s')
    (hwait : s'.phase r = some (.waiting eventId f wake)) :
    (∃ wake', s.phase r = some (.waiting eventId f wake') ∧
      (wake' = wake ∨ wake ≠ .future)) ∨
    a = .register r ∧ s.phase r = some (.published eventId) ∧
      f = s.pending.futures.length ∧ wake = .future := by
  cases a with
  | arrive waits =>
      cases step_arrive h
      rw [phase, List.getElem?_append] at hwait
      split at hwait
      · exact .inl ⟨wake, hwait, .inl rfl⟩
      · obtain ⟨q, hq, hphase⟩ := Option.map_eq_some_iff.mp hwait
        obtain rfl := List.mem_singleton.mp (List.mem_of_getElem? hq)
        cases hphase
  | store r' e =>
      obtain ⟨-, -, rfl⟩ := step_store h
      exact .inl ⟨wake, (waiting_of_setPhase (by nofun) hwait).2, .inl rfl⟩
  | duplicate r' e =>
      obtain ⟨-, -, rfl⟩ := step_duplicate h
      exact .inl ⟨wake, (waiting_of_setPhase (by nofun) hwait).2, .inl rfl⟩
  | publishRaises r' =>
      obtain ⟨-, rfl⟩ := step_publishRaises h
      exact .inl ⟨wake, (waiting_of_setPhase (by nofun) hwait).2, .inl rfl⟩
  | publishReturns r' =>
      obtain ⟨waits, e, -, rfl⟩ := step_publishReturns h
      have hnew : afterPublish waits e ≠ .waiting eventId f wake := by
        cases waits <;> nofun
      exact .inl ⟨wake, (waiting_of_setPhase hnew hwait).2, .inl rfl⟩
  | register r' =>
      obtain ⟨e, hphase, rfl⟩ := step_register h
      rcases phase_of_setPhase hwait with ⟨rfl, heq⟩ | ⟨-, hold⟩
      · cases heq
        exact .inr ⟨rfl, hphase, rfl, rfl⟩
      · exact .inl ⟨wake, hold, .inl rfl⟩
  | deadline r' =>
      obtain ⟨e, f', hphase, rfl⟩ := step_deadline h
      rcases phase_of_setPhase hwait with ⟨rfl, heq⟩ | ⟨-, hold⟩
      · cases heq
        exact .inl ⟨_, hphase, .inr nofun⟩
      · exact .inl ⟨wake, hold, .inl rfl⟩
  | cancel r' =>
      obtain ⟨_, -, rfl⟩ | ⟨e, f', wake', hphase, rfl⟩ := step_cancel h
      · exact .inl ⟨wake, (waiting_of_setPhase (by nofun) hwait).2, .inl rfl⟩
      · rcases phase_of_setPhase hwait with ⟨rfl, heq⟩ | ⟨-, hold⟩
        · cases heq
          exact .inl ⟨_, hphase, .inr nofun⟩
        · exact .inl ⟨wake, hold, .inl rfl⟩
  | resume r' =>
      obtain ⟨e, f', wake', new, -, rfl, hnew⟩ := step_resume h
      have hne : new ≠ .waiting eventId f wake := by
        obtain ⟨-, _, -, rfl⟩ | ⟨-, rfl⟩ | ⟨-, rfl⟩ := hnew <;> nofun
      exact .inl ⟨wake, (waiting_of_setPhase hne hwait).2, .inl rfl⟩
  | fetch events =>
      obtain ⟨-, -, rfl⟩ := step_fetch h
      exact .inl ⟨wake, hwait, .inl rfl⟩
  | resolve =>
      obtain ⟨_, _, _, _, -, -, -, -, hrequests, -⟩ := step_resolve h
      rw [phase, hrequests] at hwait
      exact .inl ⟨wake, hwait, .inl rfl⟩
  | ack =>
      obtain ⟨_, -, rfl⟩ := step_ack h
      exact .inl ⟨wake, hwait, .inl rfl⟩

/-- The entries after a step: those of before, less the one a task has
unregistered, and the one a task has registered. -/
theorem entry_step (h : s.step a = some s') (c : String) :
    s'.pending.pending.get? c = s.pending.pending.get? c ∨
    (∃ r, a = .register r ∧ s.phase r = some (.published c) ∧
      s'.pending.pending.get? c = some s.pending.futures.length) ∨
    ∃ r f wake, a = .resume r ∧ s.phase r = some (.waiting c f wake) ∧
      s'.pending.pending.get? c = none := by
  cases a with
  | arrive waits => cases step_arrive h; exact .inl rfl
  | store r e => obtain ⟨-, -, rfl⟩ := step_store h; exact .inl rfl
  | duplicate r e => obtain ⟨-, -, rfl⟩ := step_duplicate h; exact .inl rfl
  | publishRaises r => obtain ⟨-, rfl⟩ := step_publishRaises h; exact .inl rfl
  | publishReturns r =>
      obtain ⟨_, _, -, rfl⟩ := step_publishReturns h
      exact .inl rfl
  | register r =>
      obtain ⟨e, hphase, rfl⟩ := step_register h
      have hget := s.pending.get?_register e c
      split at hget
      · next heq =>
          subst heq
          exact .inr (.inl ⟨r, rfl, hphase, hget⟩)
      · exact .inl hget
  | deadline r =>
      obtain ⟨_, f, -, rfl⟩ := step_deadline h
      exact .inl (congrArg (Dict.get? · c) (s.pending.pending_cancel f))
  | cancel r =>
      obtain ⟨_, -, rfl⟩ | ⟨_, f, _, -, rfl⟩ := step_cancel h
      · exact .inl rfl
      · exact .inl (congrArg (Dict.get? · c) (s.pending.pending_cancel f))
  | resume r =>
      obtain ⟨e, f, wake, new, hphase, rfl, -⟩ := step_resume h
      have hget := s.pending.get?_unregister e c
      split at hget
      · next heq =>
          subst heq
          exact .inr (.inr ⟨r, f, wake, rfl, hphase, hget⟩)
      · exact .inl hget
  | fetch events => obtain ⟨-, -, rfl⟩ := step_fetch h; exact .inl rfl
  | resolve =>
      obtain ⟨event, _, _, _, -, -, hresolve, rfl, -⟩ := step_resolve h
      obtain ⟨_, _, heq, hpending, -⟩ := s.pending.resolve_spec event
      cases hresolve.symm.trans heq
      exact .inl (congrArg (Dict.get? · c) hpending)
  | ack => obtain ⟨_, -, rfl⟩ := step_ack h; exact .inl rfl

/-- Futures are only ever added, and by a task that registers. -/
theorem length_step (h : s.step a = some s') :
    s'.pending.futures.length = s.pending.futures.length +
      if a matches .register _ then 1 else 0 := by
  cases a with
  | arrive waits => cases step_arrive h; rfl
  | store r e => obtain ⟨-, -, rfl⟩ := step_store h; rfl
  | duplicate r e => obtain ⟨-, -, rfl⟩ := step_duplicate h; rfl
  | publishRaises r => obtain ⟨-, rfl⟩ := step_publishRaises h; rfl
  | publishReturns r =>
      obtain ⟨_, _, -, rfl⟩ := step_publishReturns h
      rfl
  | register r =>
      obtain ⟨e, -, rfl⟩ := step_register h
      exact List.length_append
  | deadline r =>
      obtain ⟨_, f, -, rfl⟩ := step_deadline h
      exact s.pending.length_cancel f
  | cancel r =>
      obtain ⟨_, -, rfl⟩ | ⟨_, f, _, -, rfl⟩ := step_cancel h
      · rfl
      · exact s.pending.length_cancel f
  | resume r =>
      obtain ⟨_, _, _, _, -, rfl, -⟩ := step_resume h
      rfl
  | fetch events => obtain ⟨-, -, rfl⟩ := step_fetch h; rfl
  | resolve =>
      obtain ⟨event, _, _, _, -, -, hresolve, rfl, -⟩ := step_resolve h
      obtain ⟨_, _, heq, -, hlength, -⟩ := s.pending.resolve_spec event
      cases hresolve.symm.trans heq
      exact hlength
  | ack => obtain ⟨_, -, rfl⟩ := step_ack h; rfl

/-- What a step does to one future that exists: nothing, or it cancels the
pending future of a request that waits, or it sets the result of the pending
future registered under the next event's correlation id. -/
theorem future_step {f : ℕ} (h : s.step a = some s')
    (hlt : f < s.pending.futures.length) :
    s'.pending.futures[f]? = s.pending.futures[f]? ∨
    s.pending.futures[f]? = some .pending ∧
      ((∃ r eventId wake, (a = .deadline r ∨ a = .cancel r) ∧
        s.phase r = some (.waiting eventId f wake) ∧
        s'.pending.futures[f]? = some .cancelled) ∨
      ∃ event rest c, a = .resolve ∧ s.batch = event :: rest ∧
        event.details.correlationId = some c ∧
        s.pending.pending.get? c = some f ∧
        s'.pending.futures[f]? = some (.result event)) := by
  cases a with
  | arrive waits => cases step_arrive h; exact .inl rfl
  | store r e => obtain ⟨-, -, rfl⟩ := step_store h; exact .inl rfl
  | duplicate r e => obtain ⟨-, -, rfl⟩ := step_duplicate h; exact .inl rfl
  | publishRaises r => obtain ⟨-, rfl⟩ := step_publishRaises h; exact .inl rfl
  | publishReturns r =>
      obtain ⟨_, _, -, rfl⟩ := step_publishReturns h
      exact .inl rfl
  | register r =>
      obtain ⟨e, -, rfl⟩ := step_register h
      exact .inl (List.getElem?_append_left hlt)
  | deadline r =>
      obtain ⟨e, f', hphase, rfl⟩ := step_deadline h
      obtain hsame | ⟨rfl, hpending, hnew⟩ := s.pending.futures_cancel f' f
      · exact .inl hsame
      · exact .inr ⟨hpending, .inl ⟨r, e, _, .inl rfl, hphase, hnew⟩⟩
  | cancel r =>
      obtain ⟨_, -, rfl⟩ | ⟨e, f', wake, hphase, rfl⟩ := step_cancel h
      · exact .inl rfl
      · obtain hsame | ⟨rfl, hpending, hnew⟩ := s.pending.futures_cancel f' f
        · exact .inl hsame
        · exact .inr ⟨hpending, .inl ⟨r, e, wake, .inr rfl, hphase, hnew⟩⟩
  | resume r =>
      obtain ⟨_, _, _, _, -, rfl, -⟩ := step_resume h
      exact .inl rfl
  | fetch events => obtain ⟨-, -, rfl⟩ := step_fetch h; exact .inl rfl
  | resolve =>
      obtain ⟨event, rest, _, _, -, hbatch, hresolve, rfl, -⟩ := step_resolve h
      obtain ⟨_, _, heq, -, -, hfutures, -⟩ := s.pending.resolve_spec event
      cases hresolve.symm.trans heq
      obtain hsame | ⟨hpending, hresult, c, hc, hentry⟩ := hfutures f
      · exact .inl hsame
      · exact .inr ⟨hpending, .inr
          ⟨event, rest, c, rfl, hbatch, hc, hentry, hresult⟩⟩
  | ack => obtain ⟨_, -, rfl⟩ := step_ack h; exact .inl rfl

/-- Which steps a request takes in which phase. -/
theorem act_phase (h : s.step a = some s') (hact : a.request? = some r) :
    (∃ stored, s.phase r = some (.publishing stored)) ∨
    (∃ eventId, s.phase r = some (.published eventId) ∧ a = .register r) ∨
    ∃ eventId f wake, s.phase r = some (.waiting eventId f wake) ∧
      (a = .deadline r ∨ a = .cancel r ∨ a = .resume r) := by
  cases a with
  | arrive waits => cases hact
  | store r' e => cases hact; exact .inl ⟨_, (step_store h).1⟩
  | duplicate r' e => cases hact; exact .inl ⟨_, (step_duplicate h).1⟩
  | publishRaises r' => cases hact; exact .inl (step_publishRaises h).1
  | publishReturns r' =>
      cases hact
      obtain ⟨_, _, hreq, -⟩ := step_publishReturns h
      exact .inl ⟨_, congrArg (Option.map Request.phase) hreq⟩
  | register r' =>
      cases hact
      obtain ⟨_, hphase, -⟩ := step_register h
      exact .inr (.inl ⟨_, hphase, rfl⟩)
  | deadline r' =>
      cases hact
      obtain ⟨_, _, hphase, -⟩ := step_deadline h
      exact .inr (.inr ⟨_, _, _, hphase, .inl rfl⟩)
  | cancel r' =>
      cases hact
      obtain ⟨_, hphase, -⟩ | ⟨_, _, _, hphase, -⟩ := step_cancel h
      · exact .inl ⟨_, hphase⟩
      · exact .inr (.inr ⟨_, _, _, hphase, .inr (.inl rfl)⟩)
  | resume r' =>
      cases hact
      obtain ⟨_, _, _, _, hphase, -⟩ := step_resume h
      exact .inr (.inr ⟨_, _, _, hphase, .inr (.inr rfl)⟩)
  | fetch events => cases hact
  | resolve => cases hact
  | ack => cases hact

/-- A request takes no part in the steps of others, and it comes last when it
arrives. -/
theorem requests_step (h : s.step a = some s') (hother : a.request? ≠ some r) :
    s'.requests[r]? = s.requests[r]? ∨
    ∃ waits, a = .arrive waits ∧ r = s.requests.length ∧
      s'.requests[r]? = some ⟨waits, .publishing none⟩ := by
  have hne : ∀ {r'}, a.request? = some r' → r' ≠ r := by
    rintro r' heq rfl
    exact hother heq
  cases a with
  | arrive waits =>
      cases step_arrive h
      by_cases heq : r = s.requests.length
      · exact .inr ⟨waits, rfl, heq, heq ▸ List.getElem?_concat_length⟩
      · refine .inl ?_
        rw [List.getElem?_append]
        split
        · rfl
        · rw [List.getElem?_eq_none, List.getElem?_eq_none]
          · omega
          · simp only [List.length_singleton]
            omega
  | store r' e =>
      obtain ⟨-, -, rfl⟩ := step_store h
      exact .inl (requests_setPhase_of_ne _ _ (hne rfl))
  | duplicate r' e =>
      obtain ⟨-, -, rfl⟩ := step_duplicate h
      exact .inl (requests_setPhase_of_ne _ _ (hne rfl))
  | publishRaises r' =>
      obtain ⟨-, rfl⟩ := step_publishRaises h
      exact .inl (requests_setPhase_of_ne _ _ (hne rfl))
  | publishReturns r' =>
      obtain ⟨_, _, -, rfl⟩ := step_publishReturns h
      exact .inl (requests_setPhase_of_ne _ _ (hne rfl))
  | register r' =>
      obtain ⟨_, -, rfl⟩ := step_register h
      exact .inl (requests_setPhase_of_ne _ _ (hne rfl))
  | deadline r' =>
      obtain ⟨_, _, -, rfl⟩ := step_deadline h
      exact .inl (requests_setPhase_of_ne _ _ (hne rfl))
  | cancel r' =>
      obtain ⟨_, -, rfl⟩ | ⟨_, _, _, -, rfl⟩ := step_cancel h
      · exact .inl (requests_setPhase_of_ne _ _ (hne rfl))
      · exact .inl (requests_setPhase_of_ne _ _ (hne rfl))
  | resume r' =>
      obtain ⟨_, _, _, _, -, rfl, -⟩ := step_resume h
      exact .inl (requests_setPhase_of_ne _ _ (hne rfl))
  | fetch events => obtain ⟨-, -, rfl⟩ := step_fetch h; exact .inl rfl
  | resolve =>
      obtain ⟨_, _, _, _, -, -, -, -, hrequests, -⟩ := step_resolve h
      exact .inl (congrArg (·[r]?) hrequests)
  | ack => obtain ⟨_, -, rfl⟩ := step_ack h; exact .inl rfl

theorem phase_kept {old : Phase} (h : s.step a = some s')
    (hphase : s.phase r = some old) (hother : a.request? ≠ some r) :
    s'.phase r = some old := by
  obtain hsame | ⟨_, -, rfl, -⟩ := requests_step h hother
  · rw [phase, hsame]
    exact hphase
  · rw [phase, List.getElem?_eq_none (Nat.le_refl _)] at hphase
    cases hphase

/-- A request that has returned or raised takes no further step. -/
theorem finished_step {last : Phase} (hlast : last.finished)
    (h : s.step a = some s') (hphase : s.phase r = some last) :
    s'.phase r = some last := by
  by_cases hact : a.request? = some r
  · obtain ⟨_, hold⟩ | ⟨_, hold, -⟩ | ⟨_, _, _, hold, -⟩ := act_phase h hact
    · cases hold.symm.trans hphase
      cases hlast
    · cases hold.symm.trans hphase
      cases hlast
    · cases hold.symm.trans hphase
      cases hlast
  · exact phase_kept h hphase hact

/-- A request that waits has a deadline, may be cancelled, and may run on. -/
theorem act_of_waiting {f : ℕ} {wake : Wake} (h : s.step a = some s')
    (hphase : s.phase r = some (.waiting eventId f wake))
    (hact : a.request? = some r) :
    a = .deadline r ∨ a = .cancel r ∨ a = .resume r := by
  obtain ⟨_, hold⟩ | ⟨_, hold, -⟩ | ⟨_, _, _, -, hacts⟩ := act_phase h hact
  · cases hold.symm.trans hphase
  · cases hold.symm.trans hphase
  · exact hacts

/-- What the watcher has fetched shrinks from the front, and it fetches anew
only once nothing is left. -/
theorem batch_step (h : s.step a = some s') :
    s'.batch = s.batch ∨
    (∃ event, a = .resolve ∧ s.batch = event :: s'.batch) ∨
    ∃ events, a = .fetch events ∧ s.batch = [] ∧ s'.batch = events := by
  cases a with
  | arrive waits => cases step_arrive h; exact .inl rfl
  | store r e => obtain ⟨-, -, rfl⟩ := step_store h; exact .inl rfl
  | duplicate r e => obtain ⟨-, -, rfl⟩ := step_duplicate h; exact .inl rfl
  | publishRaises r => obtain ⟨-, rfl⟩ := step_publishRaises h; exact .inl rfl
  | publishReturns r =>
      obtain ⟨_, _, -, rfl⟩ := step_publishReturns h
      exact .inl rfl
  | register r => obtain ⟨_, -, rfl⟩ := step_register h; exact .inl rfl
  | deadline r => obtain ⟨_, _, -, rfl⟩ := step_deadline h; exact .inl rfl
  | cancel r =>
      obtain ⟨_, -, rfl⟩ | ⟨_, _, _, -, rfl⟩ := step_cancel h
      · exact .inl rfl
      · exact .inl rfl
  | resume r =>
      obtain ⟨_, _, _, _, -, rfl, -⟩ := step_resume h
      exact .inl rfl
  | fetch events =>
      obtain ⟨hbatch, -, rfl⟩ := step_fetch h
      exact .inr (.inr ⟨events, rfl, hbatch, rfl⟩)
  | resolve =>
      obtain ⟨event, rest, _, _, -, hbatch, -, -, -, -, rfl⟩ := step_resolve h
      exact .inr (.inl ⟨event, rfl, hbatch⟩)
  | ack => obtain ⟨_, -, rfl⟩ := step_ack h; exact .inl rfl

theorem orders_eq (h : s.step a = some s') :
    s'.orders = s.orders ++ a.stores := by
  have hsame : ∀ orders : List String, orders = orders ++ [] :=
    fun orders => (List.append_nil orders).symm
  cases a with
  | arrive waits => cases step_arrive h; exact hsame _
  | store r e =>
      obtain ⟨-, -, rfl⟩ := step_store h
      rfl
  | duplicate r e => obtain ⟨-, -, rfl⟩ := step_duplicate h; exact hsame _
  | publishRaises r => obtain ⟨-, rfl⟩ := step_publishRaises h; exact hsame _
  | publishReturns r =>
      obtain ⟨_, _, -, rfl⟩ := step_publishReturns h
      exact hsame _
  | register r => obtain ⟨_, -, rfl⟩ := step_register h; exact hsame _
  | deadline r => obtain ⟨_, _, -, rfl⟩ := step_deadline h; exact hsame _
  | cancel r =>
      obtain ⟨_, -, rfl⟩ | ⟨_, _, _, -, rfl⟩ := step_cancel h
      · exact hsame _
      · exact hsame _
  | resume r =>
      obtain ⟨_, _, _, _, -, rfl, -⟩ := step_resume h
      exact hsame _
  | fetch events => obtain ⟨-, -, rfl⟩ := step_fetch h; exact hsame _
  | resolve =>
      obtain ⟨_, _, _, _, -, -, -, -, -, horders, -⟩ := step_resolve h
      exact horders ▸ hsame _
  | ack => obtain ⟨_, -, rfl⟩ := step_ack h; exact hsame _

theorem orders_step {id : String} (h : s.step a = some s')
    (hmem : id ∈ s.orders) : id ∈ s'.orders :=
  orders_eq h ▸ List.mem_append_left _ hmem

/-! ## What is enabled -/

theorem resume_result {f : ℕ} {event : ReceivedEvent}
    (hphase : s.phase r = some (.waiting eventId f .future))
    (hresult : s.pending.futures[f]? = some (.result event)) :
    ∃ s', s.step (.resume r) = some s' ∧
      s'.phase r = some (.returned (.reply event)) := by
  refine ⟨{ s with pending := s.pending.unregister eventId }.setPhase r
    (.returned (.reply event)), ?_, ?_⟩
  · simp only [step, hphase, afterWait, hresult]
  · exact phase_setPhase_acted hphase _ _

/-- The watcher gets past every event it has fetched. -/
theorem resolve_next {event : ReceivedEvent} {rest : List ReceivedEvent}
    (hacking : s.acking = none) (hbatch : s.batch = event :: rest) :
    ∃ s', s.step .resolve = some s' ∧ s'.batch = rest := by
  obtain ⟨found, p, hresolve, -⟩ := s.pending.resolve_spec event
  simp only [step, hacking, hbatch, resolveNext, hresolve]
  exact ⟨_, rfl, rfl⟩

/-! ## Whose a future is -/

/-- A future belongs to one request, and the entry that leads to a waiting
request's future stands under that request's event id. -/
structure Owned (s : RestApi) : Prop where
  entry_lt : ∀ {c f}, s.pending.pending.get? c = some f →
    f < s.pending.futures.length
  future_lt : ∀ {r eventId f wake},
    s.phase r = some (.waiting eventId f wake) → f < s.pending.futures.length
  entry_id : ∀ {c f r eventId wake}, s.pending.pending.get? c = some f →
    s.phase r = some (.waiting eventId f wake) → eventId = c
  own : ∀ {f r eventId wake r' eventId' wake'},
    s.phase r = some (.waiting eventId f wake) →
    s.phase r' = some (.waiting eventId' f wake') → r = r'

theorem owned_nil : Owned {} where
  entry_lt := nofun
  future_lt := nofun
  entry_id := nofun
  own := nofun

/-- An entry after a step is one of before, or has just been made. -/
theorem entry_of_step {c : String} {f : ℕ} (h : s.step a = some s')
    (hget : s'.pending.pending.get? c = some f) :
    s.pending.pending.get? c = some f ∨
    ∃ r, a = .register r ∧ s.phase r = some (.published c) ∧
      f = s.pending.futures.length := by
  obtain hsame | ⟨r, ha, hphase, hnew⟩ | ⟨_, _, _, -, -, hnone⟩ :=
    entry_step h c
  · exact .inl (hsame ▸ hget)
  · exact .inr ⟨r, ha, hphase, Option.some.inj (hget.symm.trans hnew)⟩
  · cases hget.symm.trans hnone

theorem Owned.step (hs : Owned s) (h : s.step a = some s') : Owned s' := by
  have hle : s.pending.futures.length ≤ s'.pending.futures.length := by
    rw [length_step h]
    exact Nat.le_add_right _ _
  have hregister : ∀ {r}, a = .register r →
      s.pending.futures.length < s'.pending.futures.length := by
    rintro r rfl
    rw [length_step h]
    exact Nat.lt_succ_self _
  refine { entry_lt := ?_, future_lt := ?_, entry_id := ?_, own := ?_ }
  · intro c f hget
    obtain hold | ⟨_, ha, -, rfl⟩ := entry_of_step h hget
    · exact Nat.lt_of_lt_of_le (hs.entry_lt hold) hle
    · exact hregister ha
  · intro r eventId f wake hwait
    obtain ⟨_, hold, -⟩ | ⟨ha, -, rfl, -⟩ := waiting_step h hwait
    · exact Nat.lt_of_lt_of_le (hs.future_lt hold) hle
    · exact hregister ha
  · intro c f r eventId wake hget hwait
    obtain ⟨_, hold, -⟩ | ⟨ha, hphase, hf, -⟩ := waiting_step h hwait
    · obtain hget | ⟨_, -, -, rfl⟩ := entry_of_step h hget
      · exact hs.entry_id hget hold
      · exact absurd (hs.future_lt hold) (Nat.lt_irrefl _)
    · obtain hget | ⟨r', ha', hphase', -⟩ := entry_of_step h hget
      · exact absurd (hf ▸ hs.entry_lt hget) (Nat.lt_irrefl _)
      · cases ha.symm.trans ha'
        cases hphase.symm.trans hphase'
        rfl
  · intro f r eventId wake r' eventId' wake' hwait hwait'
    obtain ⟨_, hold, -⟩ | ⟨ha, -, hf, -⟩ := waiting_step h hwait
    · obtain ⟨_, hold', -⟩ | ⟨-, -, hf', -⟩ := waiting_step h hwait'
      · exact hs.own hold hold'
      · exact absurd (hf' ▸ hs.future_lt hold) (Nat.lt_irrefl _)
    · obtain ⟨_, hold', -⟩ | ⟨ha', -⟩ := waiting_step h hwait'
      · exact absurd (hf ▸ hs.future_lt hold') (Nat.lt_irrefl _)
      · cases ha.symm.trans ha'
        rfl

theorem Owned.of_run {ok : RestApi → RestAct → Prop} {as : List RestAct}
    (h : Run RestApi.step ok {} as s) : Owned s :=
  h.invariant (fun hs _ hst => hs.step hst) owned_nil

end RestApi

end JetCore
