import JetCore.Ref.PendingReplies

/-!
# `app.py` of the REST API service: orders with a reply

The service as its tasks interleave: any number of `create_order` requests and
the reply watcher, on one event loop. A step is what happens between two
awaits, or what the outside does to a task that awaits: the stream stores its
publish, a deadline passes, a task is cancelled. Two things are finer than the
event loop has them. `publish` returns in one step and `register` happens in
the next, and so any interleaving of the two is covered as well.

A deadline that passes cancels the awaited future and has the task resume with
`TimeoutError`; a future that already has its result keeps it, and the task
still resumes with the exception. A task that is cancelled resumes with
`CancelledError`, which no handler of `create_order` catches. Both leave
through the `finally` clause.

`run_reply_watcher` fetches a batch, and resolves and acks one event of it
after the other. What it fetches is whatever the bus delivers, so a fetch step
carries its events.
-/

namespace JetCore

open Lib

/-- An HTTP response, as far as `create_order` sets it. -/
structure Response where
  statusCode : ℕ
  content : Bytes
  deriving DecidableEq

namespace Response

/-- Without `?wait=`. -/
def accepted (eventId : String) : Response :=
  ⟨202, Json.dumps (Json.object [("eventId", Json.string eventId)])⟩

def reply (event : ReceivedEvent) : Response := ⟨200, event.payload⟩

def timeout (eventId : String) : Response :=
  ⟨504, Json.dumps (Json.object [
    ("eventId", Json.string eventId),
    ("error", Json.string "timeout waiting for reply")])⟩

end Response

/-- Why a waiting task resumes. -/
inductive Wake where
  /-- Its future is done, or nothing yet. -/
  | future
  | timeout
  | cancelled
  deriving DecidableEq

/-- Where a `create_order` stands. -/
inductive Phase where
  /-- In `client.publish`; then with the event id the stream holds for it. -/
  | publishing (stored : Option String)
  | published (eventId : String)
  /-- In `wait_for`. -/
  | waiting (eventId : String) (future : ℕ) (wake : Wake)
  | returned (response : Response)
  /-- Left with an exception. -/
  | raised
  deriving DecidableEq

structure Request where
  /-- `wait > 0` -/
  waits : Bool
  phase : Phase
  deriving DecidableEq

structure RestApi where
  pending : PendingReplies := {}
  requests : List Request := []
  /-- The event ids of the stored `OrderCreated` events. -/
  orders : List String := []
  /-- What the watcher has fetched and not resolved. -/
  batch : List ReceivedEvent := []
  /-- The event whose ack the watcher awaits. -/
  acking : Option ReceivedEvent := none
  acked : List Msg := []
  log : List LogLine := []

inductive RestAct where
  | arrive (waits : Bool)
  /-- The stream stores the publish of request `r`. -/
  | store (r : ℕ) (eventId : String)
  /-- The stream takes it for a duplicate of a stored one. -/
  | duplicate (r : ℕ) (eventId : String)
  | publishRaises (r : ℕ)
  | publishReturns (r : ℕ)
  | register (r : ℕ)
  | deadline (r : ℕ)
  | cancel (r : ℕ)
  /-- The task of request `r` runs on from `wait_for`. -/
  | resume (r : ℕ)
  | fetch (events : List ReceivedEvent)
  | resolve
  | ack

namespace RestApi

def phase (s : RestApi) (r : ℕ) : Option Phase :=
  (s.requests[r]?).map Request.phase

def setPhase (s : RestApi) (r : ℕ) (phase : Phase) : RestApi :=
  { s with requests := s.requests.modify r fun q => { q with phase := phase } }

/-- The rest of `create_order` once `publish` has returned. -/
def afterPublish (waits : Bool) (eventId : String) : Phase :=
  if waits then .published eventId else .returned (.accepted eventId)

/-- The rest of `create_order` once `wait_for` is left. -/
def afterWait (s : RestApi) (r : ℕ) (eventId : String) (future : ℕ) :
    Wake → Option RestApi
  | .future =>
      match s.pending.futures[future]? with
      | some (.result event) =>
          some ({ s with pending := s.pending.unregister eventId }.setPhase r
            (.returned (.reply event)))
      | _ => none
  | .timeout =>
      some ({ s with pending := s.pending.unregister eventId }.setPhase r
        (.returned (.timeout eventId)))
  | .cancelled =>
      some ({ s with pending := s.pending.unregister eventId }.setPhase r
        .raised)

/-- One turn of the watcher's inner loop, up to the ack. -/
def resolveNext (s : RestApi) (event : ReceivedEvent)
    (rest : List ReceivedEvent) : Option RestApi :=
  match s.pending.resolve event with
  | .error _ => none
  | .ok (found, pending) =>
      some { s with
        pending := pending
        batch := rest
        acking := some event
        log := if found then s.log else s.log ++
          [.noPendingRequest event.details.eventId event.details.correlationId] }

def step (s : RestApi) : RestAct → Option RestApi
  | .arrive waits =>
      some { s with requests := s.requests ++ [⟨waits, .publishing none⟩] }
  | .store r eventId =>
      match s.phase r with
      | some (.publishing none) =>
          if eventId ∈ s.orders then none
          else some ({ s with orders := s.orders ++ [eventId] }.setPhase r
            (.publishing (some eventId)))
      | _ => none
  | .duplicate r eventId =>
      match s.phase r with
      | some (.publishing none) =>
          if eventId ∈ s.orders then
            some (s.setPhase r (.publishing (some eventId)))
          else none
      | _ => none
  | .publishRaises r =>
      match s.phase r with
      | some (.publishing _) => some (s.setPhase r .raised)
      | _ => none
  | .publishReturns r =>
      match s.requests[r]? with
      | some ⟨waits, .publishing (some eventId)⟩ =>
          some (s.setPhase r (afterPublish waits eventId))
      | _ => none
  | .register r =>
      match s.phase r with
      | some (.published eventId) =>
          let (future, pending) := s.pending.register eventId
          some ({ s with pending := pending }.setPhase r
            (.waiting eventId future .future))
      | _ => none
  | .deadline r =>
      match s.phase r with
      | some (.waiting eventId future .future) =>
          some ({ s with pending := s.pending.cancel future }.setPhase r
            (.waiting eventId future .timeout))
      | _ => none
  | .cancel r =>
      match s.phase r with
      | some (.publishing _) => some (s.setPhase r .raised)
      | some (.waiting eventId future _) =>
          some ({ s with pending := s.pending.cancel future }.setPhase r
            (.waiting eventId future .cancelled))
      | _ => none
  | .resume r =>
      match s.phase r with
      | some (.waiting eventId future wake) =>
          s.afterWait r eventId future wake
      | _ => none
  | .fetch events =>
      if s.batch = [] ∧ s.acking = none then
        some { s with batch := events }
      else none
  | .resolve =>
      match s.acking, s.batch with
      | none, event :: rest => s.resolveNext event rest
      | _, _ => none
  | .ack =>
      match s.acking with
      | some event =>
          some { s with acking := none, acked := s.acked ++ [event.msg] }
      | none => none

end RestApi

end JetCore
