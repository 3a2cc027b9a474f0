import JetCore.Ref.BusClient

/-!
# `subscribe` and `close`: the tasks a client holds

`subscribe` starts a heartbeat and keeps its task, a recipient cache keeps the
one that follows its watch, and neither kind returns. `close` ends them: it
asks every heartbeat to stop before it awaits the first, and then stops one
cache after the other.

A task that is cancelled is at an await, and neither kind catches what is
raised there, so the request ends it. Until `close` comes to it a watch runs
on, and a cache is here in the state that `close` then finds.
-/

namespace JetCore

open Lib

inductive TaskState where
  | running
  | cancelled
  /-- An exception has ended it. -/
  | failed (why : Exn)
  deriving DecidableEq

/-- `task.cancel()` -/
def TaskState.cancel : TaskState → TaskState
  | .running => .cancelled
  | state => state

/-- How a call ends, or that it awaits for ever. -/
inductive Ended where
  | returned
  | raised (why : Exn)
  | never
  deriving DecidableEq

/-- `with contextlib.suppress(asyncio.CancelledError): await task` -/
def TaskState.awaitSuppressed : TaskState → Ended
  | .running => .never
  | .cancelled => .returned
  | .failed why => .raised why

/-- The task `heartbeat` returns. -/
structure HeartbeatTask where
  subject : String
  serviceId : String
  state : TaskState := .running
  awaited : Bool := false
  deriving DecidableEq

structure ClientState where
  serviceId : String
  /-- The subject of the subscription under each durable name. -/
  subscriptions : Dict String String
  backgroundTasks : List HeartbeatTask
  /-- The `_task` of each of `_recipient_caches.values()`. -/
  recipientCaches : List (Option TaskState)
  /-- The NATS connection is open. -/
  connected : Bool

/-! ## `subscribe` -/

/-- A call, with what becomes of the two awaits in it: the registration that
`heartbeat` makes before it starts its task, and `pull_subscribe`. -/
structure SubscribeCall where
  subject : String
  durableName : Option String
  registered : Except Exn Unit
  pulled : Except Exn Unit
  deriving DecidableEq

/-- `durable_name or f"{service_id}-{subject}"` -/
def SubscribeCall.durable (serviceId : String) (call : SubscribeCall) :
    String :=
  match call.durableName with
  | none => serviceId ++ "-" ++ call.subject
  | some name => if name = "" then serviceId ++ "-" ++ call.subject else name

namespace ClientState

def subscribe (c : ClientState) (call : SubscribeCall) :
    Except Exn String × ClientState :=
  match call.registered with
  | .error e => (.error e, c)
  | .ok () =>
      let c := { c with backgroundTasks := c.backgroundTasks ++
        [{ subject := call.subject, serviceId := c.serviceId }] }
      match call.pulled with
      | .error e => (.error e, c)
      | .ok () =>
          (.ok (call.durable c.serviceId), { c with
            subscriptions := c.subscriptions.set (call.durable c.serviceId)
              call.subject })

/-- The client after one call and then the next. -/
def subscribeAll (c : ClientState) (calls : List SubscribeCall) : ClientState :=
  calls.foldl (fun c call => (c.subscribe call).2) c

/-! ## `close` -/

/-- `for x in xs`, with a body that may raise and changes `x`. -/
def inTurn {α : Type} (f : α → Ended × α) : List α → Ended × List α
  | [] => (.returned, [])
  | a :: rest =>
      match f a with
      | (.returned, a') =>
          let (ended, rest') := inTurn f rest
          (ended, a' :: rest')
      | (ended, a') => (ended, a' :: rest)

def cancelTask (task : HeartbeatTask) : HeartbeatTask :=
  { task with state := task.state.cancel }

def awaitTask (task : HeartbeatTask) : Ended × HeartbeatTask :=
  (task.state.awaitSuppressed, { task with awaited := true })

/-- `RecipientCache.stop` -/
def stopCache : Option TaskState → Ended × Option TaskState
  | none => (.returned, none)
  | some state =>
      match state.cancel.awaitSuppressed with
      | .returned => (.returned, none)
      | ended => (ended, some state.cancel)

def close (c : ClientState) : Ended × ClientState :=
  match inTurn awaitTask (c.backgroundTasks.map cancelTask) with
  | (.returned, tasks) =>
      match inTurn stopCache c.recipientCaches with
      | (.returned, caches) =>
          (.returned, { c with
            backgroundTasks := tasks
            recipientCaches := caches
            connected := false })
      | (ended, caches) =>
          (ended, { c with
            backgroundTasks := tasks, recipientCaches := caches })
  | (ended, tasks) => (ended, { c with backgroundTasks := tasks })

end ClientState

end JetCore
