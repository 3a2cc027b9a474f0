import JetCore.Lib.Tasks
import JetCore.Ref.DbAdapter
import JetCore.Ref.HttpAdapter
import JetCore.Spec.Deliveries
import JetCore.Spec.Network
import JetCore.Spec.Settling

/-!
# Events that come of events

The adapters that answer events with events, on one stream: the four file
handlers, the order handler, and the trigger handlers, of which a deployment
has one for each subject it configures. A message is handed to whoever listens
to its subject, as often as the consumer allows, and any number of deliveries
are worked on at a time. Any call may raise, with its work done or not.

Everything else is outside, and publishes what it likes: the REST API service
and the webhook listener, and the two watches, whatever it is in a directory or
a table that they saw.
-/

namespace JetCore

open Lib

structure Deployment where
  files : FileAdapter
  /-- `JETCORE_SUBJECTS`, each with what its handler is given. -/
  triggers : List TriggerHandler

inductive EventConsumer where
  | file (handler : FileHandler)
  | orders
  | trigger (i : ℕ)
  deriving DecidableEq

/-- `WRITE_REQUESTED_SUBJECT` and its like. -/
def FileHandler.subject : FileHandler → String
  | .write => "events.files.FileWriteRequested"
  | .read => "events.files.FileReadRequested"
  | .delete => "events.files.FileDeleteRequested"
  | .list => "events.files.FileListRequested"

/-- What a consumer subscribes to. The registration that goes with it is for
one subject, so it is no pattern. -/
def Deployment.subject? (d : Deployment) : EventConsumer → Option String
  | .file handler => some handler.subject
  | .orders => some "events.orders.OrderCreated"
  | .trigger i => d.triggers[i]?.map TriggerHandler.subject

/-! ## The handlers, in one environment -/

inductive HandlerAct where
  | file (a : FileAct)
  | db (a : DbAct)
  | http (a : HttpAct)

abbrev HandlerAct.Resp : HandlerAct → Type
  | .file a => a.Resp
  | .db a => a.Resp
  | .http a => a.Resp

abbrev HandlerProg := Prog HandlerAct HandlerAct.Resp Exn

def HandlerAct.published? : HandlerAct → Option PublishArgs
  | .file (.publish args) | .db (.publish args) | .http (.publish args) =>
      some args
  | _ => none

/-- One delivery: whose, of which message of the stream, what the client made
of it, and the text of the time. -/
structure EventDelivery where
  consumer : EventConsumer
  message : ℕ
  event : ReceivedEvent
  occurredAt : String

/-- `_handle`, of the consumer that it is delivered to. -/
def Deployment.handle (d : Deployment) (h : EventDelivery) : HandlerProg Unit :=
  match h.consumer with
  | .file handler =>
      (handler.handle d.files h.occurredAt h.event).embed .file fun _ r => r
  | .orders =>
      (handleOrderCreated h.occurredAt h.event).embed .db fun _ r => r
  | .trigger i =>
      match d.triggers[i]? with
      | none => pure ()
      | some self =>
          (handleTrigger self h.occurredAt h.event).embed .http fun _ r => r

/-! ## The bus -/

structure EventBus where
  /-- The stream, each message with the delivery that published it, unless it
  comes from outside. -/
  stored : List (Call × Option ℕ) := []
  deliveries : Tasks EventDelivery HandlerAct HandlerAct.Resp Exn Unit := {}

inductive EventBusAct where
  /-- From outside. -/
  | publish (call : Call)
  | deliver (h : EventDelivery)
  /-- A call of a delivery is answered. It has done its work if the answer is
  no exception, and otherwise if `done`; a publish is then `call`'s. -/
  | answer (delivery : ℕ) (r : (a : HandlerAct) → Except Exn a.Resp)
      (done : Bool) (call : Call)

namespace EventBus

/-- How often the consumer was handed the message. -/
def attempts (s : EventBus) (consumer : EventConsumer) (message : ℕ) : ℕ :=
  s.deliveries.started.countP fun e =>
    e.1.consumer = consumer ∧ e.1.message = message

/-- Who listens to the message, and may be handed it once more. -/
def mayDeliver (d : Deployment) (s : EventBus) (h : EventDelivery) : Bool :=
  ((s.stored[h.message]?).any fun m =>
    d.subject? h.consumer = some m.1.args.subject) &&
    decide (s.attempts h.consumer h.message < maxDeliverAttempts)

/-- The call a delivery has come to. -/
def calling (s : EventBus) (delivery : ℕ) : Option HandlerAct :=
  match s.deliveries.started[delivery]? with
  | some (_, .call a _) => some a
  | _ => none

/-- What a call puts on the stream that has done its work. -/
def worked (delivery : ℕ) (call : Call) (a : HandlerAct) :
    List (Call × Option ℕ) :=
  match a.published? with
  | some args => [({ call with args := args }, some delivery)]
  | none => []

variable (d : Deployment)

def step (s : EventBus) : EventBusAct → Option EventBus
  | .publish call => some { s with stored := s.stored ++ [(call, none)] }
  | .deliver h =>
      if s.mayDeliver d h then
        (s.deliveries.step d.handle (.start h)).map fun deliveries =>
          { s with deliveries := deliveries }
      else none
  | .answer i r done call =>
      (s.calling i).bind fun a =>
        (s.deliveries.step d.handle (.answer i r)).map fun deliveries =>
          { stored := s.stored ++
              if done || (r a).isOk then worked i call a else []
            deliveries := deliveries }

/-- A delivery is of what was published. -/
def Carries (s : EventBus) : EventBusAct → Prop
  | .deliver h => ∃ m, s.stored[h.message]? = some m ∧ m.1.Originates h.event
  | .answer _ r _ _ => ∀ a, AnswersOwn a (r a)
  | .publish _ => True

/-- What a run leaves, from an empty stream. -/
def Reached (acts : List EventBusAct) (s : EventBus) : Prop :=
  Run (step d) Carries {} acts s

/-- How many messages come from outside. -/
def fromOutside (s : EventBus) : ℕ := s.stored.countP fun m => m.2.isNone

end EventBus

end JetCore
