import JetCore.Spec.Deliveries
import JetCore.Spec.Network
import JetCore.Ref.RestApi

/-!
# An order, from the request to the reply

The REST API service and the database adapter side by side, with the two
subjects between them. The service stores an `OrderCreated` for each request
that is no duplicate. The adapter is handed any of these, as often as the
broker likes, and works on as many deliveries at a time as it likes. What it
publishes reaches the service's watcher in any order, more than once or never.

A call of the adapter may do its work and raise all the same: the transaction
is committed and the connection is lost, the stream has the answer and the
acknowledgement does not come back. Nobody else publishes on the two subjects.
-/

namespace JetCore

open Lib

/-- What `create_order` publishes. -/
def orderCreated (body : Bytes) (idempotencyKey : Option String) :
    PublishArgs where
  subject := "events.orders.OrderCreated"
  payload := body
  eventType := "OrderCreated"
  msgId := idempotencyKey

structure OrderFlow where
  api : RestApi := {}
  /-- What each request publishes. -/
  posted : List PublishArgs := []
  /-- The publishes of the service that are stored. -/
  created : List Call := []
  /-- The deliveries at the adapter. -/
  adapter : Tasks Delivered DbAct DbAct.Resp Exn Unit := {}
  orders : Orders := Dict.empty
  /-- The publishes of the adapter that are stored. -/
  persisted : List Call := []

inductive OrderFlowAct where
  | post (body : Bytes) (idempotencyKey : Option String) (waits : Bool)
  /-- The stream stores the publish of request `r`. -/
  | store (r : ℕ) (call : Call)
  | fetch (events : List ReceivedEvent)
  /-- Anything else at the service. -/
  | serve (a : RestAct)
  | deliver (d : Delivered)
  /-- A call of a delivery is answered. It has done its work if the answer is
  no exception, and otherwise if `done`; a publish is then `call`'s. -/
  | answer (task : ℕ) (r : (a : DbAct) → Except Exn a.Resp) (done : Bool)
      (call : Call)

/-- The action needs nothing from outside the service. -/
def RestAct.internal : RestAct → Bool
  | .arrive _ | .store _ _ | .fetch _ => false
  | _ => true

/-- The action as the service sees it. -/
def OrderFlowAct.atService : OrderFlowAct → Option RestAct
  | .post _ _ waits => some (.arrive waits)
  | .store r call => some (.store r call.eventId)
  | .fetch events => some (.fetch events)
  | .serve a => some a
  | .deliver _ | .answer .. => none

/-- The publish of the service that it stores. -/
def OrderFlowAct.stores : OrderFlowAct → List Call
  | .store _ call => [call]
  | _ => []

def handleDelivered (d : Delivered) : DbProg Unit :=
  handleOrderCreated d.occurredAt d.event

namespace OrderFlow

variable (collate : Text → Text)

def serve (s : OrderFlow) (a : RestAct) : Option OrderFlow :=
  (s.api.step a).map fun api => { s with api := api }

/-- The call a delivery has come to. -/
def calling (s : OrderFlow) (task : ℕ) : Option DbAct :=
  match s.adapter.started[task]? with
  | some (_, .call a _) => some a
  | _ => none

/-- What a call leaves that has done its work. -/
def worked (s : OrderFlow) (call : Call) : DbAct → OrderFlow
  | .upsert request =>
      { s with orders := s.orders.upsert collate request }
  | .publish args =>
      { s with persisted := s.persisted ++ [{ call with args := args }] }
  | .log _ | .ack | .nak => s

def step (s : OrderFlow) : OrderFlowAct → Option OrderFlow
  | .post body idempotencyKey waits =>
      { s with posted := s.posted ++ [orderCreated body idempotencyKey] }.serve
        (.arrive waits)
  | .store r call =>
      if s.posted[r]? = some call.args then
        { s with created := s.created ++ [call] }.serve
          (.store r call.eventId)
      else none
  | .fetch events => s.serve (.fetch events)
  | .serve a => if a.internal then s.serve a else none
  | .deliver d =>
      (s.adapter.step handleDelivered (.start d)).map fun adapter =>
        { s with adapter := adapter }
  | .answer task r done call =>
      (s.calling task).bind fun a =>
        (s.adapter.step handleDelivered (.answer task r)).map fun adapter =>
          { (if done || (r a).isOk then s.worked collate call a else s) with
            adapter := adapter }

/-- Whatever is handed over has been published. -/
def Carries (s : OrderFlow) : OrderFlowAct → Prop
  | .fetch events =>
      ∀ event ∈ events, ∃ call ∈ s.persisted, call.Originates event
  | .deliver d => ∃ call ∈ s.created, call.Originates d.event
  | .answer _ r _ _ => ∀ a, AnswersOwn a (r a)
  | _ => True

/-- The order of a call was upserted, and the upsert committed. -/
def Committed (s : OrderFlow) (call : Call) (request : OrderCreatedRequest) :
    Prop :=
  decodeOrderCreated call.args.payload = .ok request ∧
  (∃ task d, s.adapter.subject? task = some d ∧ call.Originates d.event ∧
    (task, ⟨.upsert request, .ok ()⟩) ∈ s.adapter.log) ∧
  (s.orders.get? (collate request.orderId)).isSome

/-- Request `r` was stored as this call, or taken for a duplicate of it. -/
def StoredAs (acts : List OrderFlowAct) (r : ℕ) (call : Call) : Prop :=
  .store r call ∈ acts ∨ .serve (.duplicate r call.eventId) ∈ acts

end OrderFlow

end JetCore
