import JetCore.Lib.Prog
import JetCore.Ref.BusClient

/-!
# `write_handler.py` and `payloads.py` of the database adapter

What the write handler does with one delivery of an `OrderCreated`. The
database is a table and the outcome of one transaction, `Attempt`: it commits,
or it raises and changes nothing. MySQL compares the primary key under the
column's collation, so two order ids are one row when `collate` takes them to
the same weights; the row keeps the id it was inserted with.
-/

namespace JetCore

open Lib

structure OrderCreatedRequest where
  orderId : Text
  item : Text
  quantity : ℤ
  deriving DecidableEq

/-- `isinstance(v, str) and v` -/
def nonEmptyStr (fault : PayloadFault) : Json → Except Exn Text
  | .str [] => .error (.malformedPayloadError fault)
  | .str t => .ok t
  | _ => .error (.malformedPayloadError fault)

/-- An int that is no bool, and positive. -/
def positiveInt : Json → Except Exn ℤ
  | .int n => if n < 1 then .error (.malformedPayloadError .quantity) else .ok n
  | _ => .error (.malformedPayloadError .quantity)

/-- `data.get(name, default)`, on an object. -/
def getOr (j : Json) (name : String) (default : Json) : Json :=
  match j with
  | .obj fields => (Json.get? fields (Text.ofString name)).getD default
  | _ => default

/-- The `try` block of `decode_order_created`. -/
def readOrderCreated (raw : Bytes) : Except Exn (Json × Json × Json) := do
  let data ← jsonLoads raw
  let orderId ← getItem data "orderId"
  let item ← getItem data "item"
  return (orderId, item, getOr data "quantity" (.int 1))

def decodeOrderCreated (raw : Bytes) : Except Exn OrderCreatedRequest := do
  let (orderId, item, quantity) ← (readOrderCreated raw).mapError unreadable
  let orderId ← nonEmptyStr .orderId orderId
  let item ← nonEmptyStr .item item
  let quantity ← positiveInt quantity
  return ⟨orderId, item, quantity⟩

/-- `occurredAt` is the text of the current time. -/
def encodeOrderPersisted (orderId : Text) (occurredAt : String) : Bytes :=
  Json.dumps (Json.object [
    ("orderId", .str orderId),
    ("status", Json.string "persisted"),
    ("occurredAt", Json.string occurredAt)])

/-! ## The table -/

structure OrderRow where
  orderId : Text
  item : Text
  quantity : ℤ
  deriving DecidableEq

/-- The rows under the weights of their keys. -/
abbrev Orders := Dict Text OrderRow

/-- `INSERT .. AS new ON DUPLICATE KEY UPDATE item = new.item,
quantity = new.quantity`, of values that the columns take as they are. No column
has a length here: what MySQL refuses is an attempt that raises, and that it cuts
trailing spaces beyond the length of a `VARCHAR` is left out. -/
def Orders.upsert (collate : Text → Text) (orders : Orders)
    (r : OrderCreatedRequest) : Orders :=
  match orders.get? (collate r.orderId) with
  | none => orders.set (collate r.orderId) ⟨r.orderId, r.item, r.quantity⟩
  | some row =>
      orders.set (collate r.orderId)
        { row with item := r.item, quantity := r.quantity }

/-- What the columns other than the key say. -/
def Orders.look (orders : Orders) (key : Text) : Option (Text × ℤ) :=
  (orders.get? key).map fun row => (row.item, row.quantity)

theorem Orders.look_upsert (collate : Text → Text) (orders : Orders)
    (r : OrderCreatedRequest) (key : Text) :
    (orders.upsert collate r).look key =
      if collate r.orderId = key then some (r.item, r.quantity)
      else orders.look key := by
  rw [Orders.upsert, Orders.look, Orders.look]
  split
  · rw [Dict.get?_set]
    simp only [eq_comm (a := key)]
    split <;> rfl
  · rw [Dict.get?_set]
    simp only [eq_comm (a := key)]
    split <;> rfl

/-! ## The handler -/

/-- What became of one transaction. -/
inductive Attempt where
  | commits
  | raises (e : Exn)
  deriving DecidableEq

structure DbWorld where
  world : World
  orders : Orders := Dict.empty

def DbWorld.onBus (s : DbWorld) (x : Bus Unit) : Except Exn Unit × DbWorld :=
  ((x s.world).1, { s with world := (x s.world).2 })

/-- What one delivery meets: its transaction, and what the publish of the
answer reads and draws. -/
structure Delivery where
  attempt : Attempt
  recipients : List Json
  draws : Draws
  now : ℕ
  occurredAt : String

/-- The publish of the answer. -/
def orderPersisted (orderId : Text) (occurredAt eventId : String) :
    PublishArgs where
  subject := "events.orders.OrderPersisted"
  payload := encodeOrderPersisted orderId occurredAt
  eventType := "OrderPersisted"
  correlationId := some eventId

/-- `_handle` -/
def handle (P : Primitives) (w : Pydantic) (client : BusClient)
    (collate : Text → Text) (d : Delivery) (event : ReceivedEvent)
    (s : DbWorld) : Except Exn Unit × DbWorld :=
  match decodeOrderCreated event.payload with
  | .error (.malformedPayloadError _) =>
      s.onBus do
        Bus.warn (.malformedOrderCreated event.details.eventId)
        event.ack
  | .error e => (.error e, s)
  | .ok request =>
      match d.attempt with
      | .raises .dbapiError =>
          s.onBus do
            Bus.warn (.upsertFailed request.orderId event.details.eventId)
            event.nak
      | .raises e => (.error e, s)
      | .commits =>
          { s with orders := s.orders.upsert collate request }.onBus do
            let _ ← client.publish P w d.recipients d.draws d.now
              (orderPersisted request.orderId d.occurredAt
                event.details.eventId)
            event.ack

/-! ## The handler as a program

The same `_handle` over its calls, any of which may raise. `upsert` is the whole
`engine.begin` block, the commit included. -/

inductive DbAct where
  | upsert (request : OrderCreatedRequest)
  | log (line : LogLine)
  | publish (args : PublishArgs)
  | ack
  | nak

abbrev DbAct.Resp : DbAct → Type := fun _ => Unit

abbrev DbProg := Prog DbAct DbAct.Resp Exn

def DbAct.call (a : DbAct) : DbProg Unit := Prog.act a

def handleOrderCreated (occurredAt : String) (event : ReceivedEvent) :
    DbProg Unit :=
  match decodeOrderCreated event.payload with
  | .error (.malformedPayloadError _) => do
      DbAct.call (.log (.malformedOrderCreated event.details.eventId))
      DbAct.call .ack
  | .error e => Prog.raise e
  | .ok request => do
      match ← (DbAct.call (.upsert request)).attempt with
      | .error .dbapiError =>
          DbAct.call (.log
            (.upsertFailed request.orderId event.details.eventId))
          DbAct.call .nak
      | .error e => Prog.raise e
      | .ok _ =>
          DbAct.call (.publish
            (orderPersisted request.orderId occurredAt event.details.eventId))
          DbAct.call .ack

/-- What the calls do in one delivery. -/
def DbAct.perform (P : Primitives) (w : Pydantic) (client : BusClient)
    (collate : Text → Text) (d : Delivery) (event : ReceivedEvent) :
    DbAct → DbWorld → Except Exn Unit × DbWorld
  | .upsert request, s =>
      match d.attempt with
      | .raises e => (.error e, s)
      | .commits => (.ok (), { s with orders := s.orders.upsert collate request })
  | .log line, s => s.onBus (Bus.warn line)
  | .publish args, s => s.onBus do
      let _ ← client.publish P w d.recipients d.draws d.now args
  | .ack, s => s.onBus event.ack
  | .nak, s => s.onBus event.nak

/-- Run in the world of one delivery, the program does what `handle` does. -/
theorem exec_handleOrderCreated (P : Primitives) (w : Pydantic)
    (client : BusClient) (collate : Text → Text) (d : Delivery)
    (event : ReceivedEvent) (s : DbWorld) :
    (handleOrderCreated d.occurredAt event).exec
      (DbAct.perform P w client collate d event) s =
      handle P w client collate d event s := by
  rw [handleOrderCreated, handle]
  cases decodeOrderCreated event.payload with
  | error e =>
      cases e with
      | malformedPayloadError why => rfl
      | _ => rfl
  | ok request =>
      simp only [DbAct.call, Prog.exec_bind, Prog.exec_attempt, Prog.exec_act,
        Prog.resume_ok, DbAct.perform]
      cases d.attempt with
      | raises e =>
          cases e with
          | dbapiError => rfl
          | _ => rfl
      | commits =>
          simp only [DbWorld.onBus, Prog.exec_bind, Prog.exec_act,
            DbAct.perform, Bus.bind_apply, Bus.pure_apply]
          rcases client.publish P w d.recipients d.draws d.now
            (orderPersisted request.orderId d.occurredAt
              event.details.eventId) s.world with ⟨a | a, world⟩
          · rfl
          · rfl

end JetCore
