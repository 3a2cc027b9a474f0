import JetCore.Lib.Run
import JetCore.Ref.DbAdapter
import Mathlib.Logic.Function.Basic

/-!
# The write handler's consumer

A stream of well-formed `OrderCreated` events, and the write handler working
through it. Each delivery is one turn of the handler on one event that is not
acked, has attempts left and whose delay, if an earlier delivery was nakked or
left unanswered, is over. In between time passes. Which event comes next is
not determined, and neither is what becomes of its transaction or of the
publish of its answer.
-/

namespace JetCore

open Lib

/-- An `OrderCreated` event with what its payload decodes to. -/
structure OrderCreated where
  event : Event
  payload : Bytes
  data : Bytes
  request : OrderCreatedRequest
  decodes : decodeOrderCreated payload = .ok request

/-- The `n`-th delivery of the `i`-th event. -/
def OrderCreated.received (o : OrderCreated) (i n : ℕ) : ReceivedEvent where
  event := o.event
  payload := o.payload
  msg := ⟨i + 1, "events.orders.OrderCreated", o.data, n⟩

structure WriteQueue where
  db : DbWorld
  /-- Seconds. -/
  now : ℕ := 0
  /-- By position in the stream. -/
  deliveries : ℕ → ℕ := fun _ => 0
  readyAt : ℕ → ℕ := fun _ => 0

inductive QueueAct where
  | wait (seconds : ℕ)
  | deliver (i : ℕ) (d : Delivery)

/-- The adapter a queue belongs to. -/
structure WriteAdapter where
  client : BusClient
  collate : Text → Text
  stream : List OrderCreated

namespace WriteQueue

def Acked (q : WriteQueue) (i : ℕ) : Prop :=
  ∃ m ∈ q.db.world.acked, m.seq = i + 1

instance (q : WriteQueue) (i : ℕ) : Decidable (q.Acked i) :=
  inferInstanceAs (Decidable (∃ m ∈ q.db.world.acked, m.seq = i + 1))

def step (P : Primitives) (w : Pydantic) (a : WriteAdapter) (q : WriteQueue) :
    QueueAct → Option WriteQueue
  | .wait seconds => some { q with now := q.now + seconds }
  | .deliver i d =>
      match a.stream[i]? with
      | none => none
      | some o =>
          let n := q.deliveries i + 1
          if ¬ q.Acked i ∧ n ≤ maxDeliverAttempts ∧ q.readyAt i ≤ q.now then
            some { q with
              db := (handle P w a.client a.collate d (o.received i n) q.db).2
              deliveries := Function.update q.deliveries i n
              readyAt := Function.update q.readyAt i (q.now + nakDelay n) }
          else none

/-- The events in the order of their acks. -/
def ackedOrders (a : WriteAdapter) (q : WriteQueue) : List OrderCreated :=
  q.db.world.acked.filterMap fun m => a.stream[m.seq - 1]?

end WriteQueue

/-- The table after the upserts of these events, one after the other. -/
def upsertAll (collate : Text → Text) (orders : Orders)
    (events : List OrderCreated) : Orders :=
  events.foldl (fun orders o => orders.upsert collate o.request) orders

/-- The key of an event's row. -/
def WriteAdapter.key (a : WriteAdapter) (o : OrderCreated) : Text :=
  a.collate o.request.orderId

end JetCore
