import JetCore.Spec.Binlog
import JetCore.Spec.OrderFlow

/-!
# The table of orders and its binlog

The table of `init.sql` beside the flow that writes it. An upsert that commits
inserts a row, changes one, or finds the row as it wants it; the database logs
the first two, with full row images, and nothing for the third. `created_at`
and `updated_at` are the database's own, off its clock. The write user has no
`DELETE`.
-/

namespace JetCore

open Lib

structure OrdersDb where
  /-- Under the weights of their keys. -/
  rows : Dict Text OrdersRow := Dict.empty
  binlog : List BinlogEvent := []

/-- The row an insert makes of a request. -/
def OrderCreatedRequest.row? (now : Timestamp) (r : OrderCreatedRequest) :
    Option OrdersRow := do
  let orderId ← r.orderId.toString?
  let item ← r.item.toString?
  return ⟨orderId, item, Int32.ofInt r.quantity, now, now⟩

/-- The row an update makes of the one it finds. `updated_at` is
`ON UPDATE CURRENT_TIMESTAMP`. -/
def OrdersRow.updated (old new : OrdersRow) : OrdersRow :=
  { old with
    item := new.item, quantity := new.quantity, updatedAt := new.updatedAt }

/-- `_UPSERT`, committed at a time, with what is logged of it. -/
def OrdersDb.upsert (collate : Text → Text) (db : OrdersDb) (now : Timestamp)
    (r : OrderCreatedRequest) : OrdersDb :=
  match r.row? now with
  | none => db
  | some new =>
      match db.rows.get? (collate r.orderId) with
      | none => {
          rows := db.rows.set (collate r.orderId) new
          binlog := db.binlog ++ [.write "orders" [new]] }
      | some old =>
          -- an update that changes nothing is not logged
          if old.item = new.item ∧ old.quantity = new.quantity then db
          else {
            rows := db.rows.set (collate r.orderId) (old.updated new)
            binlog := db.binlog ++ [.update "orders" [(old, old.updated new)]] }

/-- The business columns. -/
def OrdersRow.order (row : OrdersRow) : OrderRow :=
  ⟨Text.ofString row.orderId, Text.ofString row.item, row.quantity.toInt⟩

/-! ## Beside the flow -/

/-- What the action commits, if it is a call that upserts. -/
def OrderFlow.commits? (s : OrderFlow) : OrderFlowAct →
    Option OrderCreatedRequest
  | .answer task r done _ =>
      match s.calling task with
      | some (.upsert request) =>
          if done || (r (.upsert request)).isOk then some request else none
      | _ => none
  | _ => none

structure OrderRows where
  flow : OrderFlow := {}
  db : OrdersDb := {}

namespace OrderRows

/-- An action of the flow, at a time of the database. -/
def step (collate : Text → Text) (s : OrderRows)
    (a : OrderFlowAct × Timestamp) : Option OrderRows :=
  (s.flow.step collate a.1).map fun flow => {
    flow
    db := (s.flow.commits? a.1).elim s.db (s.db.upsert collate a.2) }

/-- The row changes logged so far. -/
def logged (s : OrderRows) : List RowChange := flattened s.db.binlog

end OrderRows

/-- The consumer holds the rows of the table under their order ids, with what
the business columns say, and nothing else. -/
structure Shows (held : Dict Text Json) (orders : Orders) : Prop where
  row : ∀ row, (∃ k, orders.get? k = some row) ↔
    ∃ json, held.get? row.orderId = some json ∧
      getText json "order_id" = .ok row.orderId ∧
      getText json "item" = .ok row.item ∧
      getItem json "quantity" = .ok (.int row.quantity)
  only : ∀ orderId ∈ held.keys, ∃ k row, orders.get? k = some row ∧
    row.orderId = orderId

end JetCore
