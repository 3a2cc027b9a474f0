import JetCore.Ref.CdcWatcher

/-!
# The table behind a binlog, and a consumer that rebuilds it

A binlog is valid when its changes can be applied to an empty table one after
the other: an insert finds no row under its key, an update and a delete find
the row they carry, and an update that moves a row finds its new key free.

The consumer knows the payloads only. It applies what it receives and never
checks it, because after a restart of the adapter it receives all of it again.
-/

namespace JetCore

open Lib

abbrev OrdersTable := Dict String OrdersRow

/-- Applies one change, if the table is as the change says. -/
def OrdersTable.change (t : OrdersTable) (c : RowChange) :
    Option OrdersTable :=
  match c.operation, c.previousRow with
  | "insert", none =>
      if t.get? c.row.orderId = none then some (t.set c.row.orderId c.row)
      else none
  | "update", some previous =>
      if t.get? previous.orderId = some previous ∧
          (c.row.orderId = previous.orderId ∨
            t.get? c.row.orderId = none) then
        some ((t.pop previous.orderId).set c.row.orderId c.row)
      else none
  | "delete", none =>
      if t.get? c.row.orderId = some c.row then some (t.pop c.row.orderId)
      else none
  | _, _ => none

/-- The table after some changes, from empty. -/
def OrdersTable.after (changes : List RowChange) : Option OrdersTable :=
  changes.foldlM OrdersTable.change Dict.empty

def flattened (binlog : List BinlogEvent) : List RowChange :=
  binlog.flatMap BinlogEvent.changes

/-- `value[name]`, a text. -/
def getText (j : Json) (name : String) : Except Exn Text := do
  match ← getItem j name with
  | .str t => .ok t
  | _ => .error .typeError

/-- Insert: put the row. Update: remove the previous row's key, put the row.
Delete: remove the row's key. -/
def consume (held : Dict Text Json) (payload : Bytes) :
    Except Exn (Dict Text Json) := do
  let data ← jsonLoads payload
  let operation ← getText data "operation"
  let row ← getItem data "row"
  let key ← getText row "order_id"
  if operation = Text.ofString "insert" then
    return held.set key row
  else if operation = Text.ofString "update" then
    let previous ← getItem data "previousRow"
    let previousKey ← getText previous "order_id"
    return (held.pop previousKey).set key row
  else
    return held.pop key

def consumeAll (payloads : List Bytes) : Except Exn (Dict Text Json) :=
  payloads.foldlM consume Dict.empty

/-! ## Runs -/

/-- One `_run_stream` from the first event on, up to where it was stopped. -/
structure StreamRun where
  control : CdcControl
  passes : List (List BinlogEvent)

def StreamRun.published (r : StreamRun) : List PublishArgs :=
  (runStream r.control r.passes {}).2.published

end JetCore
