import JetCore.Ref.BusClient

/-!
# `cdc_watcher.py` and `encode_row_changed` of the database adapter

One `_run_stream`, from its first poll on. The binlog reader is what it yields:
one list of row events for each `for event in stream` pass, and since the
reader keeps its position, a pass goes on where the one before it stopped. What
the run does not decide itself is its `CdcControl`: when the shutdown flag is
set, counted in the reads of it, and what becomes of each publish.
-/

namespace JetCore

open Lib

/-- A `datetime` without a timezone, as the reader decodes a `TIMESTAMP`. -/
structure Timestamp where
  year : ℕ
  month : ℕ
  day : ℕ
  hour : ℕ
  minute : ℕ
  second : ℕ
  microsecond : ℕ
  deriving DecidableEq

/-- `f"{n:0{width}}"` -/
def padded (width n : ℕ) : String :=
  let digits := toString n
  "".pushn '0' (width - digits.length) ++ digits

def Timestamp.isoformat (t : Timestamp) : String :=
  padded 4 t.year ++ "-" ++ padded 2 t.month ++ "-" ++ padded 2 t.day ++ "T" ++
    padded 2 t.hour ++ ":" ++ padded 2 t.minute ++ ":" ++ padded 2 t.second ++
    if t.microsecond = 0 then "" else "." ++ padded 6 t.microsecond

inductive ColumnValue where
  | text (s : String)
  | int (n : ℤ)
  | datetime (t : Timestamp)
  deriving DecidableEq

/-- A row of `orders`, whose `quantity` is an `INT`. -/
structure OrdersRow where
  orderId : String
  item : String
  quantity : Int32
  createdAt : Timestamp
  updatedAt : Timestamp
  deriving DecidableEq

/-- The full row image, in the table's column order. -/
def OrdersRow.values (r : OrdersRow) : List (String × ColumnValue) := [
  ("order_id", .text r.orderId),
  ("item", .text r.item),
  ("quantity", .int r.quantity.toInt),
  ("created_at", .datetime r.createdAt),
  ("updated_at", .datetime r.updatedAt)]

inductive BinlogEvent where
  | write (table : String) (rows : List OrdersRow)
  /-- Each row before and after. -/
  | update (table : String) (rows : List (OrdersRow × OrdersRow))
  | delete (table : String) (rows : List OrdersRow)

/-! ## `encode_row_changed` -/

def ColumnValue.jsonSafe : ColumnValue → Json
  | .text s => Json.string s
  | .int n => .int n
  | .datetime t => Json.string t.isoformat

def jsonSafeRow (row : List (String × ColumnValue)) : Json :=
  Json.object (row.map fun c => (c.1, c.2.jsonSafe))

/-- What `_publish_row_changed` is called with. -/
structure RowChange where
  operation : String
  table : String
  row : OrdersRow
  previousRow : Option OrdersRow
  deriving DecidableEq

def RowChange.toJson (c : RowChange) : Json :=
  Json.object ([
    ("operation", Json.string c.operation),
    ("table", Json.string c.table),
    ("row", jsonSafeRow c.row.values)] ++
    match c.previousRow with
    | none => []
    | some previous => [("previousRow", jsonSafeRow previous.values)])

def encodeRowChanged (c : RowChange) : Bytes := Json.dumps c.toJson

def rowChanged (c : RowChange) : PublishArgs where
  subject := "events.db.orders.RowChanged"
  payload := encodeRowChanged c
  eventType := "RowChanged"

/-- The rows of an event, in the order the loop publishes them. -/
def BinlogEvent.changes : BinlogEvent → List RowChange
  | .write table rows => rows.map fun row => ⟨"insert", table, row, none⟩
  | .update table rows =>
      rows.map fun row => ⟨"update", table, row.2, some row.1⟩
  | .delete table rows => rows.map fun row => ⟨"delete", table, row, none⟩

/-! ## `_run_stream` -/

inductive PublishOutcome where
  | returns
  /-- The stream may have stored it all the same. -/
  | raises (e : Exn) (stored : Bool)

structure CdcControl where
  /-- How many reads find the shutdown flag not set. -/
  setAfter : Option ℕ
  publish : ℕ → PublishOutcome

structure CdcRun where
  published : List PublishArgs := []
  /-- Calls of `publish`. -/
  attempts : ℕ := 0
  /-- Reads of the shutdown flag. -/
  checks : ℕ := 0

/-- `shutdown.is_set()`, which stays set. -/
def CdcRun.isSet (c : CdcControl) (s : CdcRun) : Bool :=
  match c.setAfter with
  | none => false
  | some n => n ≤ s.checks

def CdcRun.checked (s : CdcRun) : CdcRun := { s with checks := s.checks + 1 }

/-- `_publish_row_changed` -/
def publishRowChanged (c : CdcControl) (change : RowChange) (s : CdcRun) :
    Except Exn Unit × CdcRun :=
  let s' := { s with
    published := s.published ++ [rowChanged change]
    attempts := s.attempts + 1 }
  match c.publish s.attempts with
  | .returns => (.ok (), s')
  | .raises e true => (.error e, s')
  | .raises e false => (.error e, { s with attempts := s.attempts + 1 })

/-- The loop over one event's rows. -/
def publishRows (c : CdcControl) :
    List RowChange → CdcRun → Except Exn Unit × CdcRun
  | [], s => (.ok (), s)
  | change :: rest, s =>
      match publishRowChanged c change s with
      | (.ok (), s) => publishRows c rest s
      | (.error e, s) => (.error e, s)

/-- `for event in stream`, left once the flag is set. -/
def forStream (c : CdcControl) :
    List BinlogEvent → CdcRun → Except Exn Unit × CdcRun
  | [], s => (.ok (), s)
  | event :: rest, s =>
      match publishRows c event.changes s with
      | (.ok (), s) =>
          if s.isSet c then (.ok (), s.checked)
          else forStream c rest s.checked
      | (.error e, s) => (.error e, s)

/-- `while not shutdown.is_set()`, over the passes so far. The flag is read
once more after a pass, before the wait. -/
def runStream (c : CdcControl) :
    List (List BinlogEvent) → CdcRun → Except Exn Unit × CdcRun
  | [], s => (.ok (), s)
  | pass :: rest, s =>
      if s.isSet c then (.ok (), s.checked)
      else
        match forStream c pass s.checked with
        | (.ok (), s) => runStream c rest s.checked
        | (.error e, s) => (.error e, s)

end JetCore
