import JetCore.Lib.JsonSchema

/-!
# The payload schemas under `schemas/`

Each file by its keywords. `title`, `description`, `default` and
`contentEncoding` say nothing about validity and are left out.
-/

namespace JetCore

open Lib

def stringSchema : Schema := [.type .string]

def nonEmptyString : Schema := [.type .string, .minLength 1]

def oneOf (values : List String) : Schema := [.type .string, .enum values]

/-- A count, or a size in bytes. -/
def countSchema : Schema := [.type .integer, .minimum 0]

def timeSchema : Schema := [.type .string, .dateTime]

/-- `events.orders.OrderCreated.v1.json` -/
def orderCreatedSchema : Schema :=
  Schema.record ["orderId", "item"] [
    ("orderId", nonEmptyString),
    ("item", nonEmptyString),
    ("quantity", [.type .integer, .minimum 1])]

/-- `events.orders.OrderPersisted.v1.json` -/
def orderPersistedSchema : Schema :=
  Schema.record ["orderId", "status", "occurredAt"] [
    ("orderId", nonEmptyString),
    ("status", oneOf ["persisted"]),
    ("occurredAt", timeSchema)]

/-- `events.db.orders.RowChanged.v1.json` -/
def rowChangedSchema : Schema :=
  Schema.record ["operation", "table", "row"] [
    ("operation", oneOf ["insert", "update", "delete"]),
    ("table", stringSchema),
    ("row", [.type .object]),
    ("previousRow", [.type .object])]

/-- `events.files.FileWriteRequested.v1.json` -/
def fileWriteRequestedSchema : Schema :=
  Schema.record ["path", "content"] [
    ("path", nonEmptyString),
    ("content", stringSchema)]

/-- `events.files.FileReadRequested.v1.json` and
`events.files.FileDeleteRequested.v1.json`, which are the same. -/
def filePathRequestedSchema : Schema :=
  Schema.record ["path"] [("path", nonEmptyString)]

/-- `events.files.FileListRequested.v1.json` -/
def fileListRequestedSchema : Schema :=
  Schema.record ["path"] [("path", stringSchema)]

/-- `events.files.FileCreateCompleted.v1.json` and
`events.files.FileWriteCompleted.v1.json`, which are the same. -/
def fileCompletedSchema : Schema :=
  Schema.record ["path", "sizeBytes", "occurredAt"] [
    ("path", nonEmptyString),
    ("sizeBytes", countSchema),
    ("occurredAt", timeSchema)]

/-- `events.files.FileReadCompleted.v1.json` -/
def fileReadCompletedSchema : Schema :=
  Schema.record ["path", "content", "sizeBytes", "occurredAt"] [
    ("path", nonEmptyString),
    ("content", stringSchema),
    ("sizeBytes", countSchema),
    ("occurredAt", timeSchema)]

/-- One of the `entries` of a listing. -/
def fileEntrySchema : Schema :=
  Schema.record ["name", "isDirectory", "sizeBytes"] [
    ("name", nonEmptyString),
    ("isDirectory", [.type .boolean]),
    ("sizeBytes", countSchema)]

/-- `events.files.FileListCompleted.v1.json` -/
def fileListCompletedSchema : Schema :=
  Schema.record ["path", "entries", "occurredAt"] [
    ("path", stringSchema),
    ("entries", [.type .array, .items fileEntrySchema]),
    ("occurredAt", timeSchema)]

/-- `events.files.FileDeleteCompleted.v1.json` -/
def fileDeleteCompletedSchema : Schema :=
  Schema.record ["path", "occurredAt"] [
    ("path", nonEmptyString),
    ("occurredAt", timeSchema)]

/-- `events.files.FileOperationFailed.v1.json` -/
def fileOperationFailedSchema : Schema :=
  Schema.record ["path", "operation", "reason", "occurredAt"] [
    ("path", stringSchema),
    ("operation", oneOf ["read", "list", "delete"]),
    ("reason", oneOf ["not_found", "not_a_directory"]),
    ("occurredAt", timeSchema)]

/-- `events.http.RequestCompleted.v1.json` -/
def requestCompletedSchema : Schema :=
  Schema.record ["status", "statusCode", "body", "occurredAt"] [
    ("status", oneOf ["success", "error"]),
    ("statusCode", [.type .integer, .minimum 100, .maximum 599]),
    ("body", stringSchema),
    ("occurredAt", timeSchema)]

/-! ## What the small schemas ask for -/

variable {v : Json}

theorem validates_string : Schema.Validates stringSchema v ↔
    ∃ t, v = .str t := by
  cases v with
  | str t => simp [Schema.Validates, stringSchema, Schema.accepts,
      JsonType.holds]
  | _ => simp [Schema.Validates, stringSchema, Schema.accepts, JsonType.holds]

theorem validates_nonEmptyString : Schema.Validates nonEmptyString v ↔
    ∃ t, v = .str t ∧ t ≠ [] := by
  cases v with
  | str t => simp [Schema.Validates, nonEmptyString, Schema.accepts,
      JsonType.holds, Nat.one_le_iff_ne_zero]
  | _ => simp [Schema.Validates, nonEmptyString, Schema.accepts,
      JsonType.holds]

/-- An integer is a number that is one, however it is written. -/
theorem holds_integer : JsonType.integer.holds v = true ↔
    ∃ n : ℤ, v.number? = some (n : ℚ) := by
  rw [JsonType.holds]
  cases v.number? with
  | none => simp
  | some q =>
      constructor
      · intro h
        have hden : q.den = 1 := by simpa [Rat.isInt] using h
        exact ⟨q.num, by rw [Rat.coe_int_num_of_den_eq_one hden]⟩
      · rintro ⟨n, hn⟩
        rw [Option.some.inj hn]
        rfl

theorem validates_atLeast (low : ℤ) :
    Schema.Validates [.type .integer, .minimum low] v ↔
      ∃ n : ℤ, v.number? = some (n : ℚ) ∧ low ≤ n := by
  simp only [Schema.Validates, Schema.valid_cons, Schema.valid_nil,
    Schema.accepts, Bool.and_true, Bool.and_eq_true, holds_integer]
  constructor
  · rintro ⟨⟨n, hn⟩, hlow⟩
    rw [hn] at hlow
    exact ⟨n, hn, by simpa using hlow⟩
  · rintro ⟨n, hn, hlow⟩
    refine ⟨⟨n, hn⟩, ?_⟩
    rw [hn]
    simpa using hlow

end JetCore
