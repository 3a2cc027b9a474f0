import JetCore.Proofs.CdcReplay
import JetCore.Proofs.FilePayloads
import JetCore.Proofs.OccurredAt
import JetCore.Spec.Producers

/-!
# Which results conform to their schemas

An encoder writes the members its schema declares, in the order the schema
declares them, so a payload is valid if each of its values is. Most values are
valid whatever they are; the paths and names are not empty, since what was
empty has been turned away before, and a name in a directory never is. Only the
status code is reported as it came.
-/

namespace JetCore

open Lib

/-! ## Values -/

theorem validates_readText (s : Text) :
    Schema.Validates stringSchema (Json.readBack true (.str s)) :=
  validates_string.mpr ⟨_, rfl⟩

theorem validates_readString (s : String) :
    Schema.Validates stringSchema (Json.readBack true (Json.string s)) :=
  validates_readText _

theorem validates_readPath {s : Text} (hs : s ≠ []) :
    Schema.Validates nonEmptyString (Json.readBack true (.str s)) :=
  validates_nonEmptyString.mpr ⟨_, rfl, Json.readText_ne_nil true hs⟩

theorem validates_count (n : ℕ) :
    Schema.Validates countSchema (Json.readBack true (.int n)) :=
  (validates_atLeast 0).mpr ⟨n, by simp [Json.readBack, Json.number?], by simp⟩

theorem validates_time (now : UtcTime) : Schema.Validates timeSchema
    (Json.readBack true (Json.string now.iso)) := by
  rw [Json.readBack_string]
  simp only [Schema.Validates, timeSchema, Schema.valid_cons,
    Schema.valid_nil, Schema.accepts, Json.string, JsonType.holds,
    isDateTime_iso, Bool.and_true]

theorem validates_oneOf {values : List String} {s : String}
    (hs : s ∈ values) : Schema.Validates (oneOf values)
      (Json.readBack true (Json.string s)) := by
  rw [Json.readBack_string]
  simp only [Schema.Validates, oneOf, Schema.valid_cons, Schema.valid_nil,
    Schema.accepts, Json.string, JsonType.holds, Bool.true_and, Bool.and_true]
  exact List.contains_iff_mem.mpr (List.mem_map_of_mem hs)

theorem validates_statusCode (n : ℕ) :
    Schema.Validates [.type .integer, .minimum 100, .maximum 599]
      (Json.readBack true (.int n)) ↔ 100 ≤ n ∧ n ≤ 599 := by
  have hint : JsonType.integer.holds (.int n) = true := rfl
  simp only [Schema.Validates, Json.readBack, Schema.valid_cons,
    Schema.valid_nil, Schema.accepts, hint, Json.number?, Option.all_some,
    Bool.true_and, Bool.and_true, Bool.and_eq_true, decide_eq_true_eq]
  norm_cast

/-! ## Records -/

theorem says_dumps {v : Json} (hv : Json.Finite v) :
    Says (Json.dumps v) (Json.readBack true v) :=
  ⟨_, rfl, Json.render_writes Json.pythonStyle hv⟩

/-- The object of so many of the members that are declared. -/
def declared (schemas : List (String × Schema)) (values : List Json) : Json :=
  Json.object ((schemas.map Prod.fst).zip values)

theorem readBack_declared (schemas : List (String × Schema))
    (values : List Json) : Json.readBack true (declared schemas values) =
      declared schemas (values.map (Json.readBack true)) := by
  rw [declared, Json.readBack_object, declared, List.zip_map_right]
  rfl

theorem finite_declared (schemas : List (String × Schema)) {values : List Json}
    (h : ∀ v ∈ values, Json.Finite v) :
    Json.Finite (declared schemas values) :=
  Json.finite_object fun f hf => h f.2 (List.of_mem_zip hf).2

variable {required : List String} {schemas : List (String × Schema)}
  {args : PublishArgs}

theorem tellsUtc_object {fields : List (String × Json)}
    (h : ∀ v, ("occurredAt", v) ∈ fields → ∃ s, v = Json.string (s ++ "Z")) :
    TellsUtc (Json.object fields) := by
  intro time htime
  rw [getItem_object, elim_ok_eq_ok, Option.map_eq_some_iff] at htime
  obtain ⟨⟨name, v⟩, hfind, rfl⟩ := htime
  have hname : name = "occurredAt" := by
    simpa using List.find?_some hfind
  subst hname
  exact h v (List.mem_reverse.mp (List.mem_of_find?_eq_some hfind))

theorem conforms_of_values (values : List Json)
    (hschema : resultSchemas.lookup args.subject =
      some (Schema.record required schemas))
    (hpayload : args.payload = Json.dumps (declared schemas values))
    (hnodup : (schemas.map Prod.fst).Nodup)
    (hrequired : ∀ name ∈ required,
      name ∈ (schemas.map Prod.fst).take values.length)
    (hfinite : ∀ v ∈ values, Json.Finite v)
    (hutc : ∀ v, ("occurredAt", v) ∈
      (schemas.map Prod.fst).zip (values.map (Json.readBack true)) →
      ∃ s, v = Json.string (s ++ "Z"))
    (hvalues : ∀ p ∈ schemas.zip (values.map (Json.readBack true)),
      Schema.Validates p.1.2 p.2) : Conforms args := by
  refine ⟨_, declared schemas (values.map (Json.readBack true)), hschema, ?_,
    ?_, tellsUtc_object hutc⟩
  · rw [hpayload, ← readBack_declared]
    exact says_dumps (finite_declared schemas hfinite)
  · refine (Schema.validates_declared hnodup ?_).mpr hvalues
    rw [List.length_map]
    exact hrequired

/-- A payload says one thing only. -/
theorem says_unique {v v' : Json} (hv : Json.Finite v)
    (hint : Json.convertible v = true) (h : Says (Json.dumps v) v') :
    v' = Json.readBack true v := by
  obtain ⟨t, ht, hwrites⟩ := h
  have hloads := Json.loads_dumps_readBack hv hint
  rw [ht, Json.loads_writes hwrites] at hloads
  split at hloads
  · exact Except.ok.inj hloads
  · cases hloads

theorem readBack_iso (now : UtcTime) :
    ∃ s, Json.readBack true (Json.string now.iso) = Json.string (s ++ "Z") :=
  ⟨_, Json.readBack_string true now.iso⟩

/-! ## The results of the file storage adapter -/

variable {now : UtcTime} {path : Text}

theorem completed_conforms (hpath : path ≠ []) (size : ℕ)
    (hschema : resultSchemas.lookup args.subject = some fileCompletedSchema)
    (hpayload : args.payload = encodeCompleted path size now.iso) :
    Conforms args := by
  refine conforms_of_values [.str path, .int size,
    Json.string now.iso] hschema hpayload (by decide) (by simp) ?_ ?_ ?_
  · simp [Json.Finite, Json.string]
  · simp [readBack_iso]
  · simp [validates_readPath hpath, validates_count, validates_time]

theorem readCompleted_conforms (hpath : path ≠ []) (content : Bytes)
    (hschema : resultSchemas.lookup args.subject =
      some fileReadCompletedSchema)
    (hpayload : args.payload = encodeReadCompleted path content now.iso) :
    Conforms args := by
  refine conforms_of_values [.str path,
    Json.string (Base64.encode content), .int content.length,
    Json.string now.iso] hschema hpayload (by decide) (by simp) ?_ ?_ ?_
  · simp [Json.Finite, Json.string]
  · simp [readBack_iso]
  · simp [validates_readPath hpath, validates_readString, validates_count,
      validates_time]

theorem deleteCompleted_conforms (hpath : path ≠ [])
    (hschema : resultSchemas.lookup args.subject =
      some fileDeleteCompletedSchema)
    (hpayload : args.payload = encodeDeleteCompleted path now.iso) :
    Conforms args := by
  refine conforms_of_values [.str path, Json.string now.iso]
    hschema hpayload (by decide) (by simp) ?_ ?_ ?_
  · simp [Json.Finite, Json.string]
  · simp [readBack_iso]
  · simp [validates_readPath hpath, validates_time]

theorem operationFailed_conforms {operation reason : String}
    (hoperation : operation ∈ ["read", "list", "delete"])
    (hreason : reason ∈ ["not_found", "not_a_directory"])
    (hschema : resultSchemas.lookup args.subject =
      some fileOperationFailedSchema)
    (hpayload : args.payload =
      encodeOperationFailed path operation reason now.iso) :
    Conforms args := by
  refine conforms_of_values [.str path, Json.string operation,
    Json.string reason, Json.string now.iso] hschema hpayload (by decide)
    (by simp) ?_ ?_ ?_
  · simp [Json.Finite, Json.string]
  · simp [readBack_iso]
  · simp [validates_readText, validates_oneOf hoperation,
      validates_oneOf hreason, validates_time]

theorem entry_eq (e : FileEntry) : e.toJson =
    declared [("name", nonEmptyString), ("isDirectory", [.type .boolean]),
      ("sizeBytes", countSchema)]
      [.str e.name, .bool e.isDirectory, .int e.sizeBytes] := rfl

theorem entry_validates {e : FileEntry} (hname : e.name ≠ []) :
    Schema.Validates fileEntrySchema (Json.readBack true e.toJson) := by
  have hflag : Schema.Validates [.type .boolean]
      (Json.readBack true (.bool e.isDirectory)) := rfl
  rw [entry_eq, readBack_declared]
  refine (Schema.validates_declared (by decide) (by simp)).mpr ?_
  simp [validates_readPath hname, hflag, validates_count]

theorem entries_validate {entries : List FileEntry}
    (hnames : ∀ e ∈ entries, e.name ≠ []) :
    Schema.Validates [.type .array, .items fileEntrySchema]
      (Json.readBack true (.arr (entries.map FileEntry.toJson))) := by
  simp only [Schema.Validates, Json.readBack, Json.readBackItems_eq,
    Schema.valid_cons, Schema.valid_nil, Schema.accepts, JsonType.holds,
    List.map_map, Bool.true_and, Bool.and_true, List.all_eq_true,
    List.forall_mem_map]
  exact fun e he => entry_validates (hnames e he)

theorem listCompleted_conforms {entries : List FileEntry}
    (hnames : ∀ e ∈ entries, e.name ≠ [])
    (hschema : resultSchemas.lookup args.subject =
      some fileListCompletedSchema)
    (hpayload : args.payload = encodeListCompleted path entries now.iso) :
    Conforms args := by
  have hfinite : Json.Finite (.arr (entries.map FileEntry.toJson)) := by
    refine Json.finite_arr (List.forall_mem_map.mpr fun e _ => ?_)
    rw [entry_eq]
    exact finite_declared _ (by simp [Json.Finite])
  refine conforms_of_values [.str path,
    .arr (entries.map FileEntry.toJson), Json.string now.iso]
    hschema hpayload (by decide) (by simp) ?_ ?_ ?_
  · simp [hfinite, Json.string, show Json.Finite (.str path) from trivial,
      show ∀ s, Json.Finite (.str s) from fun _ => trivial]
  · simp [readBack_iso]
  · simp [validates_readText, entries_validate hnames, validates_time]

/-! ## The results of the other adapters -/

theorem orderPersisted_conforms {orderId : Text} (horder : orderId ≠ [])
    (eventId : String) :
    Conforms (orderPersisted orderId now.iso eventId) := by
  have hschema : resultSchemas.lookup "events.orders.OrderPersisted" =
      some orderPersistedSchema := rfl
  refine conforms_of_values [.str orderId, Json.string "persisted",
    Json.string now.iso] hschema rfl (by decide) (by simp) ?_ ?_ ?_
  · simp [Json.Finite, Json.string]
  · simp [readBack_iso]
  · simp [validates_readPath horder, validates_oneOf, validates_time]

theorem row_validates (row : OrdersRow) : Schema.Validates [.type .object]
    (Json.readBack true (jsonSafeRow row.values)) := by
  rw [jsonSafeRow, Json.readBack_object]
  rfl

theorem row_finite (row : OrdersRow) :
    Json.Finite (jsonSafeRow row.values) :=
  (Json.plain_readBack true (plain_jsonSafeRow row)).2.1

theorem rowChanged_conforms {event : BinlogEvent} {change : RowChange}
    (h : change ∈ event.changes) : Conforms (rowChanged change) := by
  have hstring : ∀ s, Json.Finite (Json.string s) := fun _ => trivial
  obtain ⟨operation, table, row, previous, hoperation, rfl⟩ :
      ∃ operation table row previous,
        operation ∈ ["insert", "update", "delete"] ∧
          change = ⟨operation, table, row, previous⟩ := by
    rcases change_cases h with ⟨table, row, rfl⟩ |
      ⟨table, row, previous, rfl⟩ | ⟨table, row, rfl⟩
    · exact ⟨_, _, _, _, by simp, rfl⟩
    · exact ⟨_, _, _, _, by simp, rfl⟩
    · exact ⟨_, _, _, _, by simp, rfl⟩
  have hschema : resultSchemas.lookup "events.db.orders.RowChanged" =
      some rowChangedSchema := rfl
  cases previous with
  | none =>
      refine conforms_of_values [Json.string operation, Json.string table,
        jsonSafeRow row.values] hschema rfl (by decide) (by simp) ?_ ?_ ?_
      · simp [hstring, row_finite]
      · simp
      · simp [validates_oneOf hoperation, validates_readString, row_validates]
  | some previous =>
      refine conforms_of_values [Json.string operation, Json.string table,
        jsonSafeRow row.values, jsonSafeRow previous.values] hschema rfl
        (by decide) (by simp) ?_ ?_ ?_
      · simp [hstring, row_finite]
      · simp
      · simp [validates_oneOf hoperation, validates_readString, row_validates]

/-- The values of the schema's members, in its order. -/
def responseValues (now : UtcTime) (response : HttpResponse) : List Json := [
  Json.string (if response.isSuccess then "success" else "error"),
  .int response.statusCode,
  Json.string (Base64.encode response.content),
  Json.string now.iso]

theorem requestCompleted_payload (response : HttpResponse) (eventId : String) :
    (requestCompleted response now.iso eventId).payload =
      Json.dumps (declared [("status", oneOf ["success", "error"]),
        ("statusCode", [.type .integer, .minimum 100, .maximum 599]),
        ("body", stringSchema), ("occurredAt", timeSchema)]
        (responseValues now response)) := rfl

/-- A code of three digits is read back. -/
theorem response_convertible (delivered : DeliveredResponse)
    (schemas : List (String × Schema)) : Json.convertible
      (declared schemas (responseValues now delivered.response)) = true := by
  have hcode : Json.convertible (.int delivered.response.statusCode) =
      true := by
    have hdigits : (Nat.toDigits 10
        delivered.response.statusCode).length ≤ 3 :=
      (Nat.length_toDigits_le_iff (by decide) (by decide)).mpr
        (Nat.lt_succ_of_le delivered.threeDigits.2)
    exact decide_eq_true (hdigits.trans (by decide))
  have hstring : ∀ s, Json.convertible (Json.string s) = true := fun _ => rfl
  have hvalues : ∀ v ∈ responseValues now delivered.response,
      Json.convertible v = true := by
    simp [responseValues, hcode, hstring]
  exact Json.convertible_object fun f hf =>
    hvalues f.2 (List.of_mem_zip hf).2

theorem requestCompleted_conforms_iff (delivered : DeliveredResponse)
    (eventId : String) :
    Conforms (requestCompleted delivered.response now.iso eventId) ↔
      delivered.response.statusCode ≤ 599 := by
  have hfinite : ∀ v ∈ responseValues now delivered.response,
      Json.Finite v := by
    simp [responseValues, Json.Finite, Json.string]
  constructor
  · rintro ⟨schema, v, hschema, hsays, hvalid, -⟩
    obtain rfl : requestCompletedSchema = schema := Option.some.inj hschema
    rw [requestCompleted_payload] at hsays
    have hv := says_unique (finite_declared _ hfinite)
      (response_convertible delivered _) hsays
    rw [hv, readBack_declared] at hvalid
    have hvalues := (Schema.validates_declared (by decide)
      (by simp [responseValues])).mp hvalid
    have hcode := hvalues (("statusCode", [.type .integer, .minimum 100,
      .maximum 599]), Json.readBack true
        (.int delivered.response.statusCode)) (by simp [responseValues])
    exact ((validates_statusCode _).mp hcode).2
  · intro hcode
    refine conforms_of_values (responseValues now delivered.response)
      (show resultSchemas.lookup "events.http.RequestCompleted" =
        some requestCompletedSchema from rfl)
      (requestCompleted_payload _ eventId)
      (by decide) (by simp [responseValues]) hfinite ?_ ?_
    · simp [responseValues, readBack_iso]
    · have hstatus : Schema.Validates (oneOf ["success", "error"])
          (Json.readBack true (Json.string
            (if delivered.response.isSuccess then "success" else "error"))) :=
        validates_oneOf (by split <;> simp)
      simp [responseValues, hstatus, validates_readString, validates_time,
        validates_statusCode, hcode, delivered.threeDigits.1]

end JetCore
