import JetCore.Ref.Exn

/-!
# `envelope.py`: the event envelope

The four models of the wire format and their mapping to and from JSON. What
pydantic does with a model is spelled out: members are written under their
alias in field order, `None` as `null`; reading looks a member up under its
alias and then under its own name (`populate_by_name`), ignores members it
does not know, takes a string field from a JSON string only, and calls the
default factory of `eventId` or `eventCreated` when the member is missing. The
values those factories would draw are an argument, `Drawn`.

What stays a parameter is pydantic's text layer, `Pydantic`: the JSON text of
a value, the value of a JSON text, and the two directions of a timestamp.
-/

namespace JetCore

open Lib

/-- A UTC instant a Python `datetime` can hold: microseconds since year 1. -/
abbrev DateTime := Fin 315537897600000000

structure EventDetails where
  eventId : String
  eventCreated : DateTime
  eventType : String
  eventSchemaVersion : String
  sourceServiceId : String
  correlationId : Option String := none
  signature : Option String := none
  sourcePublicKey : Option String := none
  deriving DecidableEq

structure EncryptionMetadata where
  algorithm : String
  recipients : List String
  deriving DecidableEq

structure EventEnvelope where
  eventDetails : EventDetails
  encryption : EncryptionMetadata
  eventPayload : String
  deriving DecidableEq

structure Event where
  event : EventEnvelope
  deriving DecidableEq

/-- What the default factories `new_event_id` and `utc_now` answer. -/
structure Drawn where
  eventId : String
  now : DateTime
  deriving DecidableEq

/-- pydantic's JSON text layer. -/
structure Pydantic where
  dumpJson : Json → Bytes
  parseJson : Bytes → Except Exn Json
  dumpDatetime : DateTime → Json
  parseDatetime : Json → Except Exn DateTime

/-! ## Writing -/

def optionalString : Option String → Json
  | none => .null
  | some s => Json.string s

def EventDetails.toJson (w : Pydantic) (d : EventDetails) : Json :=
  Json.object [
    ("eventId", Json.string d.eventId),
    ("eventCreated", w.dumpDatetime d.eventCreated),
    ("eventType", Json.string d.eventType),
    ("eventSchemaVersion", Json.string d.eventSchemaVersion),
    ("sourceServiceId", Json.string d.sourceServiceId),
    ("correlationId", optionalString d.correlationId),
    ("signature", optionalString d.signature),
    ("sourcePublicKey", optionalString d.sourcePublicKey)]

def EncryptionMetadata.toJson (m : EncryptionMetadata) : Json :=
  Json.object [
    ("algorithm", Json.string m.algorithm),
    ("recipients", .arr (m.recipients.map Json.string))]

def EventEnvelope.toJson (w : Pydantic) (e : EventEnvelope) : Json :=
  Json.object [
    ("eventDetails", e.eventDetails.toJson w),
    ("encryption", e.encryption.toJson),
    ("eventPayload", Json.string e.eventPayload)]

def Event.toJson (w : Pydantic) (e : Event) : Json :=
  Json.object [("event", e.event.toJson w)]

def Event.toWire (w : Pydantic) (e : Event) : Bytes := w.dumpJson (e.toJson w)

/-! ## Reading -/

def asObject : Json → Except Exn (List (Text × Json))
  | .obj fields => .ok fields
  | _ => .error .validationError

def asString : Json → Except Exn String
  | .str s => (Text.toString? s).elim (.error .validationError) .ok
  | _ => .error .validationError

def asOptionalString : Json → Except Exn (Option String)
  | .null => .ok none
  | j => (asString j).map some

def asStringList : Json → Except Exn (List String)
  | .arr items => items.mapM asString
  | _ => .error .validationError

/-- A member, under its alias or else under the field's own name. -/
def member (fields : List (Text × Json)) (byAlias byName : String) : Option Json :=
  (Json.get? fields (Text.ofString byAlias)).or
    (Json.get? fields (Text.ofString byName))

/-- A member that must be there. -/
def field {β : Type} (fields : List (Text × Json)) (byAlias byName : String)
    (read : Json → Except Exn β) : Except Exn β :=
  (member fields byAlias byName).elim (.error .validationError) read

/-- A member with a default. -/
def fieldOr {β : Type} (default : β) (fields : List (Text × Json))
    (byAlias byName : String) (read : Json → Except Exn β) : Except Exn β :=
  (member fields byAlias byName).elim (.ok default) read

def EventDetails.ofJson (w : Pydantic) (drawn : Drawn) (j : Json) :
    Except Exn EventDetails := do
  let fields ← asObject j
  let eventId ← fieldOr drawn.eventId fields "eventId" "event_id" asString
  let eventCreated ← fieldOr drawn.now fields "eventCreated" "event_created"
    w.parseDatetime
  let eventType ← field fields "eventType" "event_type" asString
  let eventSchemaVersion ← field fields "eventSchemaVersion"
    "event_schema_version" asString
  let sourceServiceId ← field fields "sourceServiceId" "source_service_id"
    asString
  let correlationId ← fieldOr none fields "correlationId" "correlation_id"
    asOptionalString
  let signature ← fieldOr none fields "signature" "signature"
    asOptionalString
  let sourcePublicKey ← fieldOr none fields "sourcePublicKey"
    "source_public_key" asOptionalString
  return ⟨eventId, eventCreated, eventType, eventSchemaVersion,
    sourceServiceId, correlationId, signature, sourcePublicKey⟩

def EncryptionMetadata.ofJson (j : Json) : Except Exn EncryptionMetadata := do
  let fields ← asObject j
  let algorithm ← field fields "algorithm" "algorithm" asString
  let recipients ← field fields "recipients" "recipients" asStringList
  return ⟨algorithm, recipients⟩

def EventEnvelope.ofJson (w : Pydantic) (drawn : Drawn) (j : Json) :
    Except Exn EventEnvelope := do
  let fields ← asObject j
  let eventDetails ← field fields "eventDetails" "event_details"
    (EventDetails.ofJson w drawn)
  let encryption ← field fields "encryption" "encryption"
    EncryptionMetadata.ofJson
  let eventPayload ← field fields "eventPayload" "event_payload" asString
  return ⟨eventDetails, encryption, eventPayload⟩

def Event.ofJson (w : Pydantic) (drawn : Drawn) (j : Json) :
    Except Exn Event := do
  let fields ← asObject j
  let event ← field fields "event" "event" (EventEnvelope.ofJson w drawn)
  return ⟨event⟩

def Event.fromWire (w : Pydantic) (drawn : Drawn) (data : Bytes) :
    Except Exn Event := do
  Event.ofJson w drawn (← w.parseJson data)

end JetCore
