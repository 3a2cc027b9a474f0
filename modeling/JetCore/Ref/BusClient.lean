import JetCore.Ref.Envelope
import JetCore.Ref.Registry
import JetCore.Ref.Stream

/-!
# `bus_client.py`: publish, fetch, ack and nak

The methods run in `Bus`: they may raise, and they act on the `World`, which
is everything another party can see of them. The stream grows by publishes,
acks and naks are recorded with the message they are for, and log lines are
kept because a swallowed exception leaves nothing else.

What a method waits for is an argument: the recipients its cache holds, the
answers of the identity directory, what `sub.fetch` returned, what the clock
and the random sources drew. `publish` reads the stream it publishes to
twice, once to publish and, on the duplicate path, once to fetch the original.
-/

namespace JetCore

open Lib

/-- A delivery: a message of the stream and how often it has been delivered,
this time included. -/
structure Msg where
  seq : ℕ
  subject : String
  data : Bytes
  numDelivered : ℕ
  deriving DecidableEq

inductive LogLine where
  /-- "publishing to {subject} with no registered recipients yet" -/
  | noRecipients (subject : String)
  /-- "event {id} claims a sourcePublicKey that doesn't match the registered
  identity for {service}" -/
  | keyMismatch (eventId serviceId : String)
  /-- "failed to process message on {subject}, leaving unacked for
  redelivery" -/
  | processFailed (subject : String) (why : Exn)
  /-- "malformed OrderCreated payload for event {id} — acking, not
  retrying" -/
  | malformedOrderCreated (eventId : String)
  /-- "MySQL error upserting order {order} for event {id} — leaving unacked
  for redelivery" -/
  | upsertFailed (orderId : Text) (eventId : String)
  /-- "OrderPersisted {id} has no matching pending request
  (correlationId={correlation}) — likely outlived its own ?wait= timeout" -/
  | noPendingRequest (eventId : String) (correlationId : Option String)
  deriving DecidableEq

structure World where
  stream : Stream
  log : List LogLine := []
  acked : List Msg := []
  /-- The messages nakked, each with its delay in seconds. -/
  nakked : List (Msg × ℕ) := []
  deriving DecidableEq

abbrev Bus := ExceptT Exn (StateM World)

def Bus.of {α : Type} (x : Except Exn α) : Bus α := fun w => (x, w)

def Bus.act (f : World → World) : Bus Unit := fun w => (.ok (), f w)

def Bus.warn (line : LogLine) : Bus Unit :=
  Bus.act fun w => { w with log := w.log ++ [line] }

/-- `if b: logger.warning(..)` -/
def Bus.warnIf (b : Bool) (line : LogLine) : Bus Unit :=
  Bus.act fun w => { w with log := if b then w.log ++ [line] else w.log }

theorem Bus.bind_apply {α β : Type} (x : Bus α) (f : α → Bus β) (w : World) :
    (x >>= f) w =
      match x w with
      | (.ok a, w') => f a w'
      | (.error e, w') => (.error e, w') := by
  show ExceptT.bind x f w = _
  rw [ExceptT.bind, ExceptT.mk]
  show (match x w with | (a, w') => ExceptT.bindCont f a w') = _
  rcases x w with ⟨a | a, w'⟩ <;> rfl

theorem Bus.pure_apply {α : Type} (a : α) (w : World) :
    (pure a : Bus α) w = (.ok a, w) := rfl

/-- `base64.b64decode` -/
def b64decode (s : String) : Except Exn Bytes :=
  match Base64.decode s with
  | .ok b => .ok b
  | .error .notAscii => .error .valueError
  | .error .malformed => .error .binasciiError

def encryptionAlgorithm : String := "age-v1 (X25519 + XChaCha20-Poly1305)"

/-- `MAX_DELIVER_ATTEMPTS` -/
def maxDeliverAttempts : ℕ := 5

/-- `REDELIVERY_BACKOFF_SECONDS` -/
def redeliveryBackoffSeconds : List ℕ := [2, 5, 15, 30, 60]

/-- What a client is constructed with, and its subscriptions by durable
name. -/
structure BusClient where
  serviceId : String
  encryptionKeypair : EncryptionKeyPair
  signingSeed : String
  signingPublicKey : String
  subscriptions : Dict String String := Dict.empty
  deriving DecidableEq

/-- `connect`: one registration of the signing key, and the client. -/
def BusClient.connect (identities : IdentityBucket) (serviceId adapterType :
    String) (encryptionKeypair : EncryptionKeyPair) (signing : SigningKeyPair)
    (registeredAt : String) : BusClient × IdentityBucket :=
  (⟨serviceId, encryptionKeypair, signing.seed, signing.publicKey, Dict.empty⟩,
    registerIdentity identities serviceId adapterType signing.publicKey
      registeredAt)

/-! ## Received events -/

structure ReceivedEvent where
  event : Event
  payload : Bytes
  msg : Msg
  deriving DecidableEq

def ReceivedEvent.details (e : ReceivedEvent) : EventDetails :=
  e.event.event.eventDetails

def ReceivedEvent.ack (e : ReceivedEvent) : Bus Unit :=
  Bus.act fun w => { w with acked := w.acked ++ [e.msg] }

/-- `REDELIVERY_BACKOFF_SECONDS[min(num_delivered - 1, len - 1)]`. JetStream
counts deliveries from one; the index `-1` of a count of zero is the last
entry. -/
def nakDelay : (numDelivered : ℕ) → ℕ
  | 0 => redeliveryBackoffSeconds.getLastD 0
  | n + 1 =>
      redeliveryBackoffSeconds.getD
        (min n (redeliveryBackoffSeconds.length - 1)) 0

def ReceivedEvent.nak (e : ReceivedEvent) : Bus Unit :=
  Bus.act fun w =>
    { w with nakked := w.nakked ++ [(e.msg, nakDelay e.msg.numDelivered)] }

/-! ## Publish -/

structure PublishArgs where
  subject : String
  payload : Bytes
  eventType : String
  eventSchemaVersion : String := "1.0.0"
  correlationId : Option String := none
  msgId : Option String := none
  deriving DecidableEq

/-- What one `publish` draws: pyrage's randomness, the default factories for
the envelope it builds, and for the original it reads back. -/
structure Draws where
  coins : Bytes
  built : Drawn
  parsed : Drawn
  deriving DecidableEq

/-- `encrypt_for_recipients(payload, recipients) if recipients else b""` -/
def encryptPayload (P : Primitives) (coins payload : Bytes)
    (recipients : List Json) : Except Exn Bytes :=
  if recipients.isEmpty then .ok []
  else encryptForRecipients P coins payload recipients

/-- The envelope of `publish`. -/
def BusClient.buildEvent (P : Primitives) (client : BusClient)
    (recipients : List Json) (coins : Bytes) (drawn : Drawn)
    (args : PublishArgs) : Except Exn Event := do
  let ciphertext ← encryptPayload P coins args.payload recipients
  let signature ← sign P client.signingSeed args.payload
  let details : EventDetails := {
    eventId := drawn.eventId
    eventCreated := drawn.now
    eventType := args.eventType
    eventSchemaVersion := args.eventSchemaVersion
    sourceServiceId := client.serviceId
    sourcePublicKey := some client.signingPublicKey
    correlationId := args.correlationId
    signature := some (Base64.encode signature) }
  -- pydantic validates the recipient list where the model is built
  let recipients ← asStringList (.arr recipients)
  return ⟨⟨details, ⟨encryptionAlgorithm, recipients⟩,
    Base64.encode ciphertext⟩⟩

/-- `js.publish` -/
def jsPublish (now : ℕ) (subject : String) (data : Bytes)
    (msgId : Option String) : Bus PubAck := fun w =>
  if captured subject then
    let (ack, stream) := w.stream.publish now subject data msgId
    (.ok ack, { w with stream := stream })
  else (.error .noStreamResponseError, w)

/-- `js.get_msg`, as far as the message's data. -/
def jsGetMsg (seq : ℕ) : Bus (Option Bytes) := fun w =>
  match w.stream.getMsg seq with
  | none => (.error .notFoundError, w)
  | some m => (.ok (entryValue m.data), w)

def BusClient.publish (P : Primitives) (w : Pydantic) (client : BusClient)
    (recipients : List Json) (draws : Draws) (now : ℕ) (args : PublishArgs) :
    Bus String := do
  Bus.warnIf recipients.isEmpty (.noRecipients args.subject)
  let event ← Bus.of
    (client.buildEvent P recipients draws.coins draws.built args)
  let ack ← jsPublish now args.subject (event.toWire w) args.msgId
  if ack.duplicate then
    match ← jsGetMsg ack.seq with
    | none => throw (.runtimeError ack.seq)
    | some data =>
        let original ← Bus.of (Event.fromWire w draws.parsed data)
        return original.event.eventDetails.eventId
  else return event.event.eventDetails.eventId

/-! ## Consume -/

/-- `_process`. The key a signature is checked with is the directory's; the
envelope's own claim is only compared with it. -/
def BusClient.process (P : Primitives) (w : Pydantic) (client : BusClient)
    (identities : String → Except Exn (Option Bytes)) (drawn : Drawn)
    (msg : Msg) : Bus ReceivedEvent := do
  let event ← Bus.of (Event.fromWire w drawn msg.data)
  let details := event.event.eventDetails
  let ciphertext ← Bus.of (b64decode event.event.eventPayload)
  let plaintext ← Bus.of
    (decrypt P ciphertext client.encryptionKeypair.privateKey)
  match details.signature with
  | none =>
      throw (.signatureVerificationError (.missingSignature details.eventId))
  | some signature =>
      match ← Bus.of (lookupSigningKey P identities details.sourceServiceId) with
      | none =>
          throw (.signatureVerificationError
            (.noIdentity details.sourceServiceId details.eventId))
      | some trustedKey =>
          Bus.warnIf
            (details.sourcePublicKey.any (Text.ofString · ≠ trustedKey))
            (.keyMismatch details.eventId details.sourceServiceId)
          let sig ← Bus.of (b64decode signature)
          if ← Bus.of (verify P trustedKey plaintext sig) then
            return ⟨event, plaintext, msg⟩
          else
            throw (.signatureVerificationError (.badSignature details.eventId))

/-- The loop of `fetch`: an exception is logged and the next message tried. -/
def BusClient.processAll (P : Primitives) (w : Pydantic) (client : BusClient)
    (identities : String → Except Exn (Option Bytes)) (draws : ℕ → Drawn) :
    List Msg → (i : ℕ) → Bus (List ReceivedEvent)
  | [], _ => return []
  | msg :: rest, i => do
      let received ← tryCatch
        (do return [← client.process P w identities (draws i) msg])
        fun e => do
          Bus.warn (.processFailed msg.subject e)
          return []
      return received ++ (← client.processAll P w identities draws rest (i + 1))

/-- `fetch`, over what `sub.fetch` did. -/
def BusClient.fetch (P : Primitives) (w : Pydantic) (client : BusClient)
    (identities : String → Except Exn (Option Bytes)) (draws : ℕ → Drawn)
    (durableName : String) (pulled : Except Exn (List Msg)) :
    Bus (List ReceivedEvent) := do
  -- "no consumer named {durable_name!r} — call subscribe() first"
  if (client.subscriptions.get? durableName).isNone then throw .valueError
  match pulled with
  | .error .timeoutError => return []
  | .error e => throw e
  | .ok msgs => client.processAll P w identities draws msgs 0

end JetCore
