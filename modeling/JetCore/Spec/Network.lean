import JetCore.Lib.Run
import JetCore.Spec.Calls

/-!
# The bus with an active adversary

Honest parties run the code: they connect, which registers their signing key,
and they call `publish`. The adversary is everyone else. It stores any bytes
on the subjects it may publish to, registers anything under service ids that
are not an honest party's, and signs anything with keys that are not.

Signatures are ideal. A ledger holds every signature that has been made, and
verifying one is looking it up (`ideal`): honest parties enter what they sign,
the adversary enters signatures under keys of its own. The rest of the
cryptography stays what it is, so nothing here limits what the adversary
decrypts, re-encrypts or copies.
-/

namespace JetCore

open Lib

/-- The honest parties: each signs with the seed of its own key and publishes
that key as its public one, and parties of different ids have different
keys. -/
structure Parties (P : Primitives) where
  honest : List BusClient
  keyOf : BusClient → Bytes
  seed_key : ∀ c ∈ honest, P.nkeysRawPublic c.signingSeed = .ok (keyOf c)
  public_key : ∀ c ∈ honest, c.signingPublicKey = nkeyPublic P (keyOf c)
  own_key : ∀ c ∈ honest, ∀ c' ∈ honest, keyOf c = keyOf c' →
    c.serviceId = c'.serviceId
  /-- The subjects the adversary may publish to. -/
  allowed : String → Bool

/-- A signature: the key, the message, the signature's bytes. -/
abbrev Ledger := List (Bytes × Bytes × Bytes)

/-- The primitives with verification by the ledger. -/
def Primitives.ideal (P : Primitives) (ledger : Ledger) : Primitives :=
  { P with naclVerify := fun key message signature =>
      if (key, message, signature) ∈ ledger then .ok ()
      else .error .badSignatureError }

structure Network where
  world : World
  directory : Bucket := Dict.empty
  ledger : Ledger := []
  /-- The honest calls of `publish` so far. -/
  published : List Call := []

inductive Act where
  | connect (client : BusClient) (adapterType registeredAt : String)
  | publish (call : Call)
  | inject (now : ℕ) (subject : String) (data : Bytes) (msgId : Option String)
  | claim (serviceId : String) (value : Bytes)
  | sign (key message signature : Bytes)
  | expire (serviceId : String)

/-- What a call signs. -/
def Call.signs (P : Primitives) (key : Bytes) (c : Call) : Ledger :=
  match sign P c.client.signingSeed c.args.payload with
  | .ok signature => [(key, digest P c.args.payload, signature)]
  | .error _ => []

def Network.step {P : Primitives} (parties : Parties P) (w : Pydantic)
    (net : Network) : Act → Option Network
  | .connect c adapterType registeredAt =>
      if c ∈ parties.honest then
        some { net with directory := net.directory.apply (.put c.serviceId
          (identityValue c.serviceId adapterType c.signingPublicKey
            registeredAt)) }
      else none
  | .publish call =>
      if call.client ∈ parties.honest then
        some { net with
          world := (call.run P w net.world).2
          ledger := net.ledger ++ call.signs P (parties.keyOf call.client)
          published := net.published ++ [call] }
      else none
  | .inject now subject data msgId =>
      if parties.allowed subject && captured subject then
        some { net with world := { net.world with
          stream := (net.world.stream.publish now subject data msgId).2 } }
      else none
  | .claim serviceId value =>
      if serviceId ∈ parties.honest.map BusClient.serviceId then none
      else some { net with
        directory := net.directory.apply (.put serviceId value) }
  | .sign key message signature =>
      if key ∈ parties.honest.map parties.keyOf then none
      else some { net with ledger := net.ledger ++ [(key, message, signature)] }
  | .expire serviceId =>
      some { net with directory := net.directory.apply (.purge serviceId) }

/-- Nothing stored, nothing registered, nothing signed. -/
def Network.initial (duplicateWindow : ℕ) : Network where
  world := .empty duplicateWindow

/-- The network a run of actions leaves behind. -/
def Network.Reaches {P : Primitives} (parties : Parties P) (w : Pydantic)
    (duplicateWindow : ℕ) (acts : List Act) (net : Network) : Prop :=
  Run (Network.step parties w) always (.initial duplicateWindow) acts net

/-- `fetch` in a network: verification by its ledger, keys from its
directory. -/
def Network.fetch (P : Primitives) (w : Pydantic) (net : Network)
    (consumer : BusClient) (draws : ℕ → Drawn) (durableName : String)
    (pulled : Except Exn (List Msg)) : Except Exn (List ReceivedEvent) :=
  (consumer.fetch (P.ideal net.ledger) w net.directory.get draws durableName
    pulled net.world).1

/-- The event is what this call published, in every respect. -/
def Call.Originates (c : Call) (r : ReceivedEvent) : Prop :=
  c.client.serviceId = r.details.sourceServiceId ∧
  c.args.subject = r.msg.subject ∧ c.args.payload = r.payload ∧
  c.args.eventType = r.details.eventType ∧
  c.args.correlationId = r.details.correlationId ∧
  c.eventId = r.details.eventId

end JetCore
