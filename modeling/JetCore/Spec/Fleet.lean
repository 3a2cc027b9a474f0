import JetCore.Lib.Run
import JetCore.Spec.Calls

/-!
# Adapters over time

Adapters connect, publish and close while time passes. What they share is the
stream and service-identity. Connecting is the only one of these that writes
to service-identity; nothing an adapter does later renews its entry.
-/

namespace JetCore

open Lib

structure Fleet where
  world : World
  identities : IdentityBucket := {}
  connected : List BusClient := []

inductive FleetAct where
  /-- Nanoseconds pass. -/
  | wait (d : ℕ)
  | connect (serviceId adapterType : String)
      (encryptionKeypair : EncryptionKeyPair) (signing : SigningKeyPair)
      (registeredAt : String)
  | publish (call : Call)
  | close (client : BusClient)

/-- The clock of the stream is that of service-identity. -/
def Fleet.step (P : Primitives) (w : Pydantic) (f : Fleet) :
    FleetAct → Option Fleet
  | .wait d => some { f with identities := f.identities.wait d }
  | .connect serviceId adapterType encryptionKeypair signing registeredAt =>
      let (client, identities) := BusClient.connect f.identities serviceId
        adapterType encryptionKeypair signing registeredAt
      some { f with
        identities := identities, connected := client :: f.connected }
  | .publish call =>
      if call.client ∈ f.connected then
        some { f with world :=
          (({ call with now := f.identities.now } : Call).run P w f.world).2 }
      else none
  | .close client =>
      if client ∈ f.connected then
        some { f with connected := f.connected.erase client }
      else none

def FleetAct.duration : FleetAct → ℕ
  | .wait d => d
  | _ => 0

/-- How much time passes over a run. -/
def elapsed (acts : List FleetAct) : ℕ := (acts.map FleetAct.duration).sum

/-- The act registers an identity under `serviceId`. -/
def FleetAct.registers (serviceId : String) : FleetAct → Bool
  | .connect id _ _ _ _ => id = serviceId
  | _ => false

end JetCore
