import JetCore.Lib.Run
import JetCore.Proofs.Recipients
import JetCore.Spec.Calls

/-!
# Subscribers that come back

An adapter process connects, registers as a recipient, again on each heartbeat,
and is gone one day. Another process takes its place under the same service id.
`connect_as_adapter` takes the signing key from the credentials, which are the
same, and draws an encryption key, which is not. The service directory has one
entry for a subject and a service id, whoever wrote it.

A heartbeat's write may reach the server after its process has closed the
connection, so a registration needs a process that has connected at some time,
and no more.
-/

namespace JetCore

open Lib Spec

/-- One `connect_as_adapter`, with the identity it drew. -/
structure Process where
  serviceId : ServiceId
  adapterType : String
  identity : Bytes
  drawn : IsIdentity identity
  deriving DecidableEq

def Process.publicKey (P : Primitives) (p : Process) : String :=
  (generateEncryptionKeypair P p.identity).publicKey

structure Subscribers where
  connected : List Process := []
  history : List Change := []

inductive SubscriberAct where
  | connect (p : Process)
  /-- `subscribe` or a heartbeat. -/
  | register (p : Process) (subject : Subject) (registeredAt : String)
  | deregister (subject : Subject) (serviceId : ServiceId)
  | expire (subject : Subject) (serviceId : ServiceId)

/-- What the action does to the directory. -/
def SubscriberAct.change? (P : Primitives) : SubscriberAct → Option Change
  | .connect _ => none
  | .register p subject registeredAt => some (.register subject p.serviceId
      p.adapterType (p.publicKey P) registeredAt)
  | .deregister subject serviceId => some (.deregister subject serviceId)
  | .expire subject serviceId => some (.expire subject serviceId)

/-- The entry it is about. -/
def SubscriberAct.slot? : SubscriberAct → Option (Subject × ServiceId)
  | .connect _ => none
  | .register p subject _ => some (subject, p.serviceId)
  | .deregister subject serviceId => some (subject, serviceId)
  | .expire subject serviceId => some (subject, serviceId)

namespace Subscribers

variable (P : Primitives)

def step (s : Subscribers) (a : SubscriberAct) : Option Subscribers :=
  let changed : Subscribers :=
    { s with history := s.history ++ (a.change? P).toList }
  match a with
  | .connect p => some { changed with connected := s.connected ++ [p] }
  | .register p _ _ => if p ∈ s.connected then some changed else none
  | .deregister _ _ | .expire _ _ => some changed

/-- No two processes draw one key. -/
def Fresh (s : Subscribers) : SubscriberAct → Prop
  | .connect p => ∀ q ∈ s.connected,
      P.toPublic q.identity ≠ P.toPublic p.identity
  | _ => True

/-- The last that happened to the process's entry for the subject was its own
registration. -/
def RegisteredLast (acts : List SubscriberAct) (subject : Subject)
    (p : Process) : Prop :=
  ∃ registeredAt, lastOn SubscriberAct.slot? (some (subject, p.serviceId))
    acts = some (.register p subject registeredAt)

end Subscribers

/-- age tells apart who a file is for: without a recipient's identity it cannot
be read, and the empty file is none. -/
structure Primitives.Sealed (P : Primitives) : Prop where
  others : ∀ coins plaintext recipients c identity,
    P.ageEncrypt coins plaintext recipients = .ok c →
    P.toPublic identity ∉ recipients → ∃ e, P.ageDecrypt c identity = .error e
  empty : ∀ identity, ∃ e, P.ageDecrypt [] identity = .error e

end JetCore
