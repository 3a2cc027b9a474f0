import JetCore.Proofs.Access
import JetCore.Proofs.EventBus
import JetCore.Spec.EventTrace

/-!
# The bus under the allow lists

Each process of handlers has an identity of the manifest, and so has whoever
publishes from outside, who may publish anything, under its own id, as far as
the server lets it. A deployment configures the triggers, and nothing but the
manifest keeps it from configuring them for any subject.
-/

namespace JetCore

open Lib

/-- The identities that the handlers run under. -/
structure Staffing (m : Manifest) (d : Deployment) where
  files : String
  orders : String
  triggers : String
  filesListed : AdapterIdentities.fileStorage files ∈ m.adapters
  ordersListed : AdapterIdentities.dbAdapterMysql orders ∈ m.adapters
  triggersListed : AdapterIdentities.httpAdapter triggers ∈ m.adapters
  /-- `JETCORE_SUBJECTS` is of what the manifest has the adapter subscribe to. -/
  configured : ∀ self ∈ d.triggers,
    self.subject ∈ (AdapterIdentities.httpAdapter triggers).subscribe

variable {m : Manifest} {d : Deployment}

def Staffing.entry (st : Staffing m d) : EventConsumer → ManifestEntry
  | .file _ => AdapterIdentities.fileStorage st.files
  | .orders => AdapterIdentities.dbAdapterMysql st.orders
  | .trigger _ => AdapterIdentities.httpAdapter st.triggers

/-- A call of the identity's own client that the server lets through, to the
stream. -/
structure Issues (a : ManifestEntry) (call : Call) : Prop where
  own : call.client.serviceId = a.serviceId
  captured : captured call.args.subject = true
  allowed : allows (allowPub a) call.args.subject = true

namespace EventBus

/-- What comes from outside is issued by identities of the manifest. -/
def Issued (m : Manifest) (acts : List EventBusAct) : Prop :=
  ∀ call, .publish call ∈ acts → ∃ a ∈ m.adapters, Issues a call

/-- What the manifest comes to on the bus. -/
structure Permitted (st : Staffing m d) (s : EventBus) : Prop where
  /-- The server lets through every publish that a delivery comes to. -/
  publishes : ∀ i h a args, s.deliveries.subject? i = some h →
    s.calling i = some a → a.published? = some args →
      allows (allowPub (st.entry h.consumer)) args.subject = true
  /-- And the registration that goes with a subscription. -/
  registers : ∀ consumer subject, d.subject? consumer = some subject →
    allows (allowPub (st.entry consumer))
      (directorySubject subject (st.entry consumer).serviceId) = true
  /-- Whatever is handled comes from an adapter that is to publish it. -/
  commanded : ∀ i h, s.deliveries.subject? i = some h →
    ∃ a ∈ m.adapters, ∃ c, s.stored[h.message]? = some (c, none) ∧
      d.subject? h.consumer = some c.args.subject ∧
      c.args.subject ∈ a.publish ∧
      h.event.details.sourceServiceId = a.serviceId
  /-- What is published in turn answers that, and is answered by nothing. -/
  answers : ∀ p c i, s.stored[p]? = some (c, some i) →
    ∃ q, s.Answers d p q ∧ s.FromOutside q
  bounded : s.stored.length ≤ gain d.triggers.length * s.fromOutside

end EventBus

end JetCore
