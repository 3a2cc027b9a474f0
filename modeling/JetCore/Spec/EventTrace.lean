import JetCore.Spec.EventBus
import Mathlib.Logic.Relation

/-!
# What an event answers

An event that a handler publishes answers the one it was handed: it carries
that one's id, and by then the delivery's own calls have done what the event
says.
-/

namespace JetCore

open Lib

/-! ## The record of a delivery, as its handler's own -/

def fileCall? : CallEvent HandlerAct HandlerAct.Resp Exn →
    Option (CallEvent FileAct FileAct.Resp Exn)
  | ⟨.file a, r⟩ => some ⟨a, r⟩
  | _ => none

def dbCall? : CallEvent HandlerAct HandlerAct.Resp Exn →
    Option (CallEvent DbAct DbAct.Resp Exn)
  | ⟨.db a, r⟩ => some ⟨a, r⟩
  | _ => none

def httpCall? : CallEvent HandlerAct HandlerAct.Resp Exn →
    Option (CallEvent HttpAct HttpAct.Resp Exn)
  | ⟨.http a, r⟩ => some ⟨a, r⟩
  | _ => none

def EventDelivery.delivered (h : EventDelivery) : Delivered :=
  ⟨h.occurredAt, h.event⟩

/-- What has to be done before the consumer publishes. -/
def Deployment.Done (d : Deployment) (h : EventDelivery) (args : PublishArgs)
    (log : Calls HandlerAct HandlerAct.Resp) : Prop :=
  match h.consumer with
  | .file .write => Written d.files h.delivered args (log.filterMap fileCall?)
  | .file .read => ReadDone d.files h.delivered args (log.filterMap fileCall?)
  | .file .delete =>
      DeleteDone d.files h.delivered args (log.filterMap fileCall?)
  | .file .list => ListDone d.files h.delivered args (log.filterMap fileCall?)
  | .orders => Upserted h.delivered args (log.filterMap dbCall?)
  | .trigger i => ∃ self, d.triggers[i]? = some self ∧
      Posted self h.delivered args (log.filterMap httpCall?)

/-- Why the consumer may ack without publishing. -/
def Deployment.Refused (d : Deployment) (h : EventDelivery)
    (log : Calls HandlerAct HandlerAct.Resp) : Prop :=
  match h.consumer with
  | .file .write => Rejected d.files decodeWriteRequested WriteRequest.path
      h.delivered (log.filterMap fileCall?)
  | .file .read | .file .delete =>
      Rejected d.files (decodePathOnlyRequest false) id h.delivered
        (log.filterMap fileCall?)
  | .file .list => Rejected d.files (decodePathOnlyRequest true) id h.delivered
      (log.filterMap fileCall?)
  | .orders => Malformed (decodeOrderCreated h.event.payload)
  | .trigger _ => False

instance : BusCalls HandlerAct where
  published? := HandlerAct.published?
  isAck
    | .file a => BusCalls.isAck a
    | .db a => BusCalls.isAck a
    | .http a => BusCalls.isAck a
  isNak
    | .file a => BusCalls.isNak a
    | .db a => BusCalls.isNak a
    | .http a => BusCalls.isNak a

namespace EventBus

def FromOutside (s : EventBus) (p : ℕ) : Prop :=
  ∃ c, s.stored[p]? = some (c, none)

/-- The message at `p` was published by this delivery, which is one of the
message at `q`. -/
structure AnswersBy (d : Deployment) (s : EventBus) (h : EventDelivery)
    (p q : ℕ) : Prop where
  message : h.message = q
  answers : ∃ c i, s.stored[p]? = some (c, some i) ∧
    s.deliveries.subject? i = some h ∧
    (∃ m, s.stored[q]? = some m ∧ m.1.Originates h.event ∧
      d.subject? h.consumer = some m.1.args.subject ∧
      c.args.correlationId = some m.1.eventId) ∧
    ∃ calls, calls <+: Tasks.own i s.deliveries.log ∧ d.Done h c.args calls

def Answers (d : Deployment) (s : EventBus) (p q : ℕ) : Prop :=
  ∃ h, s.AnswersBy d h p q

end EventBus

end JetCore
