import JetCore.Ref.WebhookListener
import JetCore.Spec.EventTrace

/-!
# A webhook, from the request to the file

The webhook listener in front of the bus. It serves any number of requests at a
time, and what it publishes is on the stream once the call has done its work,
whether or not the answer comes back. The stream may also take it for a
duplicate of a message it has under the same `Idempotency-Key`, and then the
call returns that one's id. Nobody else asks for files to be written.
-/

namespace JetCore

open Lib

structure WebhookFlow where
  /-- The requests that are served. -/
  listener : Tasks WebhookRequest WebhookAct WebhookAct.Resp Exn ℕ := {}
  bus : EventBus := {}

inductive WebhookFlowAct where
  | request (r : WebhookRequest)
  /-- A call of a request is answered. What it publishes, as `call`, is stored
  or not. -/
  | answer (task : ℕ) (r : (a : WebhookAct) → Except Exn a.Resp)
      (stored : Bool) (call : Call)
  | other (a : EventBusAct)

/-- What the call publishes. -/
def WebhookAct.published (call : Call) : WebhookAct → List Call
  | .publish args => [{ call with args := args }]
  | .body => []

/-- It comes from outside and asks for a file to be written. -/
def EventBusAct.asksForWrite : EventBusAct → Bool
  | .publish call => call.args.subject = writeRequestedSubject
  | _ => false

namespace WebhookFlow

def calling (s : WebhookFlow) (task : ℕ) : Option WebhookAct :=
  match s.listener.started[task]? with
  | some (_, .call a _) => some a
  | _ => none

/-- The messages are stored. -/
def store (s : WebhookFlow) (calls : List Call) : EventBus :=
  { s.bus with stored := s.bus.stored ++ calls.map (·, none) }

variable (d : Deployment) (expectedSecret : String)

def step (s : WebhookFlow) : WebhookFlowAct → Option WebhookFlow
  | .request r =>
      (s.listener.step (receiveWebhook expectedSecret) (.start r)).map
        fun listener => { s with listener := listener }
  | .answer task r stored call =>
      (s.calling task).bind fun a =>
        (s.listener.step (receiveWebhook expectedSecret) (.answer task r)).map
          fun listener => {
            listener := listener
            bus := if stored then s.store (a.published call) else s.bus }
  | .other a =>
      if a.asksForWrite then none
      else (s.bus.step d a).map fun bus => { s with bus := bus }

/-- A message under the same key. -/
def Duplicates (s : WebhookFlow) (args : PublishArgs) (eventId : String) :
    Prop :=
  args.msgId ≠ none ∧ ∃ m ∈ s.bus.stored, m.1.args.msgId = args.msgId ∧
    m.1.eventId = eventId

/-- A publish that returns has stored the message, or found it to be a
duplicate. -/
def Carries (s : WebhookFlow) : WebhookFlowAct → Prop
  | .request _ => True
  | .answer _ r stored call => ∀ args eventId,
      r (.publish args) = .ok eventId →
        stored = true ∧ eventId = call.eventId ∨ s.Duplicates args eventId
  | .other a => s.bus.Carries a

def Reached (acts : List WebhookFlowAct) (s : WebhookFlow) : Prop :=
  Run (step d expectedSecret) Carries {} acts s

/-- The caller knows the secret and names a file. -/
structure Admitted (r : WebhookRequest) : Prop where
  secret : r.webhookSecret = some expectedSecret
  path : r.path ≠ ""

/-- A request that may be carried out, with the body that was read of it. -/
structure Asked (s : WebhookFlow) (task : ℕ) (r : WebhookRequest)
    (body : Bytes) : Prop where
  admitted : Admitted expectedSecret r
  request : s.listener.subject? task = some r
  read : (task, ⟨.body, .ok body⟩) ∈ s.listener.log

/-- The published message is on the stream, or one under the same key is. -/
def OnStream (s : WebhookFlow) (args : PublishArgs) (eventId : String) : Prop :=
  (∃ c : Call, (c, none) ∈ s.bus.stored ∧ c.args = args ∧
    c.eventId = eventId) ∨ s.Duplicates args eventId

/-- The message `m` that is delivered is what the listener made of a request
with this body. -/
structure Requests (s : WebhookFlow) (h : EventDelivery) (r : WebhookRequest)
    (body : Bytes) (m : Call) : Prop where
  stored : s.bus.stored[h.message]? = some (m, none)
  args : m.args = fileWriteRequested r body
  asked : ∃ task, s.Asked expectedSecret task r body

/-- The calls write the body to where the path leads, under `watch_dir`, and
that is reported. -/
def Wrote (self : FileAdapter) (r : WebhookRequest) (body : Bytes)
    (h : EventDelivery) (args : PublishArgs) (log : FileCalls) : Prop :=
  ∃ target file,
    Resolved self.watchDir (Text.ofString r.path) target log ∧
    [⟨.openWrite target, .ok file⟩, ⟨.write file body, .ok ()⟩].Sublist log ∧
    args.payload =
      encodeCompleted (Text.ofString r.path) body.length h.occurredAt

/-- What a delivery has called of the file adapter. -/
def fileCalls (log : List (ℕ × CallEvent HandlerAct HandlerAct.Resp Exn))
    (i : ℕ) : FileCalls :=
  (Tasks.own i log).filterMap fileCall?

/-- What is made of requests, by the listener and then by the write handler. -/
structure CarriedOut (s : WebhookFlow) : Prop where
  accepted : ∀ task r, s.listener.started[task]? = some (r, .pure 202) →
    ∃ body eventId, s.Asked expectedSecret task r body ∧
      s.OnStream (fileWriteRequested r body) eventId
  written : ∀ c i h, (c, some i) ∈ s.bus.stored →
    s.bus.deliveries.subject? i = some h → h.consumer = .file .write →
      ∃ r body m, s.Requests expectedSecret h r body m ∧
        c.args.correlationId = some m.eventId ∧
        Wrote d.files r body h c.args (fileCalls s.bus.deliveries.log i)
  acked : ∀ before i e after h,
    s.bus.deliveries.log = before ++ (i, e) :: after →
    BusCalls.isAck e.1 = true → s.bus.deliveries.subject? i = some h →
      h.consumer = .file .write →
        ∃ r body m, s.Requests expectedSecret h r body m ∧
          (Escapes d.files.watchDir (Text.ofString r.path)
              (fileCalls before i) ∨
            ∃ c : Call, (c, some i) ∈ s.bus.stored ∧
              c.args.correlationId = some m.eventId)

end WebhookFlow

end JetCore
