import JetCore.Lib.Run
import JetCore.Ref.RestApi

/-!
# A request and its reply

What it is for a request to be on its way to the reply it waits for, and what
the other tasks must not do meanwhile. `PendingReplies` holds one future for an
event id, and so two requests that share an id, a caller's retry under the same
Idempotency-Key, share one entry: the later one to register takes it over, and
whoever leaves first removes it. `Undisturbed` is the condition on a step that
keeps one request out of this. `Unhurried` adds that the watcher does not come
to the reply before the request has registered.
-/

namespace JetCore

open Lib

namespace RestApi

/-- The first reply to `eventId` among what the watcher has fetched and not
resolved. -/
def firstReply (eventId : String) (events : List ReceivedEvent) :
    Option ReceivedEvent :=
  events.find? fun event => event.details.correlationId = some eventId

/-- Request `r` waits, and its future is pending. -/
def Unanswered (s : RestApi) (r : ℕ) (eventId : String) : Prop :=
  ∃ f, s.phase r = some (.waiting eventId f .future) ∧
    s.pending.futures[f]? = some .pending

/-- A reply to request `r` has been fetched, or is already the result of its
future. -/
def ReplyDue (s : RestApi) (r : ℕ) (eventId : String) : Prop :=
  (firstReply eventId s.batch).isSome ∨
  ∃ f wake event, s.phase r = some (.waiting eventId f wake) ∧
    s.pending.futures[f]? = some (.result event)

/-- Request `r` has yet to register under `eventId`: it has not arrived, or is
still with `publish`. -/
def Before (s : RestApi) (r : ℕ) (eventId : String) : Prop :=
  s.requests[r]? = none ∨
  s.requests[r]? = some ⟨true, .publishing none⟩ ∨
  s.requests[r]? = some ⟨true, .publishing (some eventId)⟩ ∨
  s.requests[r]? = some ⟨true, .published eventId⟩

/-- While request `r` waits for its reply, no other request registers or
unregisters under its event id, and no reply with another payload is resolved
for it. Once a reply is due, its deadline does not pass and its task is not
cancelled. -/
def Undisturbed (r : ℕ) (eventId : String) (payload : Bytes) (s : RestApi) :
    RestAct → Prop
  | .register r' => r' ≠ r → s.phase r' = some (.published eventId) →
      ¬ s.Unanswered r eventId
  | .resume r' => r' ≠ r →
      (∃ f wake, s.phase r' = some (.waiting eventId f wake)) →
      ¬ s.Unanswered r eventId
  | .deadline r' | .cancel r' => r' = r → ¬ s.ReplyDue r eventId
  | .resolve => s.Unanswered r eventId → ∀ event, s.batch.head? = some event →
      event.details.correlationId = some eventId → event.payload = payload
  | _ => True

/-- Request `r` waits for a reply, and its publish returns `eventId`. -/
def Requests (r : ℕ) (eventId : String) (s : RestApi) : RestAct → Prop
  | .arrive waits => s.requests.length = r → waits = true
  | .store r' id | .duplicate r' id => r' = r → id = eventId
  | .publishRaises r' | .cancel r' => r' ≠ r
  | _ => True

/-- The watcher does not resolve a reply to `eventId` that request `r` has yet
to register for. -/
def Unhurried (r : ℕ) (eventId : String) (payload : Bytes) (s : RestApi)
    (a : RestAct) : Prop :=
  Undisturbed r eventId payload s a ∧ Requests r eventId s a ∧
  (a = .resolve → s.Before r eventId → ∀ event, s.batch.head? = some event →
    event.details.correlationId ≠ some eventId)

end RestApi

end JetCore
