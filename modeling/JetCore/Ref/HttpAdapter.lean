import JetCore.Lib.Prog
import JetCore.Ref.BusClient

/-!
# `trigger_handler.py` and `payloads.py` of the HTTP adapter

The trigger event's payload goes to the external API as it is, and whatever
status comes back is reported. Only a request that got no response is left for
redelivery.
-/

namespace JetCore

open Lib

structure HttpResponse where
  statusCode : ℕ
  content : Bytes
  deriving DecidableEq

/-- `httpx.Response.is_success` -/
def HttpResponse.isSuccess (r : HttpResponse) : Bool :=
  200 ≤ r.statusCode && r.statusCode ≤ 299

def encodeRequestCompleted (status : String) (statusCode : ℕ) (body : Bytes)
    (occurredAt : String) : Bytes :=
  Json.dumps (Json.object [
    ("status", Json.string status),
    ("statusCode", .int statusCode),
    ("body", Json.string (Base64.encode body)),
    ("occurredAt", Json.string occurredAt)])

inductive HttpLogLine where
  /-- "could not reach {url} for event {id} on {subject} — leaving unacked for
  redelivery" -/
  | unreachable (url eventId subject : String)
  deriving DecidableEq

inductive HttpAct where
  | post (url : String) (content : Bytes) (headers : List (String × String))
  | log (line : HttpLogLine)
  | publish (args : PublishArgs)
  | ack
  | nak

abbrev HttpAct.Resp : HttpAct → Type
  | .post .. => HttpResponse
  | _ => Unit

abbrev HttpProg := Prog HttpAct HttpAct.Resp Exn

def HttpAct.call (a : HttpAct) : HttpProg a.Resp := Prog.act a

/-- What a handler is constructed with. -/
structure TriggerHandler where
  subject : String
  targetBaseUrl : String
  authToken : Option String

def TriggerHandler.headers (self : TriggerHandler) : List (String × String) :=
  match self.authToken with
  | none => []
  | some token => [("Authorization", "Bearer " ++ token)]

def requestCompleted (response : HttpResponse) (occurredAt eventId : String) :
    PublishArgs where
  subject := "events.http.RequestCompleted"
  payload := encodeRequestCompleted
    (if response.isSuccess then "success" else "error") response.statusCode
    response.content occurredAt
  eventType := "RequestCompleted"
  correlationId := some eventId

/-- `_handle` -/
def handleTrigger (self : TriggerHandler) (occurredAt : String)
    (event : ReceivedEvent) : HttpProg Unit := do
  match ← (HttpAct.call (.post self.targetBaseUrl event.payload
      self.headers)).attempt with
  | .error .requestError =>
      HttpAct.call (.log
        (.unreachable self.targetBaseUrl event.details.eventId self.subject))
      HttpAct.call .nak
  | .error e => Prog.raise e
  | .ok response =>
      HttpAct.call (.publish
        (requestCompleted response occurredAt event.details.eventId))
      HttpAct.call .ack

end JetCore
