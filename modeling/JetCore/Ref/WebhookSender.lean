import JetCore.Ref.HttpAdapter

/-!
# `relay_handler.py`: events go out as they come

Every event of a subject is posted to one URL, once, and acked whatever came
of it. What `httpx` does on the way is two things that can be told apart: it
builds the request, where a header's value has to be ASCII, and it sends it.
-/

namespace JetCore

open Lib

structure RelayHandler where
  subject : String
  targetUrl : String
  outboundSecret : Option String

inductive RelayLogLine where
  /-- "best-effort relay of event {id} on {subject} to {url} failed — not
  retrying (Decision #12)" -/
  | failed (eventId subject url : String)
  deriving DecidableEq

inductive RelayAct where
  /-- `client.fetch` -/
  | fetch (durableName : String) (batch : ℕ)
  /-- The request that `http_client.post` has built goes out. -/
  | send (url : String) (content : Bytes) (headers : List (String × String))
  | log (line : RelayLogLine)
  | ack (msg : Msg)
  deriving DecidableEq

abbrev RelayAct.Resp : RelayAct → Type
  | .fetch .. => List ReceivedEvent
  | .send .. => HttpResponse
  | _ => Unit

abbrev RelayProg := Prog RelayAct RelayAct.Resp Exn

def RelayAct.call (a : RelayAct) : RelayProg a.Resp := Prog.act a

/-- `isinstance(exc, httpx.HTTPError)` -/
def isHttpError : Exn → Bool
  | .requestError => true
  | .httpStatusError _ => true
  | _ => false

/-- `response.raise_for_status()` -/
def raiseForStatus (response : HttpResponse) : Except Exn Unit :=
  if response.isSuccess then .ok ()
  else .error (.httpStatusError response.statusCode)

/-- What `httpx` makes of the headers when it builds a request. -/
def encodeHeaders (headers : List (String × String)) : Except Exn Unit :=
  if headers.all fun h => isAscii h.2 then .ok ()
  else .error .unicodeEncodeError

namespace RelayHandler

def headers (self : RelayHandler) (event : ReceivedEvent) :
    List (String × String) :=
  [("X-Event-Type", event.details.eventType),
    ("X-Event-Id", event.details.eventId)] ++
    self.outboundSecret.toList.map fun s => ("X-Webhook-Secret", s)

def request (self : RelayHandler) (event : ReceivedEvent) : RelayAct :=
  .send self.targetUrl event.payload (self.headers event)

/-- The `try` block. -/
def post (self : RelayHandler) (event : ReceivedEvent) : RelayProg Unit := do
  let _ ← Prog.ofExcept (encodeHeaders (self.headers event))
  let response ← RelayAct.call
    (.send self.targetUrl event.payload (self.headers event))
  Prog.ofExcept (raiseForStatus response)

/-- `except httpx.HTTPError` -/
def exceptHttpError (self : RelayHandler) (event : ReceivedEvent) :
    Except Exn Unit → RelayProg Unit
  | .ok () => pure ()
  | .error e =>
      if isHttpError e then
        RelayAct.call (.log
          (.failed event.details.eventId self.subject self.targetUrl))
      else Prog.raise e

/-- `_handle` -/
def handle (self : RelayHandler) (event : ReceivedEvent) : RelayProg Unit := do
  let posted ← (self.post event).attempt
  self.exceptHttpError event posted
  RelayAct.call (.ack event.msg)

/-- `run_once` -/
def runOnce (self : RelayHandler) (durableName : String) (batch : ℕ) :
    RelayProg ℕ := do
  let events ← RelayAct.call (.fetch durableName batch)
  let _ ← Prog.each self.handle events
  return events.length

end RelayHandler

end JetCore
