import JetCore.Lib.Prog
import JetCore.Ref.BusClient

/-!
# `app.py` of the webhook listener

A caller that knows the secret has its body written to the path it asked for:
`receive_webhook` turns the request into a `FileWriteRequested` and answers
once that is published. The server decodes a header's bytes as Latin-1, and
the path's as UTF-8 with a replacement character for what is not, so both are
strings of scalar values.
-/

namespace JetCore

open Lib

/-- `secrets.compare_digest` on two strings. -/
def compareDigest (a b : String) : Except Exn Bool :=
  if isAscii a && isAscii b then .ok (a == b) else .error .typeError

structure WebhookRequest where
  path : String
  /-- `X-Webhook-Secret` -/
  webhookSecret : Option String
  /-- `Idempotency-Key` -/
  idempotencyKey : Option String
  deriving DecidableEq

inductive WebhookAct where
  /-- `await request.body()` -/
  | body
  | publish (args : PublishArgs)
  deriving DecidableEq

abbrev WebhookAct.Resp : WebhookAct → Type
  | .body => Bytes
  | .publish _ => String

abbrev WebhookProg := Prog WebhookAct WebhookAct.Resp Exn

def writeRequestedSubject : String := "events.files.FileWriteRequested"

/-- What is published for a request and its body. -/
def fileWriteRequested (request : WebhookRequest) (body : Bytes) :
    PublishArgs where
  subject := writeRequestedSubject
  payload := Json.dumps (Json.object [
    ("path", Json.string request.path),
    ("content", Json.string (Base64.encode body))])
  eventType := "FileWriteRequested"
  msgId := request.idempotencyKey

/-- `header_secret is not None and secrets.compare_digest(..)` -/
def admitted (expectedSecret : String) :
    (headerSecret : Option String) → Except Exn Bool
  | none => .ok false
  | some headerSecret => compareDigest headerSecret expectedSecret

/-- `receive_webhook`: the status of its response, or what it raises. -/
def receiveWebhook (expectedSecret : String) (request : WebhookRequest) :
    WebhookProg ℕ := do
  if ← Prog.ofExcept (admitted expectedSecret request.webhookSecret) then
    if request.path = "" then
      Prog.raise (.httpException 400 "a target file path is required")
    else
      let body ← Prog.act WebhookAct.body
      let _ ← Prog.act (WebhookAct.publish (fileWriteRequested request body))
      return 202
  else
    Prog.raise (.httpException 401 "missing or invalid X-Webhook-Secret")

/-- What the caller is answered with; any other exception is not handled. -/
def statusAnswered : Except Exn ℕ → Option ℕ
  | .ok statusCode => some statusCode
  | .error (.httpException statusCode _) => some statusCode
  | .error _ => none

end JetCore
