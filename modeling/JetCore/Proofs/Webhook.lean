import JetCore.Proofs.FilePayloads
import JetCore.Ref.WebhookListener

/-!
# The webhook's gate, and what passes it

What is published for a path and a body is read back by the file storage
adapter as that path and that body (`webhook_round_trip`); the two packages
share no code, so this is their JSON and base 64 meeting in the middle.

Whether anything is published is decided by the secret first and the path
second. `compare_digest` is partial, so the decision is what it should be
exactly if no header is sent, or header and secret are both ASCII
(`gated_iff`): one byte over 127 from a caller who knows nothing raises
`TypeError` out of the handler, and a secret that is not ASCII admits nobody.
-/

namespace JetCore

open Lib

/-- The server around one call of `receive_webhook`: the request's body, the
bus's answer to a publish, and the publishes made. -/
def webhookWorld (body : Bytes) (published : Except Exn String) :
    (a : WebhookAct) → List PublishArgs → Except Exn a.Resp × List PublishArgs
  | .body, made => (.ok body, made)
  | .publish args, made => (published, made ++ [args])

def webhookRun (expectedSecret : String) (request : WebhookRequest)
    (body : Bytes) (published : Except Exn String) :
    Except Exn ℕ × List PublishArgs :=
  (receiveWebhook expectedSecret request).exec (webhookWorld body published) []

/-- A right secret and a path: one publish, and 202 once the bus has it.
Otherwise none, and 401 or 400. -/
structure Gated (expectedSecret : String) (request : WebhookRequest)
    (body : Bytes) (published : Except Exn String) : Prop where
  accepted : request.webhookSecret = some expectedSecret → request.path ≠ "" →
    webhookRun expectedSecret request body published =
      (published.map fun _ => 202, [fileWriteRequested request body])
  unauthorized : request.webhookSecret ≠ some expectedSecret →
    (webhookRun expectedSecret request body published).2 = [] ∧
      statusAnswered (webhookRun expectedSecret request body published).1 =
        some 401
  noPath : request.webhookSecret = some expectedSecret → request.path = "" →
    (webhookRun expectedSecret request body published).2 = [] ∧
      statusAnswered (webhookRun expectedSecret request body published).1 =
        some 400

/-- The comparison is defined: nothing to compare, or two ASCII strings. -/
def Comparable (expectedSecret : String) (header : Option String) : Prop :=
  ∀ h, header = some h → isAscii h = true ∧ isAscii expectedSecret = true

variable {expectedSecret : String} {request : WebhookRequest} {body : Bytes}
  {published : Except Exn String}

/-! ## The three ways through -/

variable (body published) in
theorem webhookRun_raises {e : Exn}
    (h : admitted expectedSecret request.webhookSecret = .error e) :
    webhookRun expectedSecret request body published = (.error e, []) := by
  rw [webhookRun, receiveWebhook, h]
  rfl

theorem webhookRun_unauthorized
    (h : admitted expectedSecret request.webhookSecret = .ok false) :
    webhookRun expectedSecret request body published =
      (.error (.httpException 401 "missing or invalid X-Webhook-Secret"),
        []) := by
  rw [webhookRun, receiveWebhook, h]
  rfl

theorem webhookRun_noPath
    (h : admitted expectedSecret request.webhookSecret = .ok true)
    (hpath : request.path = "") :
    webhookRun expectedSecret request body published =
      (.error (.httpException 400 "a target file path is required"), []) := by
  rw [webhookRun, receiveWebhook, h]
  show (if request.path = "" then _ else _ : WebhookProg ℕ).exec _ _ = _
  rw [if_pos hpath]
  rfl

theorem webhookRun_accepted
    (h : admitted expectedSecret request.webhookSecret = .ok true)
    (hpath : request.path ≠ "") :
    webhookRun expectedSecret request body published =
      (published.map fun _ => 202, [fileWriteRequested request body]) := by
  rw [webhookRun, receiveWebhook, h]
  show (if request.path = "" then _ else _ : WebhookProg ℕ).exec _ _ = _
  rw [if_neg hpath]
  cases published with
  | error e => rfl
  | ok eventId => rfl

/-! ## The gate -/

theorem admitted_of_comparable {header : Option String}
    (h : Comparable expectedSecret header) :
    admitted expectedSecret header =
      .ok (decide (header = some expectedSecret)) := by
  cases header with
  | none => rfl
  | some given =>
      obtain ⟨hgiven, hexpected⟩ := h given rfl
      rw [admitted, compareDigest, hgiven, hexpected]
      simp only [Bool.and_self, if_true, Option.some.injEq, beq_eq_decide]

theorem admitted_of_not_comparable {header : Option String}
    (h : ¬ Comparable expectedSecret header) :
    admitted expectedSecret header = .error .typeError := by
  cases header with
  | none => exact absurd (fun _ hnone => by cases hnone) h
  | some given =>
      rw [admitted, compareDigest, if_neg]
      intro hboth
      rw [Bool.and_eq_true] at hboth
      refine h fun g hg => ?_
      cases hg
      exact hboth

theorem gated_of_comparable
    (h : Comparable expectedSecret request.webhookSecret) :
    Gated expectedSecret request body published := by
  have hadmitted := admitted_of_comparable h
  refine ⟨fun hsecret hpath => ?_, fun hsecret => ?_, fun hsecret hpath => ?_⟩
  · rw [hsecret, decide_eq_true rfl, ← hsecret] at hadmitted
    exact webhookRun_accepted hadmitted hpath
  · rw [decide_eq_false hsecret] at hadmitted
    rw [webhookRun_unauthorized hadmitted]
    exact ⟨rfl, rfl⟩
  · rw [hsecret, decide_eq_true rfl, ← hsecret] at hadmitted
    rw [webhookRun_noPath hadmitted hpath]
    exact ⟨rfl, rfl⟩

/-- The gate decides as it should exactly where the comparison is defined. -/
theorem gated_iff (expectedSecret : String) (request : WebhookRequest)
    (body : Bytes) (published : Except Exn String) :
    Gated expectedSecret request body published ↔
      Comparable expectedSecret request.webhookSecret := by
  refine ⟨fun h => ?_, gated_of_comparable⟩
  by_contra hcomparable
  have hrun := webhookRun_raises body published
    (admitted_of_not_comparable hcomparable)
  by_cases hsecret : request.webhookSecret = some expectedSecret
  · by_cases hpath : request.path = ""
    · have hanswer := (h.noPath hsecret hpath).2
      rw [hrun] at hanswer
      cases hanswer
    · have hmade := congrArg Prod.snd (h.accepted hsecret hpath)
      rw [hrun] at hmade
      cases hmade
  · have hanswer := (h.unauthorized hsecret).2
    rw [hrun] at hanswer
    cases hanswer

/-- A secret of one byte, 0xE9. -/
theorem latinSecret_escapes :
    ¬ Gated "s3cret" ⟨"incoming/a.txt", some "é", none⟩ [104, 105]
        (.ok "019b76da-a800-7000-8000-000000000001") ∧
      webhookRun "s3cret" ⟨"incoming/a.txt", some "é", none⟩ [104, 105]
        (.ok "019b76da-a800-7000-8000-000000000001") =
          (.error .typeError, []) := by
  refine ⟨fun h => ?_, rfl⟩
  have hanswer := (h.unauthorized (by decide)).2
  cases hanswer

/-! ## What passes it -/

theorem fileWriteRequested_payload (request : WebhookRequest) (body : Bytes) :
    (fileWriteRequested request body).payload =
      writeRequest request.path body := rfl

/-- What is published is published for a path. -/
theorem published_by_webhookRun {args : PublishArgs}
    (h : args ∈ (webhookRun expectedSecret request body published).2) :
    request.path ≠ "" ∧ args = fileWriteRequested request body := by
  cases hadmitted : admitted expectedSecret request.webhookSecret with
  | error e =>
      rw [webhookRun_raises body published hadmitted] at h
      cases h
  | ok known =>
      cases known with
      | false =>
          rw [webhookRun_unauthorized hadmitted] at h
          cases h
      | true =>
          by_cases hpath : request.path = ""
          · rw [webhookRun_noPath hadmitted hpath] at h
            cases h
          · rw [webhookRun_accepted hadmitted hpath] at h
            exact ⟨hpath, List.mem_singleton.mp h⟩

/-- Whatever is published decodes to the request, and a caller who knows the
secret has every path but the empty one published. -/
theorem webhook_round_trip (expectedSecret : String)
    (request : WebhookRequest) (body : Bytes)
    (published : Except Exn String) :
    (∀ args ∈ (webhookRun expectedSecret request body published).2,
      decodeWriteRequested args.payload =
        .ok ⟨Text.ofString request.path, body⟩) ∧
    (isAscii expectedSecret = true →
      request.webhookSecret = some expectedSecret → request.path ≠ "" →
      (webhookRun expectedSecret request body published).2 =
        [fileWriteRequested request body]) := by
  constructor
  · intro args hargs
    obtain ⟨hpath, rfl⟩ := published_by_webhookRun hargs
    rw [fileWriteRequested_payload]
    exact decodeWriteRequested_writeRequest hpath body
  · intro hascii hsecret hpath
    have hcomparable : Comparable expectedSecret request.webhookSecret := by
      intro h hh
      rw [hsecret] at hh
      cases hh
      exact ⟨hascii, hascii⟩
    rw [(gated_of_comparable hcomparable).accepted hsecret hpath]

end JetCore
