import JetCore.Lib.Fs
import JetCore.Lib.JsonDepth
import JetCore.Lib.JsonRound

/-!
# The exceptions the modelled code raises or lets through

One constructor for each exception class some handler of the repository tells
apart, with the data its message carries where the repository itself raises it.
Classes that no handler names and that only ever escape to the broad
`except Exception` of a consume loop share `other`.
-/

namespace JetCore

open Lib

/-- Why `BusClient._process` refuses an event. The texts are "event {id} is
missing a signature", "no registered identity for sourceServiceId {service} —
cannot verify event {id}" and "signature verification failed for {id}". -/
inductive Refusal where
  | missingSignature (eventId : String)
  | noIdentity (serviceId eventId : String)
  | badSignature (eventId : String)
  deriving DecidableEq

/-- Why `_decode_nkey_public` refuses a key, a `ValueError` each time. The
texts are "malformed nkey public key: not valid base32 ({exc})", "malformed
nkey public key: unexpected length {n}", "malformed nkey public key: checksum
mismatch" and "expected a user nkey (prefix 160), got {prefix}". -/
inductive NkeyFault where
  | notBase32
  | unexpectedLength (n : ℕ)
  | checksumMismatch
  | notUser (givenPrefix : ℕ)
  deriving DecidableEq

/-- What is wrong with a payload, a `MalformedPayloadError` each time. The
texts are those of the exception that was caught, "orderId must be a non-empty
string, got {value!r}", "item must be a non-empty string, got {value!r}",
"quantity must be a positive integer, got {value!r}", "path must be a non-empty
string, got {path!r}", "path must be a string, got {path!r}" and "path must be
a non-empty string". -/
inductive PayloadFault where
  | unreadable
  | orderId
  | item
  | quantity
  | path
  | pathNotString
  | pathEmpty
  deriving DecidableEq

inductive Exn where
  /-- pydantic: the bytes are not a valid `Event`. -/
  | validationError
  | binasciiError
  | unicodeEncodeError
  | unicodeDecodeError
  | jsonDecodeError
  | valueError
  | malformedNkey (why : NkeyFault)
  | keyError
  | typeError
  /-- pyrage: not one of the recipients, or a corrupt ciphertext. -/
  | decryptError
  /-- nacl: the signature does not verify. -/
  | badSignatureError
  | signatureVerificationError (why : Refusal)
  | keyNotFoundError
  | noKeysError
  | timeoutError
  | invalidStateError
  | dbapiError
  | malformedPayloadError (why : PayloadFault)
  /-- "duplicate publish's own original message (EVENTS#{seq}) came back with
  no data" -/
  | runtimeError (seq : ℕ)
  /-- nats-py: the stream does not capture the subject. -/
  | noStreamResponseError
  /-- nats-py: no such message in the stream. -/
  | notFoundError
  /-- An `OSError`, which `FileNotFoundError` is at `enoent`. -/
  | osError (errno : Errno)
  /-- `RuntimeError`: "Symlink loop from {path!r}" -/
  | symlinkLoop
  | recursionError
  /-- "path {path!r} escapes the adapter's watch_dir" -/
  | pathTraversalError (path : Text)
  /-- httpx: no response was received. -/
  | requestError
  /-- httpx: a response whose status is not one of success. -/
  | httpStatusError (statusCode : ℕ)
  /-- fastapi: the response a handler gives by raising. -/
  | httpException (statusCode : ℕ) (detail : String)
  deriving DecidableEq

/-- `isinstance(exc, ValueError)` -/
def Exn.isValueError : Exn → Bool
  | .validationError => true
  | .binasciiError => true
  | .unicodeEncodeError => true
  | .unicodeDecodeError => true
  | .jsonDecodeError => true
  | .valueError => true
  | .malformedNkey _ => true
  | .malformedPayloadError _ => true
  | .pathTraversalError _ => true
  | _ => false

/-- `except (JSONDecodeError, KeyError, TypeError)` of a payload decoder. -/
def unreadable : Exn → Exn
  | .jsonDecodeError => .malformedPayloadError .unreadable
  | .keyError => .malformedPayloadError .unreadable
  | .typeError => .malformedPayloadError .unreadable
  | e => e

/-- Peels the first step off a computation that returned. -/
theorem bind_eq_ok {ε : Type} {α β : Type} {x : Except ε α}
    {f : α → Except ε β} {b : β} :
    (x >>= f) = .ok b ↔ ∃ a, x = .ok a ∧ f a = .ok b := by
  cases x with
  | error e => simp [bind, Except.bind]
  | ok a => simp [bind, Except.bind]

/-- What is collected comes from an element each. -/
theorem mapM_mem {ε α β : Type} {g : α → Except ε β} {l : List α}
    {bs : List β} (h : l.mapM g = .ok bs) :
    ∀ b ∈ bs, ∃ a ∈ l, g a = .ok b := by
  induction l generalizing bs with
  | nil =>
      cases h
      simp
  | cons a rest ih =>
      rw [List.mapM_cons] at h
      obtain ⟨b, hb, h⟩ := bind_eq_ok.mp h
      obtain ⟨cs, hcs, h⟩ := bind_eq_ok.mp h
      cases h
      refine List.forall_mem_cons.mpr ⟨⟨a, List.mem_cons_self, hb⟩, ?_⟩
      intro c hc
      obtain ⟨a', ha', hc'⟩ := ih hcs c hc
      exact ⟨a', List.mem_cons_of_mem a ha', hc'⟩

theorem elim_ok_eq_ok {ε : Type} {α : Type} {o : Option α} {e : ε} {a : α} :
    o.elim (Except.error e) Except.ok = .ok a ↔ o = some a := by
  cases o with
  | none => simp
  | some b => simp

theorem elim_ok_eq_error {ε : Type} {α : Type} {o : Option α} {e e' : ε}
    (h : o.elim (Except.error e) Except.ok = .error e') : e = e' := by
  cases o with
  | none => exact Except.error.inj h
  | some b => cases h

/-- `json.loads` raises one of four classes. -/
def Exn.ofLoads : Json.LoadsError → Exn
  | .unicodeDecodeError => .unicodeDecodeError
  | .jsonDecodeError => .jsonDecodeError
  | .valueError => .valueError
  | .recursionError => .recursionError

/-- `json.loads` as the code calls it. Without a limit, the `RecursionError` of a
text that is nested deeper than the interpreter bears is left out. -/
def jsonLoads (b : Bytes) (limit : Option ℕ := none) : Except Exn Json :=
  (Json.loads b limit).mapError Exn.ofLoads

/-- What the interpreter bears of nesting where `json.loads` is called, if there
is a limit to it: how many arrays and objects around one another. -/
structure Interpreter where
  limit : Option ℕ
  one : ∀ n ∈ limit, 0 < n

/-- A thousand of them. -/
def Interpreter.thousand : Interpreter where
  limit := some 1000
  one n hn := by
    cases hn
    decide

/-- One container is always borne. -/
theorem Interpreter.jsonLoads_eq (py : Interpreter) {b : Bytes} {v : Json}
    (h : jsonLoads b = .ok v) (hdepth : Json.depth v ≤ 1) :
    jsonLoads b py.limit = .ok v := by
  cases hlimit : py.limit with
  | none => exact h
  | some n =>
      have hfits : Json.depth v ≤ n := hdepth.trans (py.one n hlimit)
      rw [jsonLoads] at h ⊢
      cases hloads : Json.loads b with
      | error e =>
          rw [hloads] at h
          cases h
      | ok v' =>
          rw [hloads] at h
          cases h
          rw [Json.loads_of_fits hloads hfits]
          rfl

theorem jsonLoads_dumps {v : Json} (hv : Json.Plain v) :
    jsonLoads (Json.dumps v) = .ok v := by
  rw [jsonLoads, Json.loads_dumps hv]
  rfl

/-- What is dumped is never the empty text, which is no JSON. -/
theorem dumps_ne_nil {v : Json} (hv : Json.Plain v) : Json.dumps v ≠ [] := by
  intro hnil
  have hload := jsonLoads_dumps hv
  rw [hnil] at hload
  cases hload

/-- `value[name]` on a decoded JSON value. Everything but an object is indexed
with the wrong type. -/
def getItem (j : Json) (name : String) : Except Exn Json :=
  match j with
  | .obj fields =>
      (Json.get? fields (Text.ofString name)).elim (.error .keyError) .ok
  | _ => .error .typeError

end JetCore
