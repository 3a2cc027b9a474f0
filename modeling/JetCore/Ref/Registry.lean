import JetCore.Lib.Expiring
import JetCore.Lib.KeyedLog
import JetCore.Lib.Subject
import JetCore.Ref.Crypto

/-!
# `registry.py`: the service directory and the identity directory

A KV bucket is what its readers see of it: the live keys, in the order of
their last write, each with the bytes last written. A write, a deletion and an
expiry (`KV_PURGE`) are the operations of its history. An empty message comes
back as an entry without a value, which is the `None` the readers check for.

`lookupRecipients` is a sequence of network calls, and the bucket may change
between any two of them, so it reads a family of buckets indexed by the call;
a quiet bucket is a constant family. `RecipientCache` is a fold over watch
items. Its task dies at the first exception the loop does not name, and a dead
task consumes nothing more.
-/

namespace JetCore

open Lib

/-- `IDENTITY_TTL_SECONDS` -/
def identityTtlSeconds : ℕ := 90 * 24 * 60 * 60

/-- `_LOOKUP_RETRY_ATTEMPTS` -/
def lookupRetryAttempts : ℕ := 3

/-! ## The values written -/

/-- `_registration_value`; `registeredAt` is the text of the current time. -/
def registrationValue (serviceId adapterType encryptionPublicKey
    registeredAt : String) : Bytes :=
  Json.dumps (Json.object [
    ("serviceId", Json.string serviceId),
    ("adapterType", Json.string adapterType),
    ("encryptionPublicKey", Json.string encryptionPublicKey),
    ("registeredAt", Json.string registeredAt)])

/-- `_identity_value` -/
def identityValue (serviceId adapterType signingPublicKey
    registeredAt : String) : Bytes :=
  Json.dumps (Json.object [
    ("serviceId", Json.string serviceId),
    ("adapterType", Json.string adapterType),
    ("signingPublicKey", Json.string signingPublicKey),
    ("registeredAt", Json.string registeredAt)])

/-- `_kv_key` -/
def kvKey (subject serviceId : String) : String := subject ++ "." ++ serviceId

/-! ## Buckets -/

inductive KvOp where
  | put (key : String) (value : Bytes)
  | delete (key : String)
  /-- The marker an expired entry leaves. -/
  | purge (key : String)
  deriving DecidableEq

def KvOp.key : KvOp → String
  | .put k _ => k
  | .delete k => k
  | .purge k => k

/-- What an operation leaves under its key. -/
def KvOp.value? : KvOp → Option Bytes
  | .put _ v => some v
  | .delete _ => none
  | .purge _ => none

abbrev Bucket := Dict String Bytes

/-- A write moves its key behind the others. -/
def Bucket.apply (b : Bucket) : KvOp → Bucket
  | .put k v => (b.pop k).set k v
  | .delete k => b.pop k
  | .purge k => b.pop k

/-- An operation decides its own key and no other. -/
theorem Bucket.get?_apply (b : Bucket) (op : KvOp) (k : String) :
    (b.apply op).get? k = if op.key = k then op.value? else b.get? k := by
  cases op with
  | put k' v =>
      rw [Bucket.apply, Dict.get?_set, Dict.get?_pop]
      simp only [KvOp.key, KvOp.value?, eq_comm (a := k')]
      split <;> rfl
  | delete k' =>
      rw [Bucket.apply, Dict.get?_pop]
      simp only [KvOp.key, KvOp.value?, eq_comm (a := k')]
  | purge k' =>
      rw [Bucket.apply, Dict.get?_pop]
      simp only [KvOp.key, KvOp.value?, eq_comm (a := k')]

/-- The bucket a history leaves behind. -/
def Bucket.after (history : List KvOp) : Bucket :=
  history.foldl Bucket.apply Dict.empty

/-- `entry.value`: `None` when the message has no data. -/
def entryValue (v : Bytes) : Option Bytes := if v = [] then none else some v

/-- `kv.get(key)`, as far as the entry's value. -/
def Bucket.get (b : Bucket) (k : String) : Except Exn (Option Bytes) :=
  match b.get? k with
  | none => .error .keyNotFoundError
  | some v => .ok (entryValue v)

theorem Bucket.get?_of_get {b : Bucket} {k : String} {v : Bytes}
    (h : b.get k = .ok (some v)) : b.get? k = some v := by
  rw [Bucket.get] at h
  split at h
  · cases h
  · next v' hv' =>
      rw [entryValue] at h
      split at h
      · cases h
      · cases h
        exact hv'

/-- `kv.keys(filters=..)`: every live key that contains one of the filters. -/
def Bucket.keysMatching (b : Bucket) (filters : List String) :
    Except Exn (List String) :=
  match b.keys.filter fun k => filters.any fun f => contains f k with
  | [] => .error .noKeysError
  | keys => .ok keys

/-! ## `RegistryClient` -/

/-- What `register` writes to the bucket. -/
def register (subject serviceId adapterType encryptionPublicKey
    registeredAt : String) : KvOp :=
  .put (kvKey subject serviceId)
    (registrationValue serviceId adapterType encryptionPublicKey registeredAt)

def deregister (subject serviceId : String) : KvOp :=
  .delete (kvKey subject serviceId)

/-- service-identity: its entries expire a time to live after they were
written. The clock counts nanoseconds. -/
abbrev IdentityBucket := Expiring String Bytes

/-- `identity_kv.get(key)`, as far as the entry's value. -/
def IdentityBucket.get (b : IdentityBucket) (k : String) :
    Except Exn (Option Bytes) :=
  match b.get? k with
  | none => .error .keyNotFoundError
  | some v => .ok (entryValue v)

/-- `register_identity` -/
def registerIdentity (b : IdentityBucket) (serviceId adapterType
    signingPublicKey registeredAt : String) : IdentityBucket :=
  b.put serviceId
    (identityValue serviceId adapterType signingPublicKey registeredAt)
    (identityTtlSeconds * 1000000000)

/-- `str(value)` -/
def pyStr (P : Primitives) : Json → Text
  | .str t => t
  | j => P.strOf j

/-- `lookup_signing_key`, over the answers of `identity_kv.get`. -/
def lookupSigningKey (P : Primitives)
    (get : String → Except Exn (Option Bytes)) (serviceId : String) :
    Except Exn (Option Text) :=
  match get serviceId with
  | .error .keyNotFoundError => .ok none
  | .error e => .error e
  | .ok none => .ok none
  | .ok (some value) =>
      match jsonLoads value >>= (getItem · "signingPublicKey") with
      | .ok v => .ok (some (pyStr P v))
      | .error .jsonDecodeError => .ok none
      | .error .keyError => .ok none
      | .error e => .error e

theorem plain_identity (serviceId adapterType signingPublicKey
    registeredAt : String) : Json.Plain (Json.object [
      ("serviceId", Json.string serviceId),
      ("adapterType", Json.string adapterType),
      ("signingPublicKey", Json.string signingPublicKey),
      ("registeredAt", Json.string registeredAt)]) := by
  refine Json.plain_object fun f hf => ?_
  simp only [List.mem_cons, List.not_mem_nil, or_false] at hf
  rcases hf with rfl | rfl | rfl | rfl <;> exact Json.plain_string _

/-- The directory answers with the key that was registered. -/
theorem lookupSigningKey_identityValue (P : Primitives)
    {get : String → Except Exn (Option Bytes)}
    {id serviceId adapterType signingPublicKey registeredAt : String}
    (h : get id = .ok (some
      (identityValue serviceId adapterType signingPublicKey registeredAt))) :
    lookupSigningKey P get id =
      .ok (some (Text.ofString signingPublicKey)) := by
  rw [lookupSigningKey, h]
  simp only [identityValue, jsonLoads_dumps (plain_identity _ _ _ _)]
  simp only [Json.object, bind, Except.bind, getItem, Json.get?_object]
  rfl

theorem entryValue_identityValue (serviceId adapterType signingPublicKey
    registeredAt : String) :
    entryValue (identityValue serviceId adapterType signingPublicKey
      registeredAt) =
      some (identityValue serviceId adapterType signingPublicKey
        registeredAt) :=
  if_neg (dumps_ne_nil (plain_identity _ _ _ _))

theorem Bucket.get_identityValue {b : Bucket}
    {id serviceId adapterType signingPublicKey registeredAt : String}
    (h : b.get? id = some
      (identityValue serviceId adapterType signingPublicKey registeredAt)) :
    b.get id = .ok (some
      (identityValue serviceId adapterType signingPublicKey registeredAt)) := by
  rw [Bucket.get, h]
  exact congrArg Except.ok (entryValue_identityValue _ _ _ _)

theorem IdentityBucket.get_identityValue {b : IdentityBucket}
    {id serviceId adapterType signingPublicKey registeredAt : String}
    (h : b.get? id = some
      (identityValue serviceId adapterType signingPublicKey registeredAt)) :
    b.get id = .ok (some
      (identityValue serviceId adapterType signingPublicKey registeredAt)) := by
  rw [IdentityBucket.get, h]
  exact congrArg Except.ok (entryValue_identityValue _ _ _ _)

/-- The `try` block around a directory entry: the recipient key it holds, or
nothing when the entry is malformed in one of the two ways that are skipped. -/
def recipientOf (py : Interpreter) (value : Bytes) :
    Except Exn (Option Json) :=
  match jsonLoads value py.limit >>= (getItem · "encryptionPublicKey") with
  | .ok v => .ok (some v)
  | .error .jsonDecodeError => .ok none
  | .error .keyError => .ok none
  | .error e => .error e

/-- The retry loop of `lookup_recipients`: the keys found, and the number of
the next network call. -/
def lookupKeys (view : ℕ → Bucket) (filter : String) :
    (attempts call : ℕ) → List String × ℕ
  | 0, call => ([], call)
  | attempts + 1, call =>
      match (view call).keysMatching [filter] with
      | .ok keys => (keys, call + 1)
      | .error _ => lookupKeys view filter attempts (call + 1)

/-- The second half of `lookup_recipients`: one `get` for each key. -/
def collectRecipients (py : Interpreter) (view : ℕ → Bucket) :
    List String → (call : ℕ) → Except Exn (List Json)
  | [], _ => .ok []
  | k :: ks, call => do
      match ← (view call).get k with
      | none => collectRecipients py view ks (call + 1)
      | some value =>
          match ← recipientOf py value with
          | none => collectRecipients py view ks (call + 1)
          | some r => return r :: (← collectRecipients py view ks (call + 1))

def lookupRecipients (py : Interpreter) (view : ℕ → Bucket)
    (subject : String) : Except Exn (List Json) :=
  let found := lookupKeys view (subject ++ ".") lookupRetryAttempts 0
  collectRecipients py view found.1 found.2

/-! ## `RecipientCache` -/

/-- What `watcher.updates` answers with. -/
inductive WatchItem where
  | timeout
  /-- The `None` marker. -/
  | caughtUp
  | entry (op : KvOp)
  deriving DecidableEq

structure RecipientCache where
  entries : Dict String Json := Dict.empty
  ready : Bool := false
  /-- The exception that ended the task, if one did. -/
  failed : Option Exn := none

/-- One turn of `_consume`. -/
def RecipientCache.consume (py : Interpreter) (c : RecipientCache)
    (item : WatchItem) : RecipientCache :=
  if c.failed.isSome then c
  else
    match item with
    | .timeout => c
    | .caughtUp => { c with ready := true }
    | .entry (.delete k) => { c with entries := c.entries.pop k }
    | .entry (.purge k) => { c with entries := c.entries.pop k }
    | .entry (.put k v) =>
        match recipientOf py v with
        | .ok (some r) => { c with entries := c.entries.set k r }
        | .ok none => c
        | .error e => { c with failed := some e }

def RecipientCache.current (c : RecipientCache) : List Json := c.entries.values

/-- The pattern `start` watches. -/
def watchPattern (subject : String) : String := subject ++ ".*"

def watched (subject : String) (op : KvOp) : Bool :=
  subjectMatches (tokens (watchPattern subject)) (tokens op.key)

/-- What a watch started after `before` delivers while `later` happens: the
last operation on each matching key, the caught-up marker, then every matching
operation as it comes. -/
def watchItems (subject : String) (before later : List KvOp) : List WatchItem :=
  ((compact KvOp.key before).filter (watched subject)).map .entry ++ .caughtUp ::
    (later.filter (watched subject)).map .entry

end JetCore
