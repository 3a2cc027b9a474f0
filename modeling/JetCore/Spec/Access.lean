import JetCore.Lib.Run
import JetCore.Proofs.AllowLists
import JetCore.Spec.Calls

/-!
# Who may write to the directories

What keeps the adapters apart is the allow list each identity has from the
bootstrap script. An adapter may go wrong in any way: it writes what bytes it
likes, deletes and purges, under every key that the server lets it publish to.
Entries expire at any time, and a watch may be started at any time and be
anywhere in what it has to tell.

The buckets are changed by publishing to their subjects, and in no other way.
`BASELINE_PUB` gives every identity the JetStream API too, with which a stream
could be changed as a whole, and nothing is said of that.
-/

namespace JetCore

open Lib

inductive KvBucket where
  | directory
  | identity
  deriving DecidableEq

def KvBucket.name : KvBucket → String
  | .directory => "service-directory"
  | .identity => "service-identity"

/-- Who wrote, and what; nobody writes the marker of an expired entry. -/
abbrev KvWrite : Type := Option ManifestEntry × KvOp

structure Access where
  directory : List KvWrite := []
  identity : List KvWrite := []

inductive AccessAct where
  | write (a : ManifestEntry) (bucket : KvBucket) (op : KvOp)
  | expire (bucket : KvBucket) (key : String)

namespace Access

def append (s : Access) (write : KvWrite) : KvBucket → Access
  | .directory => { s with directory := s.directory ++ [write] }
  | .identity => { s with identity := s.identity ++ [write] }

variable (m : Manifest) (py : Interpreter)

def step (s : Access) : AccessAct → Option Access
  | .write a bucket op =>
      if a ∈ m.adapters ∧
          allows (allowPub a) (kvSubject bucket.name op.key) = true then
        some (s.append (some a, op) bucket)
      else none
  | .expire bucket key => some (s.append (none, .purge key) bucket)

def Reached (acts : List AccessAct) (s : Access) : Prop :=
  Run (step m) always {} acts s

/-! ## What is read of them -/

/-- A cache of the subject, at some point of its watch. -/
def CacheOf (s : Access) (subject : String) (cache : RecipientCache) : Prop :=
  ∃ before later items, s.directory.map Prod.snd = before ++ later ∧
    items <+: watchItems subject before later ∧
    cache = items.foldl (RecipientCache.consume py) {}

/-- One that has been told everything. -/
def CaughtUp (s : Access) (subject : String) (cache : RecipientCache) : Prop :=
  ∃ before later, s.directory.map Prod.snd = before ++ later ∧
    cache =
      (watchItems subject before later).foldl (RecipientCache.consume py) {}

/-- `identity_kv.get` -/
def identities (s : Access) : String → Except Exn (Option Bytes) :=
  (Bucket.after (s.identity.map Prod.snd)).get

/-- An adapter that subscribes to the subject by the manifest has registered
the recipient for it. -/
structure Registered (s : Access) (a : ManifestEntry) (subject : String)
    (recipient : Json) : Prop where
  adapter : a ∈ m.adapters
  subscribes : subject ∈ a.subscribe
  written : ∃ value,
    (some a, .put (kvKey subject a.serviceId) value) ∈ s.directory ∧
      recipientOf py value = .ok (some recipient)

/-- The last that the adapter, or the clock, did to a key. -/
def ownLast (log : List KvWrite) (a : ManifestEntry) (key : String) :
    Option KvOp :=
  lastOn KvOp.key key
    ((log.filter fun write => write.1 = some a ∨ write.1 = none).map Prod.snd)

/-- The payload can be had with the key, whatever is checked. -/
def Opens (P : Primitives) (event : Event) (privateKey : String)
    (plaintext : Bytes) : Prop :=
  ∃ ciphertext, b64decode event.event.eventPayload = .ok ciphertext ∧
    decrypt P ciphertext privateKey = .ok plaintext

/-- What the manifest comes to. -/
structure Guarded (P : Primitives) (s : Access) : Prop where
  /-- Only recipients that subscribers registered are listed. -/
  listed : ∀ subject cache, IsEventsSubject subject →
    s.CacheOf py subject cache → ∀ r ∈ cache.current,
      ∃ a, s.Registered m py a subject r
  /-- A subscriber that registered last is listed, unless a subscriber has
  killed the cache. -/
  kept : ∀ subject cache a value r, IsEventsSubject subject →
    s.CaughtUp py subject cache → cache.failed = none → a ∈ m.adapters →
      subject ∈ a.subscribe →
      ownLast s.directory a (kvKey subject a.serviceId) =
        some (.put (kvKey subject a.serviceId) value) →
      recipientOf py value = .ok (some r) → r ∈ cache.current
  /-- Whoever can read a message has a key that a subscriber registered. -/
  opened : ∀ (call : Call) event cache, IsEventsSubject call.args.subject →
    s.CacheOf py call.args.subject cache → call.recipients = cache.current →
      call.event P = .ok event → ∀ privateKey identity plaintext,
        P.identityFromStr privateKey = .ok identity →
        Opens P event privateKey plaintext →
          ∃ a r, s.Registered m py a call.args.subject r ∧
            (asStr r >>= P.recipientFromStr) = .ok (P.toPublic identity)
  /-- What an identity's entry is, is its adapter's doing, and the clock's. -/
  found : ∀ a ∈ m.adapters, s.identities a.serviceId =
    ((ownLast s.identity a a.serviceId).bind KvOp.value?).elim
      (.error .keyNotFoundError) fun value => .ok (entryValue value)
  /-- A message that is accepted is signed with a key that the adapter it
  claims to be from registered. -/
  vouched : ∀ w (consumer : BusClient) drawn msg world r,
    (consumer.process P w s.identities drawn msg world).1 = .ok r →
      ∃ a ∈ m.adapters, a.serviceId = r.details.sourceServiceId ∧
        ∃ value key signature sig, (some a, .put a.serviceId value) ∈ s.identity ∧
          lookupSigningKey P (fun _ => .ok (some value)) a.serviceId =
            .ok (some key) ∧
          r.details.signature = some signature ∧
          b64decode signature = .ok sig ∧
          verify P key r.payload sig = .ok true

end Access

end JetCore
