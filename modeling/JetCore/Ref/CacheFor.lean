import JetCore.Lib.Dict
import JetCore.Lib.Run

/-!
# `_cache_for`, called by publishes that run at the same time

A `publish` first needs the cache of its subject. If the client holds none,
`watch` makes one: it opens a watch on the directory, starts the task that
consumes it and waits for the caught-up marker, and only then is the cache
held. A step is what one publish does between two awaits, so any other may
come in between. What a publish does with its cache later changes none of
this, and is left out.
-/

namespace JetCore

open Lib

/-- A cache whose task is started. -/
structure StartedCache where
  subject : String
  /-- `start` has returned. -/
  ready : Bool
  deriving DecidableEq

/-- Where a `publish` stands. -/
inductive CacheUse where
  /-- In `self._kv.watch`. -/
  | watching (subject : String)
  /-- In `self._ready.wait()` of the cache it started. -/
  | starting (subject : String) (cache : ℕ)
  | cached (cache : ℕ)
  | raised
  deriving DecidableEq

/-- A client's caches, by the number in which they were started. -/
structure CacheHolder where
  recipientCaches : Dict String ℕ := Dict.empty
  started : List StartedCache := []
  publishes : List CacheUse := []

inductive CacheAct where
  /-- `publish` is called and looks its subject up. -/
  | publish (subject : String)
  | watchReturns (publish : ℕ)
  | watchRaises (publish : ℕ)
  /-- The task has come to the caught-up marker and `publish` resumes. -/
  | caughtUp (publish : ℕ)

namespace CacheHolder

/-- `if subject not in self._recipient_caches` -/
def lookUp (s : CacheHolder) (subject : String) : CacheUse :=
  match s.recipientCaches.get? subject with
  | some cache => .cached cache
  | none => .watching subject

def step (s : CacheHolder) : CacheAct → Option CacheHolder
  | .publish subject =>
      some { s with publishes := s.publishes ++ [s.lookUp subject] }
  | .watchReturns i =>
      match s.publishes[i]? with
      | some (.watching subject) => some { s with
          started := s.started ++ [⟨subject, false⟩]
          publishes := s.publishes.set i
            (.starting subject s.started.length) }
      | _ => none
  | .watchRaises i =>
      match s.publishes[i]? with
      | some (.watching _) =>
          some { s with publishes := s.publishes.set i .raised }
      | _ => none
  | .caughtUp i =>
      match s.publishes[i]? with
      | some (.starting subject cache) => some {
          recipientCaches := s.recipientCaches.set subject cache
          started := s.started.set cache ⟨subject, true⟩
          publishes := s.publishes.set i (.cached cache) }
      | _ => none

end CacheHolder

end JetCore
