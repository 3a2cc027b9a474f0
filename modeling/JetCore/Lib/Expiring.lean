import JetCore.Lib.Dict

/-!
# Dictionaries whose entries expire

A clock and a dictionary whose entries carry a deadline. A write sets the
deadline a time to live ahead; a lookup answers as long as the deadline has
not come. Nothing removes an entry but a later write to its key: expiry is a
matter of looking, so the passing of time changes the clock and no entry.

That is what makes the lemmas short. The entry under a key is decided by the
last write to it (`entry_put`), time passing keeps every entry
(`entry_wait`), and one lemma says what an entry answers (`get?_eq`).
-/

namespace Lib

universe u v

structure Expiring (κ : Type u) (ν : Type v) [DecidableEq κ] where
  now : ℕ := 0
  /-- Values with their deadlines. -/
  entries : Dict κ (ν × ℕ) := Dict.empty

namespace Expiring

variable {κ : Type u} {ν : Type v} [DecidableEq κ]

def put (s : Expiring κ ν) (k : κ) (v : ν) (ttl : ℕ) : Expiring κ ν :=
  { s with entries := s.entries.set k (v, s.now + ttl) }

def wait (s : Expiring κ ν) (d : ℕ) : Expiring κ ν :=
  { s with now := s.now + d }

/-- The entry under a key, expired or not. -/
def entry (s : Expiring κ ν) (k : κ) : Option (ν × ℕ) := s.entries.get? k

def get? (s : Expiring κ ν) (k : κ) : Option ν :=
  (s.entry k).bind fun e => if s.now < e.2 then some e.1 else none

@[simp] theorem now_put (s : Expiring κ ν) (k : κ) (v : ν) (ttl : ℕ) :
    (s.put k v ttl).now = s.now := rfl

@[simp] theorem now_wait (s : Expiring κ ν) (d : ℕ) :
    (s.wait d).now = s.now + d := rfl

theorem entry_put (s : Expiring κ ν) (k k' : κ) (v : ν) (ttl : ℕ) :
    (s.put k v ttl).entry k' =
      if k' = k then some (v, s.now + ttl) else s.entry k' :=
  Dict.get?_set _ _ _ _

@[simp] theorem entry_wait (s : Expiring κ ν) (d : ℕ) (k : κ) :
    (s.wait d).entry k = s.entry k := rfl

theorem get?_eq {s : Expiring κ ν} {k : κ} {v : ν} {deadline : ℕ}
    (h : s.entry k = some (v, deadline)) :
    s.get? k = if s.now < deadline then some v else none := by
  rw [get?, h, Option.bind_some]

end Expiring

end Lib
