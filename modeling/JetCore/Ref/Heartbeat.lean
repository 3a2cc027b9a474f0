import Mathlib.Algebra.Order.Field.Basic
import Mathlib.Data.Nat.Find
import Mathlib.Data.Rat.Defs
import Mathlib.Tactic.Linarith

/-!
# `RegistryClient.heartbeat` against the bucket's time to live

The loop in time: a first `register` that is awaited, then a sleep and a
`register`, for ever. An attempt returns or raises after its latency, and one
that succeeds is stored somewhere in between. An attempt that fails is logged
and the loop goes on. Time is in seconds, from the call of `heartbeat`.
-/

namespace JetCore

/-- `DEFAULT_HEARTBEAT_INTERVAL_SECONDS` -/
def heartbeatIntervalSeconds : ℚ := 20

/-- `KV_TTL`, the maximum age of an entry of service-directory. -/
def kvTtlSeconds : ℚ := 60

/-- One attempt to register. -/
structure Beat where
  latency : ℚ
  /-- How long the server took to store the entry, if the attempt succeeds. -/
  storedAfter : Option ℚ
  latency_nonneg : 0 ≤ latency
  stored : ∀ d, storedAfter = some d → 0 ≤ d ∧ d ≤ latency

/-- The attempts of one call, the first of which has to succeed for
`heartbeat` to return. -/
structure Heartbeat where
  beat : ℕ → Beat
  first : (beat 0).storedAfter.isSome

namespace Heartbeat

variable (h : Heartbeat)

/-- When the `n`-th attempt is made. -/
def start : ℕ → ℚ
  | 0 => 0
  | n + 1 => start n + (h.beat n).latency + heartbeatIntervalSeconds

/-- When `heartbeat` returned. -/
def returned : ℚ := h.start 0 + (h.beat 0).latency

def Failed (n : ℕ) : Prop := (h.beat n).storedAfter = none

/-- When the `n`-th attempt was stored. -/
def storedAt (n : ℕ) : Option ℚ :=
  (h.beat n).storedAfter.map fun d => h.start n + d

/-- The entry is in the bucket, younger than its maximum age. -/
def Live (t : ℚ) : Prop :=
  ∃ n s, h.storedAt n = some s ∧ s ≤ t ∧ t < s + kvTtlSeconds

end Heartbeat

end JetCore
