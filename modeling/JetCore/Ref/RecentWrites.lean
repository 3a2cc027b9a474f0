import JetCore.Lib.Binary64
import JetCore.Ref.Paths

/-!
# `recent_writes.py`

Which paths the write handler has written lately. What `time.monotonic` reads
is a double, as is the time to live, and their difference is rounded; it may be
infinite, if the time to live is. The watch's model keeps both in nanoseconds
instead, where nothing has to be rounded.
-/

namespace JetCore

open Lib

/-- Readings of a clock, and times to live. Of two readings the later one has
the later cutoff. -/
class Clock (R D : Type) [LinearOrder R] [HSub R D R] : Prop where
  sub_mono : ∀ d : D, Monotone fun t : R => t - d

/-- Nanoseconds. Nothing was marked before zero, so no cutoff need be. -/
instance : Clock ℕ ℕ where
  sub_mono d := fun _ _ h => Nat.sub_le_sub_right h d

/-- A finite double, or minus infinity. -/
abbrev Reading := WithBot Binary64

/-- A finite double, or infinity. -/
abbrev TimeToLive := WithTop Binary64

def Reading.sub : Reading → TimeToLive → Reading
  | some t, some d => ((t - d : Binary64) : WithBot Binary64)
  | _, _ => ⊥

instance : HSub Reading TimeToLive Reading := ⟨Reading.sub⟩

instance : Clock Reading TimeToLive where
  sub_mono d t t' h := by
    show Reading.sub t d ≤ Reading.sub t' d
    cases d with
    | none => cases t <;> exact bot_le
    | some d =>
        cases t with
        | none => exact bot_le
        | some t =>
            cases t' with
            | none => exact absurd h (WithBot.not_coe_le_bot t)
            | some t' =>
                have hle : t ≤ t' := WithBot.coe_le_coe.mp h
                exact WithBot.coe_le_coe.mpr (Binary64.sub_mono d hle)

structure RecentWrites (R D : Type) where
  ttl : D
  markedAt : Dict PosixPath R := Dict.empty

/-- `DEFAULT_TTL_SECONDS`, in nanoseconds. -/
def defaultTtl : ℕ := 5000000000

namespace RecentWrites

variable {R D : Type} [LinearOrder R] [HSub R D R] (self : RecentWrites R D)
  (now : R)

def mark (path : PosixPath) : RecentWrites R D :=
  { self with markedAt := self.markedAt.set path now }

def prune : RecentWrites R D :=
  let cutoff := now - self.ttl
  let expired := (self.markedAt.entries.filter fun e => e.2 < cutoff).map
    Prod.fst
  { self with markedAt := expired.foldl Dict.pop self.markedAt }

def wasRecent (path : PosixPath) : Bool × RecentWrites R D :=
  (((self.prune now).markedAt.get? path).isSome, self.prune now)

end RecentWrites

end JetCore
