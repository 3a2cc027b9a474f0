import JetCore.Ref.FileWorld
import JetCore.Ref.RecentWrites

/-!
# `create_watch.py`

The watch takes up the changes of a batch one after the other, and one that it
reports keeps it until the file has settled. `run_forever` is given by where it
stands between two awaits, and by what it does from there to the next one.
-/

namespace JetCore

open Lib

/-- `watchfiles.Change` -/
inductive PathChange where
  | added
  | modified
  | deleted
  deriving DecidableEq

structure RawChange where
  change : PathChange
  path : PosixPath
  deriving DecidableEq

/-! ## `wait_until_settled` -/

/-- `_SETTLE_POLL_INTERVAL_SECONDS`, in nanoseconds. -/
def settlePollInterval : ℕ := 200000000

/-- `_SETTLE_STABLE_READS` -/
def settleStableReads : ℕ := 3

structure Settling where
  lastSize : ℤ := -1
  consecutiveMatches : ℕ := 0
  deriving DecidableEq

/-- The loop's body, at a poll that finds a size. -/
def Settling.poll (s : Settling) (size : ℕ) : Settling :=
  if (size : ℤ) = s.lastSize then
    { s with consecutiveMatches := s.consecutiveMatches + 1 }
  else { lastSize := size, consecutiveMatches := 0 }

/-- The loop has ended. -/
def Settling.done (s : Settling) (stableReads : ℕ) : Bool :=
  stableReads ≤ s.consecutiveMatches

/-- `wait_until_settled`, with what its polls come to: what it returns or
raises, if that takes no more turns of the loop than the fuel allows. A turn
is a sleep and the poll of its number. -/
def waitUntilSettled (polls : ℕ → Except Exn ℕ) (stableReads : ℕ) :
    (fuel turn : ℕ) → Settling → Option (Except Exn (Option ℤ))
  | 0, _, _ => none
  | fuel + 1, turn, s =>
      if s.done stableReads then some (.ok (some s.lastSize))
      else
        match polls turn with
        | .ok size =>
            waitUntilSettled polls stableReads fuel (turn + 1) (s.poll size)
        | .error (.osError .enoent) => some (.ok none)
        | .error e => some (.error e)

/-! ## `_handle_new_file` -/

/-- `str` of a relative path. -/
def relativeText (parts : List Text) : Text :=
  if parts = [] then dotText else List.intercalate [slash] parts

/-- `relative_to` -/
def PosixPath.relativeTo (p root : PosixPath) : Except Exn Text :=
  if p.IsRelativeTo root then
    .ok (relativeText (p.parts.drop root.parts.length))
  else .error .valueError

/-- What is published of a file that has settled. -/
def createCompleted (relative : Text) (size : ℤ) (occurredAt : String) :
    PublishArgs where
  subject := "events.files.FileCreateCompleted"
  payload := encodeCompleted relative size.toNat occurredAt
  eventType := "FileCreateCompleted"

/-! ## `run_forever` -/

inductive WatchPhase where
  /-- For the next batch. -/
  | waiting
  /-- The changes that are left of a batch. -/
  | taking (changes : List RawChange)
  /-- Asleep in `wait_until_settled`, and the changes left after this one. -/
  | settling (path : PosixPath) (state : Settling) (wakeAt : ℕ)
      (rest : List RawChange)
  /-- Left with an exception, the file it was settling if any. -/
  | raised (path : Option PosixPath)
  deriving DecidableEq

/-- The file that `_handle_new_file` is at, or was at. -/
def WatchPhase.path? : WatchPhase → Option PosixPath
  | .settling p _ _ _ => some p
  | .raised p => p
  | _ => none

/-- What becomes of a change. -/
inductive Taken where
  /-- No file was created. -/
  | ignored
  | raised
  /-- `was_recent` -/
  | recent
  /-- Passed to `_handle_new_file`. -/
  | passed
  deriving DecidableEq

/-- The loop's body up to `_handle_new_file`. -/
def takeChange (fs : Fs FileName) (recent : RecentWrites ℕ ℕ) (now : ℕ)
    (c : RawChange) : Taken × RecentWrites ℕ ℕ :=
  if c.change ≠ .added then (.ignored, recent)
  else
    match c.path.isFile fs with
    | .error _ => (.raised, recent)
    | .ok false => (.ignored, recent)
    | .ok true =>
        if (recent.wasRecent now c.path).1 then
          (.recent, (recent.wasRecent now c.path).2)
        else (.passed, (recent.wasRecent now c.path).2)

/-- What a poll finds out: nothing yet, `None`, or the size. -/
inductive Polled where
  | again (state : Settling)
  | disappeared
  | settled (size : ℤ)
  | raised
  deriving DecidableEq

/-- A poll of `wait_until_settled`, from its wake-up on. -/
def pollFile (fs : Fs FileName) (path : PosixPath) (state : Settling) :
    Polled :=
  match path.stat fs with
  | .ok node =>
      let state := state.poll (Node.size node)
      if state.done settleStableReads then .settled state.lastSize
      else .again state
  | .error (.osError .enoent) => .disappeared
  | .error _ => .raised

end JetCore
