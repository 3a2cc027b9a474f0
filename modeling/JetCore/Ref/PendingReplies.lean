import JetCore.Ref.BusClient

/-!
# `pending_replies.py`: replies waited for, by correlation id

The event loop's futures are a list, each named by its position, and
`PendingReplies` maps a correlation id to the future last registered under it.
Setting the result of a future that is done raises, as asyncio has it.
-/

namespace JetCore

open Lib

inductive FutureState where
  | pending
  | result (event : ReceivedEvent)
  | cancelled
  deriving DecidableEq

structure PendingReplies where
  futures : List FutureState := []
  pending : Dict String ℕ := Dict.empty

namespace PendingReplies

/-- Creates a future and overwrites whatever was registered under the id. -/
def register (p : PendingReplies) (correlationId : String) :
    ℕ × PendingReplies :=
  (p.futures.length, {
    futures := p.futures ++ [.pending]
    pending := p.pending.set correlationId p.futures.length })

def unregister (p : PendingReplies) (correlationId : String) :
    PendingReplies :=
  { p with pending := p.pending.pop correlationId }

/-- `future.done()` -/
def done (p : PendingReplies) (future : ℕ) : Bool :=
  p.futures[future]? ≠ some .pending

/-- `future.set_result(event)` -/
def setResult (p : PendingReplies) (future : ℕ) (event : ReceivedEvent) :
    Except Exn PendingReplies :=
  if p.done future then .error .invalidStateError
  else .ok { p with futures := p.futures.set future (.result event) }

/-- `future.cancel()`, which leaves a future that is done as it is. -/
def cancel (p : PendingReplies) (future : ℕ) : PendingReplies :=
  if p.done future then p
  else { p with futures := p.futures.set future .cancelled }

def resolve (p : PendingReplies) (event : ReceivedEvent) :
    Except Exn (Bool × PendingReplies) :=
  match event.details.correlationId with
  | none => .ok (false, p)
  | some correlationId =>
      match p.pending.get? correlationId with
      | none => .ok (false, p)
      | some future =>
          if p.done future then .ok (false, p)
          else do
            let p ← p.setResult future event
            return (true, p)

end PendingReplies

end JetCore
