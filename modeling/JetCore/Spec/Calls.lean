import JetCore.Ref.BusClient

/-!
# Calls of `publish`

A call is everything a `publish` depends on apart from the stream it meets:
the client, the recipients in its cache, the draws, the time and the
arguments. What happens on the bus is then a sequence of calls, by any clients
on any subjects.
-/

namespace JetCore

open Lib

/-- One call of `publish`: who calls, what its cache holds and it draws, when,
and the arguments. -/
structure Call where
  client : BusClient
  recipients : List Json
  draws : Draws
  now : ℕ
  args : PublishArgs

namespace Call

variable (P : Primitives) (w : Pydantic) (c : Call)

def run : Bus String :=
  c.client.publish P w c.recipients c.draws c.now c.args

/-- The envelope the call builds. -/
def event : Except Exn Event :=
  c.client.buildEvent P c.recipients c.draws.coins c.draws.built c.args

/-- The id drawn for that envelope. -/
def eventId : String := c.draws.built.eventId

/-- The call gets as far as the stream. -/
def Sent : Prop := captured c.args.subject = true ∧ ∃ e, c.event P = .ok e

end Call

/-- The world after a sequence of calls. -/
def worldAfter (P : Primitives) (w : Pydantic) (world : World)
    (calls : List Call) : World :=
  calls.foldl (fun world c => (c.run P w world).2) world

/-- The stream before the first call. -/
def World.empty (duplicateWindow : ℕ) : World :=
  { stream := { duplicateWindow := duplicateWindow } }

end JetCore
