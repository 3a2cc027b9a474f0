import JetCore.Lib.Run
import JetCore.Proofs.Relay
import JetCore.Ref.DurableNames

/-!
# The webhook sender, restarted

`run` has a loop for each subject, all in one `gather`: an exception out of one
`run_once` is one out of `run`, so it ends the process, and with it what all
the loops have fetched. Between that exception and the end of the process the
other loops may go on. The container is started again, and what has not been
acked is delivered again until it has had its five deliveries.

Each process draws an encryption key of its own. So a message that was
encrypted for one that is over is delivered to the next one all the same, but
`_process` cannot decrypt it, and `fetch` leaves it out.
-/

namespace JetCore

open Lib

/-- The configured subjects, each with a consumer of its own. -/
structure RelayDeployment where
  serviceId : String
  handlers : List RelayHandler
  apart : (handlers.map fun self =>
    SubjectAdapter.webhookSender.durableName serviceId self.subject).Nodup

/-- `FETCH_BATCH` -/
def fetchBatch : ℕ := 10

/-- A message at the consumer of a loop. -/
structure Relayed where
  loop : ℕ
  /-- In the stream. -/
  position : ℕ
  deriving DecidableEq

/-- A message as it is stored. -/
structure Addressed where
  /-- What `_process` makes of it with the right key. -/
  event : ReceivedEvent
  /-- The process of this service whose key it is encrypted for. The publisher
  may have found none, or that of one that is over. -/
  reader : Option ℕ

/-- Where a loop is in its `run_once`. -/
structure RelayLoop where
  /-- The events that the `for` has not come to. -/
  batch : List Relayed := []
  /-- What is left of `_handle`. -/
  current : Option (Relayed × RelayProg Unit) := none
  /-- With an exception. -/
  ended : Bool := false

structure RelayProcess where
  stored : List Addressed := []
  /-- How often it was started again. -/
  process : ℕ := 0
  up : Bool := true
  loops : ℕ → RelayLoop := fun _ => {}
  delivered : List Relayed := []
  /-- The requests that went out, with the process that sent them. -/
  posts : List (ℕ × Relayed) := []
  /-- The acks that went out. -/
  acks : List Relayed := []
  /-- Those that have arrived. -/
  acked : List Relayed := []
  /-- The events whose `_handle` raised without a call that did. -/
  raised : List Relayed := []

inductive RelayProcessAct where
  | publish (event : ReceivedEvent) (reader : Option ℕ)
  /-- These are delivered, and the loop is handed the ones marked: the others
  did not get there in time, or `_process` raised. -/
  | fetch (loop : ℕ) (deliveries : List (ℕ × Bool))
  /-- The loop comes to the next event of its batch. -/
  | handle (loop : ℕ)
  /-- The next call of the handler. If it is a request, this is what comes
  back. -/
  | call (loop : ℕ) (response : Option HttpResponse)
  /-- The next call of the loop raises. -/
  | fail (loop : ℕ) (e : Exn)
  /-- An ack arrives. -/
  | settle (m : Relayed)
  /-- A loop has ended, and so does the process. -/
  | exit
  /-- The process ends for another reason. -/
  | kill
  | restart

/-- A call raises, or the process is ended from outside. -/
def RelayProcessAct.isFault : RelayProcessAct → Bool
  | .fail .. => true
  | .kill => true
  | _ => false

def RelayAct.isSend : RelayAct → Bool
  | .send .. => true
  | _ => false

namespace RelayLoop

/-- It has no event in hand. -/
def Idle (s : RelayLoop) : Prop :=
  s.ended = false ∧ s.current.isNone ∧ s.batch = []

instance (s : RelayLoop) : Decidable s.Idle :=
  inferInstanceAs (Decidable (_ ∧ _ ∧ _))

/-- After a call: `_handle` goes on, or returns, or its exception ends the
loop. -/
def goOn (batch : List Relayed) (m : Relayed) : RelayProg Unit → RelayLoop
  | .pure () => { batch := batch }
  | .raise _ => { ended := true }
  | .call a k => { batch := batch, current := some (m, .call a k) }

/-- The event whose request goes out next. -/
def sending (s : RelayLoop) : List Relayed :=
  match s.current with
  | some (m, .call a _) => if a.isSend then [m] else []
  | _ => []

/-- What it has in hand and has not posted. -/
def unposted (s : RelayLoop) : List Relayed := s.sending ++ s.batch

end RelayLoop

namespace RelayProcess

variable (d : RelayDeployment)

/-- The handler of a loop, and a message on its subject. -/
def message? (s : RelayProcess) (m : Relayed) :
    Option (RelayHandler × Addressed) := do
  let self ← d.handlers[m.loop]?
  let x ← s.stored[m.position]?
  if x.event.msg.subject = self.subject then some (self, x) else none

def setLoop (s : RelayProcess) (l : ℕ) (loop : RelayLoop) : RelayProcess :=
  { s with loops := Function.update s.loops l loop }

/-- The process is over, and what its loops had in hand is gone. -/
def stopped (s : RelayProcess) : RelayProcess :=
  { s with up := false, loops := fun _ => {} }

/-- What has become of a message once the call is made. -/
def record (s : RelayProcess) (m : Relayed) : RelayAct → RelayProcess
  | .send .. => { s with posts := (s.process, m) :: s.posts }
  | .ack _ => { s with acks := m :: s.acks }
  | _ => s

/-- What a handler's calls are answered if none of them fails. -/
def answers (response : Option HttpResponse) (a : RelayAct) :
    Except Exn a.Resp :=
  (RelayPeers.answer ⟨[], fun _ => response⟩ a []).1

/-- The next call of `_handle` in a loop is made and answered. -/
def answer (s : RelayProcess) (l : ℕ)
    (r : (a : RelayAct) → Except Exn a.Resp) : Option RelayProcess :=
  match (s.loops l).current with
  | some (m, .call a k) => some ((s.record m a).setLoop l
      (RelayLoop.goOn (s.loops l).batch m (k (r a))))
  | _ => none

/-- What is left of the message at the consumer, which may deliver it. -/
def Pending (s : RelayProcess) (m : Relayed) : Prop :=
  (s.message? d m).isSome ∧ m ∉ s.acked ∧
    s.delivered.count m < maxDeliverAttempts

instance (s : RelayProcess) (m : Relayed) : Decidable (s.Pending d m) :=
  inferInstanceAs (Decidable (_ ∧ _ ∧ _))

/-- It is encrypted for the process that is running. -/
def Readable (s : RelayProcess) (m : Relayed) : Prop :=
  ∃ x ∈ (s.message? d m).map Prod.snd, s.up = true ∧ x.reader = some s.process

instance (s : RelayProcess) (m : Relayed) : Decidable (s.Readable d m) :=
  inferInstanceAs (Decidable (∃ x ∈ _, _))

/-- What a loop can be handed. -/
def MayFetch (s : RelayProcess) (l : ℕ) (deliveries : List (ℕ × Bool)) :
    Prop :=
  s.up = true ∧ (s.loops l).Idle ∧ deliveries.length ≤ fetchBatch ∧
    (deliveries.map Prod.fst).Nodup ∧
    ∀ x ∈ deliveries, s.Pending d ⟨l, x.1⟩ ∧
      (x.2 = true → s.Readable d ⟨l, x.1⟩)

instance (s : RelayProcess) (l : ℕ) (deliveries : List (ℕ × Bool)) :
    Decidable (s.MayFetch d l deliveries) :=
  inferInstanceAs (Decidable (_ ∧ _ ∧ _ ∧ _ ∧ _))

/-- The messages of a delivery. -/
def arrived (l : ℕ) (deliveries : List (ℕ × Bool)) : List Relayed :=
  deliveries.map fun x => ⟨l, x.1⟩

/-- Those that `fetch` returns. -/
def received (l : ℕ) (deliveries : List (ℕ × Bool)) : List Relayed :=
  arrived l (deliveries.filter Prod.snd)

def step (s : RelayProcess) : RelayProcessAct → Option RelayProcess
  | .publish event reader =>
      if ∀ p ∈ reader, p ≤ s.process then
        some { s with stored := s.stored ++ [⟨event, reader⟩] }
      else none
  | .fetch l deliveries =>
      if s.MayFetch d l deliveries then
        some { s.setLoop l { batch := received l deliveries } with
          delivered := arrived l deliveries ++ s.delivered }
      else none
  | .handle l =>
      match (s.loops l).current, (s.loops l).batch with
      | none, m :: rest => (s.message? d m).map fun (self, x) =>
          match self.handle x.event with
          | .raise e => { s.setLoop l (RelayLoop.goOn rest m (.raise e)) with
              raised := m :: s.raised }
          | p => s.setLoop l (RelayLoop.goOn rest m p)
      | _, _ => none
  | .call l response => s.answer l (answers response)
  | .fail l e =>
      if s.up = true ∧ (s.loops l).Idle ∧ l < d.handlers.length then
        some (s.setLoop l { ended := true })
      else s.answer l fun _ => .error e
  | .settle m =>
      if m ∈ s.acks then some { s with acked := m :: s.acked } else none
  | .exit =>
      if ∃ l < d.handlers.length, (s.loops l).ended = true then some s.stopped
      else none
  | .kill => if s.up then some s.stopped else none
  | .restart =>
      if s.up then none
      else some { s with up := true, process := s.process + 1 }

def Reached (acts : List RelayProcessAct) (s : RelayProcess) : Prop :=
  Run (step d) always {} acts s

/-- How often the message was posted. -/
def posted (s : RelayProcess) (m : Relayed) : ℕ :=
  (s.posts.map Prod.snd).count m

/-- The message is an event whose request can be built. -/
def CanSend (s : RelayProcess) (m : Relayed) : Prop :=
  ∃ self x, s.message? d m = some (self, x) ∧ self.Sendable x.event

/-- It is an event whose request cannot be built. -/
def Poison (s : RelayProcess) (m : Relayed) : Prop :=
  ∃ self x, s.message? d m = some (self, x) ∧ ¬ self.Sendable x.event

/-- The one process that can read it is over, or its deliveries are used up and
nobody has it in hand. -/
def Over (s : RelayProcess) (m : Relayed) : Prop :=
  (∃ self x p, s.message? d m = some (self, x) ∧ x.reader = some p) ∧
    (¬ s.Readable d m ∨ s.delivered.count m = maxDeliverAttempts ∧
      m ∉ (s.loops m.loop).unposted)

/-- It was not posted, and never will be. -/
def Lost (s : RelayProcess) (m : Relayed) : Prop :=
  s.Over d m ∧ s.posted m = 0

/-- Nothing goes wrong but what the code does: only these events are
published, and what is delivered to the process it is encrypted for gets
there and is accepted. -/
def Undisturbed (produced : ReceivedEvent → Prop) (s : RelayProcess) :
    RelayProcessAct → Prop
  | .publish event _ => produced event
  | .fetch l deliveries =>
      ∀ x ∈ deliveries, s.Readable d ⟨l, x.1⟩ → x.2 = true
  | a => a.isFault = false

end RelayProcess

end JetCore
