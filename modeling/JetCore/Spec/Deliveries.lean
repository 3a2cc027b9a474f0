import JetCore.Lib.Tasks
import JetCore.Ref.DbAdapter
import JetCore.Ref.FileHandlers
import JetCore.Ref.HttpAdapter

/-!
# What a handler owes the messages it acks

A consumer hands messages to its handler, each as often as it likes, and every
call the handler makes may return or raise. So a run of a consumer is a run of
`Tasks`: a task for each delivery, and the log of all calls.

`AckAfterWork` is what the log must show. What it means that a message was
rejected, and what must have been done before a publish, is each handler's own
and is read off the calls the delivery made before. The one thing no call does
is raise `PathTraversalError`, which only `resolve_within` raises.
-/

namespace JetCore

open Lib

/-- How a handler's calls talk to the bus. -/
class BusCalls (A : Type) where
  published? : A → Option PublishArgs
  isAck : A → Bool
  isNak : A → Bool

open BusCalls

instance : BusCalls FileAct where
  published?
    | .publish args => some args
    | _ => none
  isAck
    | .ack => true
    | _ => false
  isNak
    | .nak => true
    | _ => false

instance : BusCalls DbAct where
  published?
    | .publish args => some args
    | _ => none
  isAck
    | .ack => true
    | _ => false
  isNak
    | .nak => true
    | _ => false

instance : BusCalls HttpAct where
  published?
    | .publish args => some args
    | _ => none
  isAck
    | .ack => true
    | _ => false
  isNak
    | .nak => true
    | _ => false

/-- A delivery: the text of the time when it is answered, and the event. -/
structure Delivered where
  occurredAt : String
  event : ReceivedEvent

def Delivered.eventId (d : Delivered) : String := d.event.details.eventId

section

variable {A : Type} {R : A → Type}

/-- Calls and their answers. -/
abbrev Calls (A : Type) (R : A → Type) := List (CallEvent A R Exn)

/-- What calls may answer. -/
def AnswersOwn (a : A) (r : Except Exn (R a)) : Prop :=
  ∀ path, r ≠ .error (.pathTraversalError path)

/-- A publish correlated to the event has returned. -/
def Answered [BusCalls A] (eventId : String) (h : Calls A R) : Prop :=
  ∃ e ∈ h, ∃ args, published? e.1 = some args ∧
    args.correlationId = some eventId ∧ ∃ x, e.2 = .ok x

/-- In every run of a handler's deliveries: an ack follows a rejection or a
publish correlated to the message that returned; every publish is correlated
to its message, and what its event type says was done before; and a delivery
that naks publishes nothing. -/
def AckAfterWork [BusCalls A] (handle : Delivered → Prog A R Exn Unit)
    (rejected : Delivered → Calls A R → Prop)
    (done : Delivered → PublishArgs → Calls A R → Prop) : Prop :=
  ∀ (acts : List (TaskAct Delivered A R Exn)) (s : Tasks Delivered A R Exn Unit),
    Run (Tasks.step handle) (Tasks.Allows AnswersOwn) {} acts s →
    ∀ before i e after, s.log = before ++ (i, e) :: after →
      ∃ d, s.subject? i = some d ∧
        (isAck e.1 = true → rejected d (Tasks.own i before) ∨
          Answered d.eventId (Tasks.own i before)) ∧
        (∀ args, published? e.1 = some args →
          args.correlationId = some d.eventId ∧
            done d args (Tasks.own i before)) ∧
        (isNak e.1 = true →
          ∀ e' ∈ Tasks.own i s.log, published? e'.1 = none)

end

/-! ## File handlers -/

abbrev FileCalls := Calls FileAct FileAct.Resp

/-- The payload is malformed. -/
def Malformed {α : Type} (decoded : Except Exn α) : Prop :=
  ∃ why, decoded = .error (.malformedPayloadError why)

/-- The calls show that the path leaves the root. -/
def Escapes (root : PosixPath) (path : Text) (h : FileCalls) : Prop :=
  isAbsolute path = true ∨
    ∃ rootResolved candidate : PosixPath,
      ⟨.resolve root, .ok rootResolved⟩ ∈ h ∧
      ⟨.resolve (rootResolved.join path), .ok candidate⟩ ∈ h ∧
      candidate ≠ rootResolved ∧ rootResolved ∉ candidate.parents

/-- The calls show that the path leads to `target`, within the root. -/
def Resolved (root : PosixPath) (path : Text) (target : PosixPath)
    (h : FileCalls) : Prop :=
  isAbsolute path = false ∧
    ∃ rootResolved : PosixPath,
      ⟨.resolve root, .ok rootResolved⟩ ∈ h ∧
      ⟨.resolve (rootResolved.join path), .ok target⟩ ∈ h ∧
      (target = rootResolved ∨ rootResolved ∈ target.parents)

/-- A file message is rejected: malformed, or its path leaves `watch_dir`. -/
def Rejected {α : Type} (self : FileAdapter)
    (decode : Bytes → Except Exn α) (path : α → Text) (d : Delivered)
    (h : FileCalls) : Prop :=
  Malformed (decode d.event.payload) ∨
    ∃ request, decode d.event.payload = .ok request ∧
      Escapes self.watchDir (path request) h

/-- The file was opened and the message's content written to it. -/
def Written (self : FileAdapter) (d : Delivered) (args : PublishArgs)
    (h : FileCalls) : Prop :=
  ∃ request target file,
    decodeWriteRequested d.event.payload = .ok request ∧
    Resolved self.watchDir request.path target h ∧
    [⟨.openWrite target, .ok file⟩, ⟨.write file request.content, .ok ()⟩].Sublist h ∧
    args.payload =
      encodeCompleted request.path request.content.length d.occurredAt

def ReadDone (self : FileAdapter) (d : Delivered) (args : PublishArgs)
    (h : FileCalls) : Prop :=
  args.eventType = "FileReadCompleted" →
    ∃ path target content,
      decodePathOnlyRequest false d.event.payload = .ok path ∧
      Resolved self.watchDir path target h ∧
      ⟨.read target, .ok content⟩ ∈ h ∧
      args.payload = encodeReadCompleted path content d.occurredAt

def DeleteDone (self : FileAdapter) (d : Delivered) (args : PublishArgs)
    (h : FileCalls) : Prop :=
  args.eventType = "FileDeleteCompleted" →
    ∃ path target,
      decodePathOnlyRequest false d.event.payload = .ok path ∧
      Resolved self.watchDir path target h ∧
      ⟨.unlink target, .ok ()⟩ ∈ h

def ListDone (self : FileAdapter) (d : Delivered) (args : PublishArgs)
    (h : FileCalls) : Prop :=
  args.eventType = "FileListCompleted" →
    ∃ path target children,
      decodePathOnlyRequest true d.event.payload = .ok path ∧
      Resolved self.watchDir path target h ∧
      ⟨.iterdir target, .ok children⟩ ∈ h

/-! ## The other two -/

/-- The message's order was upserted and the upsert committed. -/
def Upserted (d : Delivered) (_ : PublishArgs)
    (h : Calls DbAct DbAct.Resp) : Prop :=
  ∃ request, decodeOrderCreated d.event.payload = .ok request ∧
    ⟨.upsert request, .ok ()⟩ ∈ h

/-- The message's payload was posted and the response is the one reported. -/
def Posted (self : TriggerHandler) (d : Delivered) (args : PublishArgs)
    (h : Calls HttpAct HttpAct.Resp) : Prop :=
  ∃ response,
    ⟨.post self.targetBaseUrl d.event.payload self.headers, .ok response⟩ ∈ h ∧
    args = requestCompleted response d.occurredAt d.eventId

end JetCore
