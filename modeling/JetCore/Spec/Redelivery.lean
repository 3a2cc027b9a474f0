import JetCore.Spec.FileStore

/-!
# One message, delivered again and again

A delivery runs the message's handler. Any call of it may fail, having done its
work, part of it or nothing, and the delivery may end after any call, so the
message is delivered again with whatever that left. Others may work on the same
filesystem meanwhile, as long as the path of the request still leads to its
target and what is there stays as it is.

`OneOutcome` is what the results should all come to: the answer for the state
in which the message was first delivered.
-/

namespace JetCore

open Lib

/-- What a handler looks for at its target. -/
def FileKind.finds (kind : FileKind) (fs : Fs FileName) (p : PosixPath) :
    Bool :=
  match kind with
  | .write => p.exists? fs = .ok true
  | .read | .delete => p.isFile fs = .ok true

/-- What `resolve_within` answers, if it answers. -/
def leadsTo (fs : Fs FileName) (depth : ℕ) (watchDir : PosixPath)
    (relative : Text) : Except Exn PosixPath := do
  let root ← realpath fs depth watchDir.parts
  realpath fs depth (root.join relative).parts

/-- Nobody has touched the target: the path still leads to it, and what is
there is the same. -/
structure LeavesTarget (depth : ℕ) (watchDir : PosixPath) (relative : Text)
    (fs fs' : Fs FileName) : Prop where
  root : realpath fs' depth watchDir.parts = realpath fs depth watchDir.parts
  target : ∀ root, realpath fs depth watchDir.parts = .ok root →
    realpath fs' depth (root.join relative).parts =
      realpath fs depth (root.join relative).parts
  node : ∀ p, leadsTo fs depth watchDir relative = .ok p →
    p.stat fs' = p.stat fs

/-! ## A call that may fail -/

def FileAct.MayRaise : FileAct → Exn → Prop
  | .publish _, _ | .ack, _ | .nak, _ => True
  | .mark _, _ | .log _, _ => False
  | _, e => e.isOSError = true

/-- What a call may have done when it fails. -/
inductive FileAct.Partly (depth : ℕ) (s : FileWorld) :
    FileAct → FileWorld → Prop
  | nothing (a : FileAct) : Partly depth s a s
  | done (a : FileAct) : Partly depth s a (a.perform depth s).2
  /-- Some of the parents were made. -/
  | mkdir {p q : PosixPath} : q.parts <+: p.parts →
      Partly depth s (.mkdir p) ((FileAct.mkdir q).perform depth s).2
  /-- Some of the content was written. -/
  | write (file : Location) (content : Bytes) (n : ℕ) :
      Partly depth s (.write file content)
        ((FileAct.write file (content.take n)).perform depth s).2

inductive FileAct.Ends (depth : ℕ) (a : FileAct) (s : FileWorld) :
    Except Exn a.Resp → FileWorld → Prop
  | done : Ends depth a s (a.perform depth s).1 (a.perform depth s).2
  | raised {e : Exn} {s' : FileWorld} : a.MayRaise e → a.Partly depth s s' →
      Ends depth a s (.error e) s'

/-! ## Deliveries -/

/-- The `open` has made the file, or the `unlink` has removed it. -/
def FileAct.turns : FileAct → Fs FileName → Fs FileName → Bool
  | .openWrite p, fs, fs' =>
      !FileKind.write.finds fs p && FileKind.write.finds fs' p
  | .unlink p, fs, fs' =>
      FileKind.delete.finds fs p && !FileKind.delete.finds fs' p
  | _, _, _ => false

structure Redelivery where
  world : FileWorld
  /-- Some delivery has made the file, or removed it. -/
  turned : Bool := false

namespace Redelivery

variable (self : FileAdapter) (depth : ℕ) (c : FileCommand)

/-- A call of a delivery, after anything others did. -/
def can : Prog.World Redelivery FileAct FileAct.Resp Exn :=
  fun s a r s' => ∃ fs,
    (∀ relative, c.path = .ok relative →
      LeavesTarget depth self.watchDir relative s.world.fs fs) ∧
    a.Ends depth { s.world with fs := fs } r s'.world ∧
    s'.turned = (s.turned || a.turns fs s'.world.fs)

/-- A delivery's program. Each has its own time. -/
def Delivers (p : FileProg Unit) : Prop :=
  ∃ occurredAt, p = { c with occurredAt := occurredAt }.handle self

/-- What may have become of the message and its results, where each delivery
begins in a state that `begins` allows. -/
def Reached (begins : Redelivery → Prop) (fs : Fs FileName) :
    Redelivery → Prop :=
  Prog.Reruns (can self depth c) begins (Delivers self c)
    { world := { fs := fs } }

/-- No delivery so far has made or removed the file. -/
def OnTime (s : Redelivery) : Prop := s.turned = false

end Redelivery

/-! ## One outcome -/

/-- The result of a request whose handler found its target, or did not. -/
def FileKind.result : FileKind → Bool → String
  | .write, true => "FileWriteCompleted"
  | .write, false => "FileCreateCompleted"
  | .read, true => "FileReadCompleted"
  | .delete, true => "FileDeleteCompleted"
  | .read, false | .delete, false => "FileOperationFailed"

structure ResultFor (c : FileCommand) (found : Bool) (args : PublishArgs) :
    Prop where
  correlated : args.correlationId = some c.event.details.eventId
  type : args.eventType = c.kind.result found
  notFound : args.eventType = "FileOperationFailed" →
    ∃ payload, args.payload = Json.dumps payload ∧
      NotFoundAnswer args payload

/-- Every result published is the one for the state at first, so they are all
of one type. -/
def OneOutcome (self : FileAdapter) (depth : ℕ) (c : FileCommand)
    (fs : Fs FileName) (s : Redelivery) : Prop :=
  ∀ args ∈ s.world.published, ∃ relative target,
    c.path = .ok relative ∧
    leadsTo fs depth self.watchDir relative = .ok target ∧
    ResultFor c (c.kind.finds fs target) args

end JetCore
