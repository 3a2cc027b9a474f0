import JetCore.Ref.FaultyWorld

/-!
# One ack or one nak

What a handler owes the broker, whatever the filesystem does, and when it pays
it: a `try` stands around the work, but neither around the path's resolution
nor around the first looks at the target.
-/

namespace JetCore

open Lib

inductive FileHandler where
  | write
  | read
  | delete
  | list
  deriving DecidableEq

/-- The path of the request, if the payload decodes. -/
def FileHandler.path (h : FileHandler) (payload : Bytes) : Except Exn Text :=
  match h with
  | .write => (decodeWriteRequested payload).map WriteRequest.path
  | .read | .delete => decodePathOnlyRequest false payload
  | .list => decodePathOnlyRequest true payload

/-- `_handle` -/
def FileHandler.handle (h : FileHandler) (adapter : FileAdapter)
    (occurredAt : String) (event : ReceivedEvent) : FileProg Unit :=
  match h with
  | .write => handleWrite adapter occurredAt event
  | .read => handleRead adapter occurredAt event
  | .delete => handleDelete adapter occurredAt event
  | .list => handleList adapter occurredAt event

variable (faults : Faults) (depth : ℕ)

/-- No exception, and one settlement. -/
def SettlesOnce (p : FileProg Unit) (s : FaultyWorld) : Prop :=
  (p.exec (FileAct.performFaulty faults depth) s).1 = .ok () ∧
    ∃ x, (p.exec (FileAct.performFaulty faults depth) s).2.world.settled =
      s.world.settled ++ [x]

variable (fs : Fs FileName)

/-- The path is refused as it is written, or both of the calls of `resolve`
answer: every component that is looked at can be encoded, no `readlink` fails,
and the `stat` of what they come to meets no loop of links. -/
def Resolves (watchDir : PosixPath) (relative : Text) : Prop :=
  isAbsolute relative = true ∨ ∃ root target,
    watchDir.resolveFaulty fs (faults.errno 0) depth = .ok root ∧
    (root.join relative).resolveFaulty fs (faults.errno 1) depth = .ok target

/-- What `resolve_within` comes to. -/
def withinFaulty (watchDir : PosixPath) (relative : Text) :
    Except Exn PosixPath := do
  if isAbsolute relative then .error (.pathTraversalError relative)
  else
    let root ← watchDir.resolveFaulty fs (faults.errno 0) depth
    let target ← (root.join relative).resolveFaulty fs (faults.errno 1) depth
    if target ≠ root ∧ root ∉ target.parents then
      .error (.pathTraversalError relative)
    else .ok target

/-- No error, or one on which the answer is `False`. -/
def Ignored (fault : Option Errno) : Prop :=
  ∀ e, fault = some e → PosixPath.ignoresError e = true

/-- The looks at the target before the `try`: `exists` or `is_file`, and of a
list whose target exists `is_dir`. -/
def FileHandler.Looks (h : FileHandler) (target : PosixPath) : Prop :=
  Ignored (faults.errno 2 0) ∧
    (h = .list → faults.errno 2 0 = none → target.exists? fs = .ok true →
      Ignored (faults.errno 3 0))

/-- Nothing is raised outside of the `try`. -/
structure FileHandler.Guarded (h : FileHandler) (watchDir : PosixPath)
    (relative : Text) : Prop where
  resolves : Resolves faults depth fs watchDir relative
  looks : ∀ target, withinFaulty faults depth fs watchDir relative =
    .ok target → h.Looks faults fs target

end JetCore
