import JetCore.Lib.FsLook
import JetCore.Ref.FileWorld

/-!
# Commands on files

A write, a read or a delete as it is handed to its handler, what it comes to
when it is handled in a world without faults and with nobody else in it, and
what it means that it stays within `watch_dir`.
-/

namespace JetCore

open Lib

inductive FileKind where
  | write
  | read
  | delete
  deriving DecidableEq

structure FileCommand where
  kind : FileKind
  occurredAt : String
  event : ReceivedEvent

namespace FileCommand

variable (self : FileAdapter) (depth : ℕ) (c : FileCommand)

/-- The path that is asked for, if the payload can be read. -/
def path : Except Exn Text :=
  match c.kind with
  | .write => (decodeWriteRequested c.event.payload).map WriteRequest.path
  | .read | .delete => decodePathOnlyRequest false c.event.payload

def handle : FileProg Unit :=
  match c.kind with
  | .write => handleWrite self c.occurredAt c.event
  | .read => handleRead self c.occurredAt c.event
  | .delete => handleDelete self c.occurredAt c.event

/-- The world after the command. -/
def run (s : FileWorld) : FileWorld :=
  ((c.handle self).exec (FileAct.perform depth) s).2

end FileCommand

/-! ## Directories as the kernel finds them -/

/-- What the kernel makes of what stands between two slashes. -/
def kernelComp (t : Text) : Except Exn (Comp FileName) :=
  if t = [] then .ok .empty
  else if t = dotText then .ok .dot
  else if t = dotdotText then .ok .dotdot
  else (encodeName t).map .name

/-- Where a path leads, which may have `..` in it. -/
def PosixPath.kernelWalk (p : PosixPath) (fs : Fs FileName) :
    Except Exn Location := do
  let comps ← p.parts.mapM kernelComp
  (fs.walk Fs.maxLinks [] comps).mapError .osError

/-- The path of an existing directory, and its location. -/
structure ExistingDir (fs : Fs FileName) (p : PosixPath) (loc : Location) :
    Prop where
  walk : p.kernelWalk fs = .ok loc
  dir : fs.node? loc = some .dir

/-! ## Confinement -/

/-- A path that leads into the root and has no link on it. -/
def LeadsInside (fs : Fs FileName) (rootLoc : Location) (p : PosixPath) :
    Prop :=
  ∃ names, p.encode = .ok names ∧ rootLoc <+: names ∧ fs.LinkFree names

/-- Wherever a request's path is found to lead is in the subtree of the
resolved root, and so is all that its handling touches. -/
structure Confined (fs : Fs FileName) (depth : ℕ) (adapter : FileAdapter)
    (relative : Text) (rootLoc : Location) : Prop where
  subtree : ∀ p, resolvedWithin fs depth adapter.watchDir relative = .ok p →
    ∃ rootResolved, adapter.watchDir.resolve fs depth = .ok rootResolved ∧
      p.IsRelativeTo rootResolved
  inside : ∀ p, resolvedWithin fs depth adapter.watchDir relative = .ok p →
    LeadsInside fs rootLoc p
  touched : ∀ c : FileCommand, c.path = .ok relative →
    ∀ loc ∈ (c.run adapter depth { fs := fs }).touched, rootLoc <+: loc

/-- Resolving the path stops at a loop of links, and what is left of it by
name alone is below the root and may be looked at, but goes over a link. -/
def StopsAtLoop (fs : Fs FileName) (depth : ℕ) (watchDir : PosixPath)
    (relative : Text) : Prop :=
  isAbsolute relative = false ∧
    ∃ (rootResolved : PosixPath) (joined : Joined) (names : Location),
      watchDir.resolve fs depth = .ok rootResolved ∧
      joinrealpath fs depth [] (rootResolved.join relative).parts Dict.empty =
        .ok joined ∧
      joined.ok = false ∧
      (normpath joined.path).IsRelativeTo rootResolved ∧
      (normpath joined.path).encode = .ok names ∧
      fs.stat names ≠ .error .eloop ∧ ¬ fs.LinkFree names

/-! ## Listing -/

/-- Following the path name by name never comes to a link. -/
def ThroughNoLink (fs : Fs FileName) (parts : List Text) : Prop :=
  ∀ front, front <+: parts →
    ∀ names, (normpath front).encode = .ok names →
      ∀ t, fs.node? names ≠ some (.link t)

/-- `watch_dir` is found at a directory, and the path is one through no
link. -/
structure Views (fs : Fs FileName) (depth : ℕ) (watchDir : PosixPath)
    (relative : Text) (rootResolved : PosixPath) (rootLoc : Location) :
    Prop where
  root : watchDir.resolve fs depth = .ok rootResolved
  encode : rootResolved.encode = .ok rootLoc
  dir : fs.node? rootLoc = some .dir
  plain : ThroughNoLink fs (rootResolved.join relative).parts

/-- What a listing publishes. -/
def listPublishes (adapter : FileAdapter) (depth : ℕ) (occurredAt : String)
    (event : ReceivedEvent) (fs : Fs FileName) : List PublishArgs :=
  ((handleList adapter occurredAt event).exec (FileAct.perform depth)
    { fs := fs }).2.published

/-- The child is there. -/
def Child (fs : Fs FileName) (d : Location) (n : FileName) : Prop :=
  fs.node? (d ++ [n]) ≠ none

/-- Looking a child up comes by no location that is neither in the subtree of
the root nor above it. A child that is no link is always such. -/
def ChildrenInside (fs : Fs FileName) (rootLoc d : Location) : Prop :=
  ∀ n, Child fs d n →
    fs.LooksWithin (Fs.Near rootLoc) Fs.maxLinks [] ((d ++ [n]).map .name)

/-- What is outside the root makes no difference to the listing. -/
def ListsAlike (adapter : FileAdapter) (depth : ℕ) (occurredAt : String)
    (event : ReceivedEvent) (relative : Text) (fs : Fs FileName)
    (rootResolved : PosixPath) (rootLoc : Location) : Prop :=
  ∀ fs', Fs.SameBelow rootLoc fs fs' →
    Views fs' depth adapter.watchDir relative rootResolved rootLoc →
      listPublishes adapter depth occurredAt event fs' =
        listPublishes adapter depth occurredAt event fs

/-- Whatever is outside the root, some child cannot be looked up. -/
def NeverLists (depth : ℕ) (watchDir : PosixPath) (relative : Text)
    (fs : Fs FileName) (rootResolved : PosixPath) (rootLoc d : Location) :
    Prop :=
  ∀ fs', Fs.SameBelow rootLoc fs fs' →
    Views fs' depth watchDir relative rootResolved rootLoc →
      ∃ n, Child fs d n ∧ ∃ e, fs'.stat (d ++ [n]) = .error e

end JetCore
