import JetCore.Ref.FileHandlers

/-!
# The calls of the file handlers on a filesystem

What each call does when nothing goes wrong but what the tree itself makes go
wrong. The world keeps the locations of the nodes that were created, truncated,
read or removed, and what was published, acked and nakked.
-/

namespace JetCore

open Lib

/-- Where a node is. -/
abbrev Location := List FileName

inductive Settlement where
  | acked
  | nakked
  deriving DecidableEq

structure FileWorld where
  fs : Fs FileName
  touched : List Location := []
  marked : List PosixPath := []
  published : List PublishArgs := []
  settled : List Settlement := []
  log : List FileLogLine := []

namespace FileWorld

variable (s : FileWorld)

def touch (locs : List Location) (fs : Fs FileName) : FileWorld :=
  { s with fs := fs, touched := s.touched ++ locs }

/-- A call on the encoded path. -/
def onPath {α : Type} (p : PosixPath)
    (f : Location → Except Exn α × FileWorld) : Except Exn α × FileWorld :=
  match p.encode with
  | .ok path => f path
  | .error e => (.error e, s)

/-- A system call that looks only. -/
def look {α β : Type} (x : Except Errno α) (f : α → β) :
    Except Exn β × FileWorld :=
  match x with
  | .ok a => (.ok (f a), s)
  | .error e => (.error (.osError e), s)

/-- A system call that changes a node. -/
def change {α : Type} (x : Except Errno (Location × Fs FileName))
    (f : Location → α) : Except Exn α × FileWorld :=
  match x with
  | .ok (loc, fs) => (.ok (f loc), s.touch [loc] fs)
  | .error e => (.error (.osError e), s)

end FileWorld

/-- `st_size`. That of a directory is not asked for. -/
def Node.size : Node FileName → ℕ
  | .file content => content.length
  | _ => 0

/-- A child of a directory, as `iterdir` yields it. -/
def PosixPath.child (p : PosixPath) (n : FileName) : PosixPath :=
  { p with parts := p.parts ++ [n.text] }

@[simp] theorem PosixPath.name_child (p : PosixPath) (n : FileName) :
    (p.child n).name = n.text := by
  rw [PosixPath.name, PosixPath.child, List.getLast?_concat, Option.getD_some]

def FileAct.perform (depth : ℕ) (a : FileAct) (s : FileWorld) :
    Except Exn a.Resp × FileWorld :=
  match a with
  | .resolve p => (p.resolve s.fs depth, s)
  | .exists p => (p.exists? s.fs, s)
  | .isFile p => (p.isFile s.fs, s)
  | .isDir p => (p.isDir s.fs, s)
  | .iterdir p => s.onPath p fun path =>
      s.look (s.fs.readdir path) fun names => names.map p.child
  | .size p => s.onPath p fun path => s.look (s.fs.stat path) Node.size
  | .mkdir p => s.onPath p fun path =>
      ((mkdirs path s.fs).1.mapError .osError,
        s.touch (mkdirs path s.fs).2.1 (mkdirs path s.fs).2.2)
  | .openWrite p => s.onPath p fun path => s.change (s.fs.openTrunc path) id
  | .write file content =>
      (.ok (), { s with fs := s.fs.writeAt file content })
  | .read p => s.onPath p fun path =>
      match s.fs.read path with
      | .ok (loc, content) => (.ok content, s.touch [loc] s.fs)
      | .error e => (.error (.osError e), s)
  | .unlink p => s.onPath p fun path => s.change (s.fs.unlink path) fun _ => ()
  | .mark p => (.ok (), { s with marked := s.marked ++ [p] })
  | .log line => (.ok (), { s with log := s.log ++ [line] })
  | .publish args => (.ok (), { s with published := s.published ++ [args] })
  | .ack => (.ok (), { s with settled := s.settled ++ [.acked] })
  | .nak => (.ok (), { s with settled := s.settled ++ [.nakked] })

/-- `resolve_within`, as a function of the filesystem. -/
def resolvedWithin (fs : Fs FileName) (depth : ℕ) (root : PosixPath)
    (relative : Text) : Except Exn PosixPath := do
  if isAbsolute relative then .error (.pathTraversalError relative)
  else
    let rootResolved ← root.resolve fs depth
    let candidate ← (rootResolved.join relative).resolve fs depth
    if candidate ≠ rootResolved ∧ rootResolved ∉ candidate.parents then
      .error (.pathTraversalError relative)
    else .ok candidate

theorem exec_resolveWithin (depth : ℕ) (root : PosixPath) (relative : Text)
    (s : FileWorld) :
    (resolveWithin root relative).exec (FileAct.perform depth) s =
      (resolvedWithin s.fs depth root relative, s) := by
  rw [resolveWithin, resolvedWithin]
  split
  · rfl
  · simp only [FileAct.call, Prog.exec_bind, Prog.exec_act, FileAct.perform]
    cases root.resolve s.fs depth with
    | error e => rfl
    | ok rootResolved =>
        rw [Prog.resume_ok, Prog.exec_bind, Prog.exec_act, FileAct.perform]
        show _ = (Except.bind (.ok rootResolved) _, s)
        rw [Except.bind]
        cases (rootResolved.join relative).resolve s.fs depth with
        | error e => rfl
        | ok candidate =>
            rw [Prog.resume_ok]
            show _ = (Except.bind (.ok candidate) _, s)
            rw [Except.bind]
            split
            · rfl
            · rfl

end JetCore
