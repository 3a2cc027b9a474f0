import JetCore.Ref.FileWorld

/-!
# The calls of the file handlers where the operating system may fail

Any system call may be answered with any error, whatever the tree is like. What
a call of `pathlib` makes of it is CPython 3.12's: `exists`, `is_file` and
`is_dir` answer `False` on the errors they ignore and raise the others, and
`resolve` makes many system calls, of which an `lstat` that fails is taken for
no link and a `readlink` that fails is raised. So `resolve` is a program here,
over the system calls it makes, and without faults it is the function of
`Paths`.

A path that cannot be encoded does not reach the operating system. Nothing of
what is not a call on a path fails.
-/

namespace JetCore

open Lib

/-! ## `resolve`, call by call -/

inductive SysAct where
  /-- `os.lstat`, as far as it says whether there is a link. -/
  | lstat (path : List Text)
  | readlink (path : List Text)
  /-- `os.stat`, as far as it answers at all. -/
  | stat (path : List Text)

abbrev SysAct.Resp : SysAct → Type
  | .lstat _ => Bool
  | .readlink _ => LinkTarget FileName
  | .stat _ => Unit

abbrev SysProg := Prog SysAct SysAct.Resp Exn

def SysAct.path : SysAct → List Text
  | .lstat path | .readlink path | .stat path => path

def SysAct.call (a : SysAct) : SysProg a.Resp := Prog.act a

namespace SysProg

/-- `is_link` of `_joinrealpath` -/
def isLink (path : List Text) : SysProg Bool := do
  match ← (SysAct.call (.lstat path)).attempt with
  | .ok link => pure link
  | .error e => if e.isOSError then pure false else Prog.raise e

/-- The loop of `_joinrealpath`. What it does at a link it has not seen is the
argument. -/
def joinLoop
    (follow : List Text → LinkTarget FileName → Seen → SysProg Joined) :
    List Text → List Text → Seen → SysProg Joined
  | path, [], seen => pure ⟨path, true, seen⟩
  | path, name :: rest, seen =>
      if name = [] ∨ name = dotText then joinLoop follow path rest seen
      else if name = dotdotText then
        joinLoop follow path.dropLast rest seen
      else do
        let newpath := path ++ [name]
        if !(← isLink newpath) then joinLoop follow newpath rest seen
        else
          match seen.get? newpath with
          | some (some path) => joinLoop follow path rest seen
          | some none => pure ⟨joinRest newpath rest, false, seen⟩
          | none => do
              let target ← SysAct.call (.readlink newpath)
              let joined ← follow path target (seen.set newpath none)
              if joined.ok then
                joinLoop follow joined.path rest
                  (joined.seen.set newpath (some joined.path))
              else pure ⟨joinRest joined.path rest, false, joined.seen⟩

/-- `_joinrealpath`, not strict, so deep at most. -/
def joinrealpath : ℕ → List Text → List Text → Seen → SysProg Joined
  | 0 => fun _ _ _ => Prog.raise .recursionError
  | depth + 1 => joinLoop fun path target =>
      joinrealpath depth (if target.absolute then [] else path)
        (target.comps.map Comp.text)

def realpath (depth : ℕ) (path : List Text) : SysProg PosixPath := do
  let joined ← joinrealpath depth [] path Dict.empty
  return normpath joined.path

/-- `check_eloop` of an `OSError`. -/
def checkEloop : Exn → Exn
  | .osError .eloop => .symlinkLoop
  | e => e

/-- `resolve()`, not strict. -/
def resolve (depth : ℕ) (p : PosixPath) : SysProg PosixPath := do
  match ← (realpath depth p.parts).attempt with
  | .error e => Prog.raise (checkEloop e)
  | .ok resolved =>
      match ← (SysAct.call (.stat resolved.parts)).attempt with
      | .ok () => pure resolved
      | .error e =>
          if e.isOSError ∧ e ≠ .osError .eloop then pure resolved
          else Prog.raise (checkEloop e)

end SysProg

/-- What the tree answers. -/
def SysAct.onTree (fs : Fs FileName) (path : Location) :
    (a : SysAct) → Except Errno a.Resp
  | .lstat _ =>
      match fs.lstat path with
      | .ok (.link _) => .ok true
      | .ok _ => .ok false
      | .error e => .error e
  | .readlink _ =>
      match fs.lstat path with
      | .ok (.link target) => .ok target
      | .ok _ => .error .other
      | .error e => .error e
  | .stat _ => (fs.stat path).map fun _ => ()

/-- The state is the number of the system call. -/
def SysAct.perform (fs : Fs FileName) (fails : ℕ → Option Errno) (a : SysAct)
    (n : ℕ) : Except Exn a.Resp × ℕ :=
  match encodeParts a.path with
  | .error e => (.error e, n)
  | .ok path =>
      match fails n with
      | some e => (.error (.osError e), n + 1)
      | none => ((a.onTree fs path).mapError .osError, n + 1)

/-- What `resolve` answers where some of its system calls fail. -/
def PosixPath.resolveFaulty (fs : Fs FileName) (fails : ℕ → Option Errno)
    (depth : ℕ) (p : PosixPath) : Except Exn PosixPath :=
  ((SysProg.resolve depth p).exec (SysAct.perform fs fails) 0).1

/-! ## The calls of the handlers -/

/-- Which system calls fail, by the number of the call and that of the system
call in it, and how far each call gets if it fails. -/
structure Faults where
  errno : ℕ → ℕ → Option Errno := fun _ _ => none
  gets : ℕ → ℕ := fun _ => 0

structure FaultyWorld where
  world : FileWorld
  /-- The calls made so far. -/
  calls : ℕ := 0

namespace FileAct

/-- What is asked of the operating system, and can be. -/
def reachesSystem : FileAct → Bool
  | .exists p | .isFile p | .isDir p | .iterdir p | .size p | .mkdir p
  | .openWrite p | .read p | .unlink p => p.encode.isOk
  | .write _ _ => true
  | _ => false

/-- What a call comes to when the operating system answers with an error. -/
def onErrno (e : Errno) : (a : FileAct) → Except Exn a.Resp
  | .exists _ | .isFile _ | .isDir _ =>
      if PosixPath.ignoresError e then .ok false else .error (.osError e)
  | _ => .error (.osError e)

/-- What a call leaves that fails. A `mkdir` may have made the first of the
directories, and a write have written the beginning of the content; the other
calls do nothing if they fail. -/
def leaves (depth gets : ℕ) (s : FileWorld) : FileAct → FileWorld
  | .mkdir p => ((FileAct.mkdir { p with parts := p.parts.take gets }).perform depth s).2
  | .write file content =>
      ((FileAct.write file (content.take gets)).perform depth s).2
  | _ => s

/-- The call, unless a fault of the operating system comes first. -/
def performUnless (fault : Option Errno) (depth gets : ℕ) (a : FileAct)
    (s : FileWorld) : Except Exn a.Resp × FileWorld :=
  match fault with
  | some e =>
      if a.reachesSystem then (a.onErrno e, a.leaves depth gets s)
      else a.perform depth s
  | none => a.perform depth s

def performFaulty (faults : Faults) (depth : ℕ) (a : FileAct)
    (s : FaultyWorld) : Except Exn a.Resp × FaultyWorld :=
  match a with
  | .resolve p =>
      (p.resolveFaulty s.world.fs (faults.errno s.calls) depth,
        { s with calls := s.calls + 1 })
  | a =>
      let done := a.performUnless (faults.errno s.calls 0) depth
        (faults.gets s.calls) s.world
      (done.1, ⟨done.2, s.calls + 1⟩)

end FileAct

end JetCore
