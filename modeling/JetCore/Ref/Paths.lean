import JetCore.Ref.Exn

/-!
# `paths.py`, and what it uses of `os.path` and `pathlib`

A path is a text of any code points, a file's name is bytes, and `fsencode`
stands between the two: it fails on a surrogate that stands for no byte, and
two texts may name one file. Every call on the filesystem encodes the path it
is given first, so a text that cannot be encoded, or has a NUL in it, is a
`ValueError` from whichever call meets it first.

`_joinrealpath` is CPython 3.12's, string for string as far as it matters: a
path is the list of what stands between its slashes from the first one on, and
the rest of one the list of all that does, so `join` with a rest that begins
with a slash drops what came before, as in the original. It recurses once for
each link it is inside of, and `depth` is what is left of the interpreter's
recursion limit.

Paths are absolute here: a relative `watch_dir` is one under the working
directory. One that begins with exactly two slashes has a root of its own, for
`pathlib` and `normpath` though not for the kernel.
-/

namespace JetCore

open Lib

/-! ## Names -/

/-- One code point under `surrogateescape`. -/
def fsencodePoint (c : CodePoint) : Option Bytes :=
  if 0xDC80 ≤ c.val ∧ c.val < 0xDD00 then some [UInt8.ofNat (c.val - 0xDC00)]
  else if Text.isSurrogate c then none
  else some (Utf8.encodePoint c)

/-- `os.fsencode` -/
def fsencode (t : Text) : Option Bytes :=
  (t.mapM fsencodePoint).map List.flatten

/-- The character at the front, in its shortest form, or else the surrogate
that stands for the first byte. -/
def fsdecodePoint : Bytes → CodePoint × Bytes
  | [] => (0, [])
  | b :: rest =>
      match Utf8.step (b :: rest) with
      | some (c, rest') =>
          if fsencodePoint c = some (Utf8.encodePoint c) ∧
              Utf8.encodePoint c ++ rest' = b :: rest then (c, rest')
          else (⟨0xDC00 + b.toNat, by have := b.toNat_lt; omega⟩, rest)
      | none => (⟨0xDC00 + b.toNat, by have := b.toNat_lt; omega⟩, rest)

def fsdecodeFuel : ℕ → Bytes → Text
  | 0, _ => []
  | _ + 1, [] => []
  | n + 1, b :: rest =>
      (fsdecodePoint (b :: rest)).1 ::
        fsdecodeFuel n (fsdecodePoint (b :: rest)).2

/-- `os.fsdecode` -/
def fsdecode (b : Bytes) : Text := fsdecodeFuel b.length b

/-- What the kernel takes as the name of a node. -/
def ValidName (b : Bytes) : Prop :=
  b ≠ [] ∧ 0 ∉ b ∧ 0x2F ∉ b ∧ b ≠ [0x2E] ∧ b ≠ [0x2E, 0x2E]

instance (b : Bytes) : Decidable (ValidName b) :=
  inferInstanceAs (Decidable (_ ∧ _))

abbrev FileName := { b : Bytes // ValidName b }

def FileName.text (n : FileName) : Text := fsdecode n.val

/-- What a call on the filesystem makes of one component. -/
def encodeName (t : Text) : Except Exn FileName :=
  match fsencode t with
  | none => .error .unicodeEncodeError
  | some b => if h : ValidName b then .ok ⟨b, h⟩ else .error .valueError

/-! ## `PosixPath` -/

def slash : CodePoint := Text.ofChar '/'

def dotText : Text := Text.ofString "."

def dotdotText : Text := Text.ofString ".."

/-- `t.split("/")` -/
def splitSlash : Text → List Text
  | [] => [[]]
  | c :: rest =>
      match splitSlash rest with
      | [] => [[c]]
      | word :: words =>
          if c = slash then [] :: word :: words else (c :: word) :: words

/-- The components `PurePosixPath` keeps of a text. -/
def pathParts (t : Text) : List Text :=
  (splitSlash t).filter fun name => name ≠ [] ∧ name ≠ dotText

/-- `PurePosixPath(t).is_absolute()` -/
def isAbsolute (t : Text) : Bool := t.head? = some slash

/-- What an absolute path begins with: one slash, or two and no third. -/
inductive Root where
  | slash
  | slashes
  deriving DecidableEq

/-- An absolute path. -/
structure PosixPath where
  root : Root
  parts : List Text
  deriving DecidableEq

/-- The components as a call encodes them. -/
def encodeParts (parts : List Text) : Except Exn (List FileName) :=
  parts.mapM encodeName

namespace PosixPath

variable (p : PosixPath)

/-- `self / t`, where `t` is not absolute. -/
def join (t : Text) : PosixPath := { p with parts := p.parts ++ pathParts t }

def parent : PosixPath := { p with parts := p.parts.dropLast }

/-- From the nearest on. -/
def parents : List PosixPath :=
  (List.range p.parts.length).reverse.map fun n =>
    { p with parts := p.parts.take n }

/-- The last component, empty for the root. -/
def name : Text := p.parts.getLast?.getD []

/-- The path of a call, to which one root is as good as the other. -/
def encode : Except Exn (List FileName) := encodeParts p.parts

/-- The other path is this one, or among its parents. -/
abbrev IsRelativeTo (other : PosixPath) : Prop :=
  p.root = other.root ∧ other.parts <+: p.parts

end PosixPath

/-! ## `os.path.realpath` -/

def Comp.text : Comp FileName → Text
  | .empty => []
  | .dot => dotText
  | .dotdot => dotdotText
  | .name n => n.text

/-- What `os.lstat` says of a path that is a link, `os.readlink` included. -/
def readLink (fs : Fs FileName) (path : List Text) :
    Except Exn (Option (LinkTarget FileName)) := do
  let path ← encodeParts path
  match fs.lstat path with
  | .ok (.link target) => .ok (some target)
  | _ => .ok none

/-- The links met, each with what it was resolved to, or with `None` while it
is being resolved. -/
abbrev Seen := Dict (List Text) (Option (List Text))

/-- What `_joinrealpath` returns. When it stopped at a loop, `path` has
components of any form, empty ones too. -/
structure Joined where
  path : List Text
  ok : Bool
  seen : Seen

/-- `join(path, rest)`, which adds no slash to one that is there. -/
def joinRest (path rest : List Text) : List Text :=
  let path := if path.getLast? = some [] then path.dropLast else path
  match rest with
  | [] => path ++ [[]]
  | [] :: name :: names => name :: names
  | rest => path ++ rest

/-- The loop of `_joinrealpath`. What it does at a link it has not seen is the
argument. -/
def joinLoop (fs : Fs FileName)
    (follow : List Text → LinkTarget FileName → Seen → Except Exn Joined) :
    List Text → List Text → Seen → Except Exn Joined
  | path, [], seen => .ok ⟨path, true, seen⟩
  | path, name :: rest, seen =>
      if name = [] ∨ name = dotText then joinLoop fs follow path rest seen
      else if name = dotdotText then
        joinLoop fs follow path.dropLast rest seen
      else do
        let newpath := path ++ [name]
        match ← readLink fs newpath with
        | none => joinLoop fs follow newpath rest seen
        | some target =>
            match seen.get? newpath with
            | some (some path) => joinLoop fs follow path rest seen
            | some none => .ok ⟨joinRest newpath rest, false, seen⟩
            | none => do
                let joined ← follow path target (seen.set newpath none)
                if joined.ok then
                  joinLoop fs follow joined.path rest
                    (joined.seen.set newpath (some joined.path))
                else .ok ⟨joinRest joined.path rest, false, joined.seen⟩

/-- `_joinrealpath`, not strict, so deep at most. -/
def joinrealpath (fs : Fs FileName) :
    ℕ → List Text → List Text → Seen → Except Exn Joined
  | 0 => fun _ _ _ => .error .recursionError
  | depth + 1 => joinLoop fs fun path target =>
      joinrealpath fs depth (if target.absolute then [] else path)
        (target.comps.map Comp.text)

/-- The components `os.path.normpath` leaves of an absolute path, from what is
before it on. -/
def normFrom : List Text → List Text → List Text
  | done, [] => done
  | done, name :: rest =>
      if name = [] ∨ name = dotText then normFrom done rest
      else if name = dotdotText then normFrom done.dropLast rest
      else normFrom (done ++ [name]) rest

/-- Three slashes are as good as one. -/
def normRoot : List Text → Root
  | [] :: [] :: _ :: _ => .slash
  | [] :: _ :: _ => .slashes
  | _ => .slash

/-- `os.path.normpath` -/
def normpath (path : List Text) : PosixPath := ⟨normRoot path, normFrom [] path⟩

def realpath (fs : Fs FileName) (depth : ℕ) (path : List Text) :
    Except Exn PosixPath := do
  let joined ← joinrealpath fs depth [] path Dict.empty
  return normpath joined.path

namespace PosixPath

variable (fs : Fs FileName)

/-- `os.stat` -/
def stat (p : PosixPath) : Except Exn (Node FileName) := do
  let path ← p.encode
  (fs.stat path).mapError .osError

/-- `resolve()`, not strict. -/
def resolve (depth : ℕ) (p : PosixPath) : Except Exn PosixPath := do
  let resolved ← realpath fs depth p.parts
  match resolved.stat fs with
  | .error (.osError .eloop) => .error .symlinkLoop
  | .error (.osError _) => .ok resolved
  | .error e => .error e
  | .ok _ => .ok resolved

/-- The `OSError`s that `exists`, `is_file` and `is_dir` answer `False` on. -/
def ignoresError : Errno → Bool
  | .enoent | .enotdir | .eloop => true
  | _ => false

/-- What the three have in common. -/
def test (holds : Node FileName → Bool) (p : PosixPath) : Except Exn Bool :=
  match p.stat fs with
  | .ok node => .ok (holds node)
  | .error (.osError errno) =>
      if ignoresError errno then .ok false else .error (.osError errno)
  | .error _ => .ok false

def exists? (p : PosixPath) : Except Exn Bool := p.test fs fun _ => true

def isFile (p : PosixPath) : Except Exn Bool :=
  p.test fs fun
    | .file _ => true
    | _ => false

def isDir (p : PosixPath) : Except Exn Bool :=
  p.test fs fun
    | .dir => true
    | _ => false

end PosixPath

/-! ## `mkdir(parents=True, exist_ok=True)` -/

/-- `os.mkdir`, the locations made collected. -/
def osMkdir (path : List FileName) (fs : Fs FileName) :
    Except Errno Unit × List (List FileName) × Fs FileName :=
  match fs.mkdir path with
  | .ok (loc, fs) => (.ok (), [loc], fs)
  | .error e => (.error e, [], fs)

/-- The last clause: an error stands unless there is a directory. -/
def unlessDir (path : List FileName) (fs : Fs FileName) (e : Errno) :
    Except Errno Unit :=
  match fs.stat path with
  | .ok .dir => .ok ()
  | .error .other => .error .other
  | _ => .error e

/-- The path is given from its last component up. -/
def mkdirsUp : List FileName → Fs FileName →
    Except Errno Unit × List (List FileName) × Fs FileName
  | [], fs => (unlessDir [] fs .eexist, [], fs)
  | n :: up, fs =>
      match osMkdir (n :: up).reverse fs with
      | (.error .enoent, _) =>
          match mkdirsUp up fs with
          | (.error e, made, fs) => (.error e, made, fs)
          | (.ok (), made, fs) =>
              match osMkdir (n :: up).reverse fs with
              | (.error .enoent, _) => (.error .enoent, made, fs)
              | (.error e, _) => (unlessDir (n :: up).reverse fs e, made, fs)
              | (.ok (), made', fs) => (.ok (), made ++ made', fs)
      | (.error e, _) => (unlessDir (n :: up).reverse fs e, [], fs)
      | (.ok (), made, fs) => (.ok (), made, fs)

def mkdirs (path : List FileName) (fs : Fs FileName) :
    Except Errno Unit × List (List FileName) × Fs FileName :=
  mkdirsUp path.reverse fs

end JetCore
