import JetCore.Lib.KeyedLog
import JetCore.Lib.Run
import JetCore.Ref.CreateWatch

/-!
# `watch_dir` with its writers and its watch

The write handler's deliveries, the creation watch and whoever else works in
`watch_dir`, over time. A step is one call of one delivery, which may raise
instead, one change the watch takes up, one poll of the file it is settling, or
something done from outside; between any two of them any time may pass. So a
write takes as long as it likes, and the watch stays with a file until that has
settled. What `awatch` yields is up to the outside too: any changes below
`watch_dir`, in any order, at any time.

The publish of a handled file is taken to go through.
-/

namespace JetCore

open Lib

/-- A path that was marked, and when. -/
structure Mark (R : Type) where
  path : PosixPath
  time : R
  deriving DecidableEq

/-- A file whose creation the watch took up: whether a command had made it, and
whether it was passed to `_handle_new_file`. -/
structure Checked where
  path : PosixPath
  byCommand : Bool
  passed : Bool
  deriving DecidableEq

/-- What `_handle_new_file` came to: a publish, or the file disappeared. -/
structure Handled where
  path : PosixPath
  report : Option PublishArgs
  deriving DecidableEq

structure WatchedDir where
  now : ℕ := 0
  world : FileWorld
  recent : RecentWrites ℕ ℕ := { ttl := defaultTtl }
  /-- What is left of each delivery of a `FileWriteRequested`. -/
  writers : List (FileProg Unit) := []
  watch : WatchPhase := .waiting
  marks : List (Mark ℕ) := []
  /-- Where the files are that an `open` of a delivery made. -/
  made : List Location := []
  checked : List Checked := []
  handled : List Handled := []

inductive WatchedAct where
  /-- Nanoseconds pass. -/
  | wait (d : ℕ)
  /-- Somebody else changes the tree. -/
  | outside (fs : Fs FileName)
  | deliver (occurredAt : String) (event : ReceivedEvent)
  /-- The next call of a delivery. -/
  | call (writer : ℕ)
  /-- The same, and it raises. -/
  | fail (writer : ℕ) (e : Exn)
  | batch (changes : List RawChange)
  /-- The watch goes on with its batch. -/
  | next
  | poll (occurredAt : String)

def isFileNode : Option (Node FileName) → Bool
  | some (.file _) => true
  | _ => false

/-- The location of the file a path leads to. -/
def fileAt (fs : Fs FileName) (p : PosixPath) : Option Location :=
  match p.encode with
  | .ok names => (fs.locate names).toOption
  | .error _ => none

/-- The file that a call has made. -/
def FileAct.makes (fs : Fs FileName) : (a : FileAct) → Except Exn a.Resp →
    List Location
  | .openWrite _, .ok loc => if fs.node? loc = none then [loc] else []
  | _, _ => []

namespace WatchedDir

variable (self : FileAdapter) (depth : ℕ) (s : WatchedDir)

/-- The file at the path was made by a command. -/
def byCommand (p : PosixPath) : Bool :=
  (fileAt s.world.fs p).elim false (· ∈ s.made)

/-- A delivery's call goes through. -/
def call (i : ℕ) : FileProg Unit → Option WatchedDir
  | .call a k =>
      let (r, world) := a.perform depth s.world
      let s := { s with
        world := world
        writers := s.writers.set i (k r)
        made := s.made ++ a.makes s.world.fs r }
      match a with
      | .mark p => some { s with
          recent := s.recent.mark s.now p, marks := s.marks ++ [⟨p, s.now⟩] }
      | _ => some s
  | _ => none

def fail (i : ℕ) (e : Exn) : FileProg Unit → Option WatchedDir
  | .call _ k => some { s with writers := s.writers.set i (k (.error e)) }
  | _ => none

/-- `run_forever` from one change of the batch to the next. -/
def take (c : RawChange) (rest : List RawChange) : WatchedDir :=
  match takeChange s.world.fs s.recent s.now c with
  | (.ignored, recent) =>
      { s with recent := recent, watch := .taking rest }
  | (.raised, recent) => { s with recent := recent, watch := .raised none }
  | (.recent, recent) => { s with
      recent := recent, watch := .taking rest
      checked := s.checked ++ [⟨c.path, s.byCommand c.path, false⟩] }
  | (.passed, recent) => { s with
      recent := recent
      watch := .settling c.path {} (s.now + settlePollInterval) rest
      checked := s.checked ++ [⟨c.path, s.byCommand c.path, true⟩] }

/-- `_handle_new_file` from one poll to the next, or to its end. -/
def poll (occurredAt : String) (p : PosixPath) (state : Settling)
    (rest : List RawChange) : WatchedDir :=
  match pollFile s.world.fs p state with
  | .again state => { s with
      watch := .settling p state (s.now + settlePollInterval) rest }
  | .raised => { s with watch := .raised (some p) }
  | .disappeared => { s with
      watch := .taking rest, handled := s.handled ++ [⟨p, none⟩] }
  | .settled size =>
      match p.relativeTo self.watchDir with
      | .error _ => { s with watch := .raised (some p) }
      | .ok relative =>
          let args := createCompleted relative size occurredAt
          { s with
            world := { s.world with published := s.world.published ++ [args] }
            watch := .taking rest
            handled := s.handled ++ [⟨p, some args⟩] }

def step : WatchedAct → Option WatchedDir
  | .wait d => some { s with now := s.now + d }
  | .outside fs => some { s with
      world := { s.world with fs := fs }
      made := s.made.filter fun loc => isFileNode (fs.node? loc) }
  | .deliver occurredAt event => some { s with
      writers := s.writers ++ [handleWrite self occurredAt event] }
  | .call i => s.writers[i]?.bind (s.call depth i)
  | .fail i e => s.writers[i]?.bind (s.fail i e)
  | .batch changes =>
      match s.watch with
      | .waiting =>
          if ∀ c ∈ changes, c.path.IsRelativeTo self.watchDir then
            some { s with watch := .taking changes }
          else none
      | _ => none
  | .next =>
      match s.watch with
      | .taking [] => some { s with watch := .waiting }
      | .taking (c :: rest) => some (s.take c rest)
      | _ => none
  | .poll occurredAt =>
      match s.watch with
      | .settling p state wakeAt rest =>
          if wakeAt ≤ s.now then some (s.poll self occurredAt p state rest)
          else none
      | _ => none

/-- Before anything was asked for. -/
def start (fs : Fs FileName) : WatchedDir where
  world := { fs := fs }

/-! ## When the watch takes a file up -/

/-- In this step the watch takes up that the file at `p` was created. -/
def TakesUp (a : WatchedAct) (p : PosixPath) : Prop :=
  a = .next ∧ ∃ rest, s.watch = .taking (⟨.added, p⟩ :: rest) ∧
    p.isFile s.world.fs = .ok true

/-- The path was marked last so long ago at most. -/
def MarkedInTime (p : PosixPath) : Prop :=
  ∃ mark, lastOn Mark.path p s.marks = some mark ∧
    s.now ≤ mark.time + s.recent.ttl

/-- A file that a command made is taken up when a write of this path has ended
and been marked, and in time. -/
def OwnMarked (s : WatchedDir) (a : WatchedAct) : Prop :=
  ∀ p, s.TakesUp a p → s.byCommand p = true → s.MarkedInTime p

/-- A file that no command made is taken up when no write of this path has
been marked, or too long ago. -/
def OthersUnmarked (s : WatchedDir) (a : WatchedAct) : Prop :=
  ∀ p, s.TakesUp a p → s.byCommand p = false → ¬ s.MarkedInTime p

/-! ## What should come of it -/

/-- No file that a command made is passed to `_handle_new_file`. -/
def OwnUnreported : Prop :=
  ∀ k ∈ s.checked, k.byCommand = true → k.passed = false

/-- What a report says: a `FileCreateCompleted` that answers nothing. -/
def Reports (p : PosixPath) (args : PublishArgs) : Prop :=
  ∃ relative size occurredAt, p.relativeTo self.watchDir = .ok relative ∧
    args = createCompleted relative size occurredAt ∧
    args.correlationId = none

/-- Every file that no command made is passed to `_handle_new_file`, and every
file that is passed there is reported, unless it disappeared or is the one
being settled. -/
structure OthersReported (adapter : FileAdapter) (s : WatchedDir) : Prop where
  passed : ∀ k ∈ s.checked, k.byCommand = false → k.passed = true
  handled : (s.checked.filter Checked.passed).map Checked.path =
    s.handled.map Handled.path ++ s.watch.path?.toList
  reported : ∀ h ∈ s.handled, ∀ args, h.report = some args →
    Reports adapter h.path args ∧ args ∈ s.world.published

/-- The file at `p` was reported with the size `n`. -/
def ReportedWith (p : PosixPath) (n : ℕ) (s : WatchedDir) : Prop :=
  ∃ h ∈ s.handled, h.path = p ∧ ∃ relative occurredAt,
    p.relativeTo self.watchDir = .ok relative ∧
      h.report = some (createCompleted relative n occurredAt)

/-- Whenever the file at `p` is polled it is there and has the size `n`. -/
def FindsSize (p : PosixPath) (n : ℕ) (s : WatchedDir) (a : WatchedAct) :
    Prop :=
  ∀ occurredAt, a = .poll occurredAt → s.watch.path? = some p →
    ∃ node, p.stat s.world.fs = .ok node ∧ Node.size node = n

end WatchedDir

/-- The act is a poll. -/
def WatchedAct.polls : WatchedAct → Bool
  | .poll _ => true
  | _ => false

end JetCore
