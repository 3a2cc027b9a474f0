import JetCore.Lib.KeyedLog
import JetCore.Spec.FileCommands

/-!
# `watch_dir` as a store of contents

What the three handlers are for: a map from files to contents, which a write
sets, a delete clears and a read looks up. What has been done to it is the log
of the commands that completed, each under the location its path names; a
command completed if it published that it did.
-/

namespace JetCore

open Lib

/-- The content of the file at a location. -/
def contentAt (fs : Fs FileName) (loc : Location) : Option Bytes :=
  match fs.node? loc with
  | some (.file content) => some content
  | _ => none

/-- The location a request's path is found to lead to. -/
def locationOf (fs : Fs FileName) (depth : ℕ) (watchDir : PosixPath)
    (relative : Text) : Option Location :=
  match resolvedWithin fs depth watchDir relative with
  | .ok target => target.encode.toOption
  | .error _ => none

/-- What a completed command left of a file: a content, or nothing. -/
structure FileChange where
  loc : Location
  content : Option Bytes
  deriving DecidableEq

namespace FileCommand

variable (self : FileAdapter) (depth : ℕ) (c : FileCommand)

/-- What the handling of the command published. -/
def publishes (s : FileWorld) : List PublishArgs :=
  (c.run self depth s).published.drop s.published.length

/-- The content to be written, if it is a write. -/
def content : Option Bytes :=
  match c.kind with
  | .write => (decodeWriteRequested c.event.payload).toOption.map
      WriteRequest.content
  | .read | .delete => none

/-- A write or delete that completed, for the location its path named at
first. -/
def change? (fs : Fs FileName) (s : FileWorld) : Option FileChange :=
  if (c.publishes self depth s).any fun args =>
      args.eventType = "FileCreateCompleted" ∨
        args.eventType = "FileWriteCompleted" ∨
        args.eventType = "FileDeleteCompleted" then do
    let relative ← c.path.toOption
    let loc ← locationOf fs depth self.watchDir relative
    return ⟨loc, c.content⟩
  else none

end FileCommand

/-- Commands handled one after another. -/
def runAll (self : FileAdapter) (depth : ℕ) (cs : List FileCommand)
    (s : FileWorld) : FileWorld :=
  cs.foldl (fun s c => c.run self depth s) s

/-- The changes they completed, in order. -/
def changes (self : FileAdapter) (depth : ℕ) (fs : Fs FileName) :
    List FileCommand → FileWorld → List FileChange
  | [], _ => []
  | c :: rest, s =>
      (c.change? self depth fs s).toList ++
        changes self depth fs rest (c.run self depth s)

/-- What the log says of a file: what its last change left, or else its
content at first. -/
def latest (fs : Fs FileName) (log : List FileChange) (loc : Location) :
    Option Bytes :=
  (lastOn FileChange.loc loc log).elim (contentAt fs loc) FileChange.content

/-- A `FileReadCompleted` whose content decodes to these bytes and whose size
is theirs. -/
def ReadAnswer (args : PublishArgs) (payload : Json) (content : Bytes) :
    Prop :=
  args.eventType = "FileReadCompleted" ∧
  (do b64decodeValidated (← getItem payload "content")) = .ok content ∧
  getItem payload "sizeBytes" = .ok (.int content.length)

def NotFoundAnswer (args : PublishArgs) (payload : Json) : Prop :=
  args.eventType = "FileOperationFailed" ∧
  getItem payload "reason" = .ok (Json.string "not_found")

/-- The one answer to a read of `relative`: it has the content if there is one,
and otherwise it says that there is none. -/
def Answers (event : ReceivedEvent) (relative : Text)
    (content : Option Bytes) (published : List PublishArgs) : Prop :=
  ∃ args payload, published = [args] ∧
    args.correlationId = some event.details.eventId ∧
    args.payload = Json.dumps payload ∧
    getItem payload "path" = .ok (.str relative) ∧
    (∀ c, ReadAnswer args payload c ↔ content = some c) ∧
    (content = none → NotFoundAnswer args payload)

end JetCore
