import JetCore.Lib.Prog
import JetCore.Ref.BusClient
import JetCore.Ref.Paths
import Mathlib.Data.List.Sort

/-!
# The command handlers of the file storage adapter, and `payloads.py`

Each `_handle` is a program over the calls it makes: the calls of `pathlib` and
`aiofiles`, the publish, the ack or nak. What a call does is left to the world
the program is run in, and any of them may raise there.

`write` is the write up to and with the close of the file. The text of the time
that goes into a payload is an argument.
-/

namespace JetCore

open Lib

/-! ## Payloads -/

structure WriteRequest where
  path : Text
  content : Bytes
  deriving DecidableEq

/-- `base64.b64decode(value, validate=True)` -/
def b64decodeValidated : Json → Except Exn Bytes
  | .str t =>
      match Text.toString? t with
      | none => .error .valueError
      | some s =>
          match Base64.decodeValidated s with
          | .ok b => .ok b
          | .error .notAscii => .error .valueError
          | .error .malformed => .error .binasciiError
  | _ => .error .typeError

/-- `isinstance(path, str)`, and not empty unless that is allowed. -/
def checkedPath (allowEmptyPath : Bool) (notString empty : PayloadFault) :
    Json → Except Exn Text
  | .str [] =>
      if allowEmptyPath then .ok [] else .error (.malformedPayloadError empty)
  | .str t => .ok t
  | _ => .error (.malformedPayloadError notString)

/-- The `except` clause of `decode_write_requested`, which names `ValueError`
too. -/
def unreadableWrite : Exn → Exn
  | .jsonDecodeError | .keyError | .typeError | .valueError
  | .unicodeDecodeError | .binasciiError => .malformedPayloadError .unreadable
  | e => e

def readWriteRequested (raw : Bytes) : Except Exn (Json × Bytes) := do
  let data ← jsonLoads raw
  let path ← getItem data "path"
  let content ← b64decodeValidated (← getItem data "content")
  return (path, content)

def decodeWriteRequested (raw : Bytes) : Except Exn WriteRequest := do
  let (path, content) ← (readWriteRequested raw).mapError unreadableWrite
  let path ← checkedPath false .path .path path
  return ⟨path, content⟩

/-- The path of a `PathOnlyRequest`. -/
def decodePathOnlyRequest (allowEmptyPath : Bool) (raw : Bytes) :
    Except Exn Text := do
  let path ← (do getItem (← jsonLoads raw) "path").mapError unreadable
  checkedPath allowEmptyPath .pathNotString .pathEmpty path

/-- `encode_create_completed` and `encode_write_completed` -/
def encodeCompleted (path : Text) (sizeBytes : ℕ) (occurredAt : String) :
    Bytes :=
  Json.dumps (Json.object [
    ("path", .str path),
    ("sizeBytes", .int sizeBytes),
    ("occurredAt", Json.string occurredAt)])

def encodeReadCompleted (path : Text) (content : Bytes) (occurredAt : String) :
    Bytes :=
  Json.dumps (Json.object [
    ("path", .str path),
    ("content", Json.string (Base64.encode content)),
    ("sizeBytes", .int content.length),
    ("occurredAt", Json.string occurredAt)])

structure FileEntry where
  name : Text
  isDirectory : Bool
  sizeBytes : ℕ
  deriving DecidableEq

def FileEntry.toJson (e : FileEntry) : Json :=
  Json.object [
    ("name", .str e.name),
    ("isDirectory", .bool e.isDirectory),
    ("sizeBytes", .int e.sizeBytes)]

def encodeListCompleted (path : Text) (entries : List FileEntry)
    (occurredAt : String) : Bytes :=
  Json.dumps (Json.object [
    ("path", .str path),
    ("entries", .arr (entries.map FileEntry.toJson)),
    ("occurredAt", Json.string occurredAt)])

def encodeDeleteCompleted (path : Text) (occurredAt : String) : Bytes :=
  Json.dumps (Json.object [
    ("path", .str path),
    ("occurredAt", Json.string occurredAt)])

def encodeOperationFailed (path : Text) (operation reason : String)
    (occurredAt : String) : Bytes :=
  Json.dumps (Json.object [
    ("path", .str path),
    ("operation", Json.string operation),
    ("reason", Json.string reason),
    ("occurredAt", Json.string occurredAt)])

/-! ## Calls -/

inductive FileLogLine where
  /-- "malformed {event type} payload for event {id} — acking, not retrying" -/
  | malformed (eventType eventId : String)
  /-- "rejected {event type} for event {id}: path {path!r} escapes watch_dir —
  acking, not retrying" -/
  | escapes (eventType eventId : String) (path : Text)
  /-- "I/O error {doing} {target} for event {id} — leaving unacked for
  redelivery" -/
  | ioError (doing : String) (target : PosixPath) (eventId : String)
  deriving DecidableEq

inductive FileAct where
  | resolve (path : PosixPath)
  | exists (path : PosixPath)
  | isFile (path : PosixPath)
  | isDir (path : PosixPath)
  | iterdir (path : PosixPath)
  | size (path : PosixPath)
  /-- With `parents=True, exist_ok=True`. -/
  | mkdir (path : PosixPath)
  /-- With mode `"wb"`; answers the file that is open. -/
  | openWrite (path : PosixPath)
  | write (file : List FileName) (content : Bytes)
  | read (path : PosixPath)
  | unlink (path : PosixPath)
  /-- `recent_writes.mark` -/
  | mark (path : PosixPath)
  | log (line : FileLogLine)
  | publish (args : PublishArgs)
  | ack
  | nak

abbrev FileAct.Resp : FileAct → Type
  | .resolve _ => PosixPath
  | .exists _ | .isFile _ | .isDir _ => Bool
  | .iterdir _ => List PosixPath
  | .size _ => ℕ
  | .openWrite _ => List FileName
  | .read _ => Bytes
  | _ => Unit

abbrev FileProg := Prog FileAct FileAct.Resp Exn

def FileAct.call (a : FileAct) : FileProg a.Resp := Prog.act a

/-! ## `resolve_within` -/

def resolveWithin (root : PosixPath) (relative : Text) :
    FileProg PosixPath := do
  if isAbsolute relative then
    Prog.raise (.pathTraversalError relative)
  else
    let rootResolved ← FileAct.call (.resolve root)
    let candidate ← FileAct.call (.resolve (rootResolved.join relative))
    if candidate ≠ rootResolved ∧ rootResolved ∉ candidate.parents then
      Prog.raise (.pathTraversalError relative)
    else
      return candidate

/-! ## Handlers -/

def Exn.isMalformedPayload : Exn → Bool
  | .malformedPayloadError _ => true
  | _ => false

def Exn.isPathTraversal : Exn → Bool
  | .pathTraversalError _ => true
  | _ => false

def Exn.isOSError : Exn → Bool
  | .osError _ => true
  | _ => false

/-- What the four handlers begin with: a malformed payload and a path that
leaves `watch_dir` are acked, anything else that is raised is let through. -/
def withTarget {α : Type} (watchDir : PosixPath) (eventType : String)
    (event : ReceivedEvent) (decoded : Except Exn α) (path : α → Text)
    (body : α → PosixPath → FileProg Unit) : FileProg Unit :=
  match decoded with
  | .error e =>
      if e.isMalformedPayload then do
        FileAct.call (.log (.malformed eventType event.details.eventId))
        FileAct.call .ack
      else Prog.raise e
  | .ok request => do
      match ← (resolveWithin watchDir (path request)).attempt with
      | .error e =>
          if e.isPathTraversal then do
            FileAct.call (.log (.escapes eventType event.details.eventId
              (path request)))
            FileAct.call .ack
          else Prog.raise e
      | .ok target => body request target

/-- `try: x; except OSError: log, nak and return`, and the code after it. -/
def orNak {α : Type} (doing : String) (target : PosixPath)
    (event : ReceivedEvent) (x : FileProg α) (rest : α → FileProg Unit) :
    FileProg Unit := do
  match ← x.attempt with
  | .error e =>
      if e.isOSError then do
        FileAct.call (.log (.ioError doing target event.details.eventId))
        FileAct.call .nak
      else Prog.raise e
  | .ok a => rest a

/-- A publish correlated to the event, and the ack. -/
def publishAndAck (event : ReceivedEvent) (subject eventType : String)
    (payload : Bytes) : FileProg Unit := do
  FileAct.call (.publish {
    subject := subject
    payload := payload
    eventType := eventType
    correlationId := some event.details.eventId })
  FileAct.call .ack

def operationFailed (event : ReceivedEvent) (path : Text)
    (operation reason : String) (occurredAt : String) : FileProg Unit :=
  publishAndAck event "events.files.FileOperationFailed" "FileOperationFailed"
    (encodeOperationFailed path operation reason occurredAt)

/-- What a handler is constructed with. -/
structure FileAdapter where
  watchDir : PosixPath
  /-- `recent_writes is not None` -/
  recentWrites : Bool := true

/-- `mkdir`, `open` and the write. -/
def writeFile (target : PosixPath) (content : Bytes) : FileProg Unit := do
  FileAct.call (.mkdir target.parent)
  let file ← FileAct.call (.openWrite target)
  FileAct.call (.write file content)

/-- `if recent_writes is not None: recent_writes.mark(target)` -/
def markRecent (self : FileAdapter) (target : PosixPath) : FileProg Unit :=
  if self.recentWrites then FileAct.call (.mark target) else pure ()

/-- The rest of `_handle`, once the target is known. -/
def writeTarget (self : FileAdapter) (occurredAt : String)
    (event : ReceivedEvent) (request : WriteRequest) (target : PosixPath) :
    FileProg Unit := do
  let existedBefore ← FileAct.call (.exists target)
  orNak "writing" target event (writeFile target request.content) fun _ => do
    markRecent self target
    if existedBefore then
      publishAndAck event "events.files.FileWriteCompleted"
        "FileWriteCompleted"
        (encodeCompleted request.path request.content.length occurredAt)
    else
      publishAndAck event "events.files.FileCreateCompleted"
        "FileCreateCompleted"
        (encodeCompleted request.path request.content.length occurredAt)

/-- `WriteCommandHandler._handle` -/
def handleWrite (self : FileAdapter) (occurredAt : String)
    (event : ReceivedEvent) : FileProg Unit :=
  withTarget self.watchDir "FileWriteRequested" event
    (decodeWriteRequested event.payload) WriteRequest.path
    (writeTarget self occurredAt event)

def readTarget (occurredAt : String) (event : ReceivedEvent) (path : Text)
    (target : PosixPath) : FileProg Unit := do
  if !(← FileAct.call (.isFile target)) then
    operationFailed event path "read" "not_found" occurredAt
  else
    orNak "reading" target event (FileAct.call (.read target)) fun content =>
      publishAndAck event "events.files.FileReadCompleted"
        "FileReadCompleted" (encodeReadCompleted path content occurredAt)

/-- `ReadCommandHandler._handle` -/
def handleRead (self : FileAdapter) (occurredAt : String)
    (event : ReceivedEvent) : FileProg Unit :=
  withTarget self.watchDir "FileReadRequested" event
    (decodePathOnlyRequest false event.payload) id
    (readTarget occurredAt event)

def deleteTarget (occurredAt : String) (event : ReceivedEvent) (path : Text)
    (target : PosixPath) : FileProg Unit := do
  if !(← FileAct.call (.isFile target)) then
    operationFailed event path "delete" "not_found" occurredAt
  else
    orNak "deleting" target event (FileAct.call (.unlink target)) fun _ =>
      publishAndAck event "events.files.FileDeleteCompleted"
        "FileDeleteCompleted" (encodeDeleteCompleted path occurredAt)

/-- `DeleteCommandHandler._handle` -/
def handleDelete (self : FileAdapter) (occurredAt : String)
    (event : ReceivedEvent) : FileProg Unit :=
  withTarget self.watchDir "FileDeleteRequested" event
    (decodePathOnlyRequest false event.payload) id
    (deleteTarget occurredAt event)

/-- `sorted`, which compares paths of one root part by part. -/
def sortedPaths (paths : List PosixPath) : List PosixPath :=
  paths.insertionSort fun p q => ¬ q.parts < p.parts

/-- `0 if child.is_dir() else child.stat().st_size` -/
def entrySize (child : PosixPath) : FileProg ℕ := do
  if ← FileAct.call (.isDir child) then return 0
  else FileAct.call (.size child)

def listEntry (child : PosixPath) : FileProg FileEntry := do
  let isDirectory ← FileAct.call (.isDir child)
  let sizeBytes ← entrySize child
  return ⟨child.name, isDirectory, sizeBytes⟩

def listEntries (target : PosixPath) : FileProg (List FileEntry) := do
  let children ← FileAct.call (.iterdir target)
  Prog.each listEntry (sortedPaths children)

def listTarget (occurredAt : String) (event : ReceivedEvent) (path : Text)
    (target : PosixPath) : FileProg Unit := do
  if !(← FileAct.call (.exists target)) then
    operationFailed event path "list" "not_found" occurredAt
  else if !(← FileAct.call (.isDir target)) then
    operationFailed event path "list" "not_a_directory" occurredAt
  else
    orNak "listing" target event (listEntries target) fun entries =>
      publishAndAck event "events.files.FileListCompleted"
        "FileListCompleted" (encodeListCompleted path entries occurredAt)

/-- `ListCommandHandler._handle` -/
def handleList (self : FileAdapter) (occurredAt : String)
    (event : ReceivedEvent) : FileProg Unit :=
  withTarget self.watchDir "FileListRequested" event
    (decodePathOnlyRequest true event.payload) id
    (listTarget occurredAt event)

end JetCore
