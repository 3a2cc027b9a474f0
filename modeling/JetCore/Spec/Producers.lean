import JetCore.Lib.JsonGrammar
import JetCore.Ref.DbAdapter
import JetCore.Ref.HttpAdapter
import JetCore.Ref.OccurredAt
import JetCore.Ref.Schemas
import JetCore.Spec.Settling
import JetCore.Spec.WatchedDir

/-!
# What the adapters publish, and what its schema says

A result is anything published by the four file handlers, by the creation
watch, by the trigger handler of the HTTP adapter, or by the two halves of the
database adapter. Each is published under the subject of one schema file, and
should be a JSON text of a value that is valid there.
-/

namespace JetCore

open Lib

/-! ## Conformance -/

/-- The schema files of the results, by subject. -/
def resultSchemas : List (String × Schema) := [
  ("events.files.FileCreateCompleted", fileCompletedSchema),
  ("events.files.FileWriteCompleted", fileCompletedSchema),
  ("events.files.FileReadCompleted", fileReadCompletedSchema),
  ("events.files.FileListCompleted", fileListCompletedSchema),
  ("events.files.FileDeleteCompleted", fileDeleteCompletedSchema),
  ("events.files.FileOperationFailed", fileOperationFailedSchema),
  ("events.http.RequestCompleted", requestCompletedSchema),
  ("events.orders.OrderPersisted", orderPersistedSchema),
  ("events.db.orders.RowChanged", rowChangedSchema)]

/-- The payload is a JSON text, and writes the value. -/
def Says (payload : Bytes) (v : Json) : Prop :=
  ∃ t : Text, payload = t.flatMap Utf8.encodePoint ∧ Json.Writes t v

/-- The time that is told, if any, is in UTC. -/
def TellsUtc (v : Json) : Prop :=
  ∀ time, getItem v "occurredAt" = .ok time →
    ∃ s, time = Json.string (s ++ "Z")

def Conforms (args : PublishArgs) : Prop :=
  ∃ schema v, resultSchemas.lookup args.subject = some schema ∧
    Says args.payload v ∧ Schema.Validates schema v ∧ TellsUtc v

/-! ## The producers -/

/-- The calls of the trigger handler, where the request is answered so and the
state is what was published. -/
def HttpAct.answering (answer : Except Exn HttpResponse) :
    (a : HttpAct) → List PublishArgs → Except Exn a.Resp × List PublishArgs
  | .post _ _ _, published => (answer, published)
  | .publish args, published => (.ok (), published ++ [args])
  | .log _, published | .ack, published | .nak, published =>
      (.ok (), published)

/-- The same of the order handler, by what becomes of the transaction. -/
def DbAct.answering (upsert : Except Exn Unit) :
    (a : DbAct) → List PublishArgs → Except Exn a.Resp × List PublishArgs
  | .upsert _, published => (upsert, published)
  | .publish args, published => (.ok (), published ++ [args])
  | .log _, published | .ack, published | .nak, published =>
      (.ok (), published)

/-- A response as the client library delivers it. -/
structure DeliveredResponse where
  response : HttpResponse
  threeDigits : 100 ≤ response.statusCode ∧ response.statusCode ≤ 999

/-- What makes an adapter publish, and what it meets. -/
inductive Source where
  /-- A message at one of the file handlers. -/
  | file (handler : FileHandler) (adapter : FileAdapter)
      (event : ReceivedEvent) (faults : Faults) (depth : ℕ) (fs : Fs FileName)
  /-- A file the creation watch is settling, at one of the polls. -/
  | watch (adapter : FileAdapter) (path : PosixPath) (state : Settling)
      (fs : Fs FileName)
  | http (trigger : TriggerHandler) (event : ReceivedEvent)
      (answer : Except Exn DeliveredResponse)
  | order (event : ReceivedEvent) (upsert : Except Exn Unit)
  | binlog (control : CdcControl) (passes : List (List BinlogEvent))

def Source.published (now : UtcTime) : Source → List PublishArgs
  | .file handler adapter event faults depth fs =>
      ((handler.handle adapter now.iso event).exec
        (FileAct.performFaulty faults depth)
        ⟨{ fs := fs }, 0⟩).2.world.published
  | .watch adapter path state fs =>
      ((WatchedDir.start fs).poll adapter now.iso path state
        []).world.published
  | .http trigger event answer =>
      ((handleTrigger trigger now.iso event).exec (HttpAct.answering
        (answer.map DeliveredResponse.response)) []).2
  | .order event upsert =>
      ((handleOrderCreated now.iso event).exec (DbAct.answering upsert) []).2
  | .binlog control passes => (runStream control passes {}).2.published

/-- The status code that was answered is one that the schema knows. -/
def Source.InRange : Source → Prop
  | .http _ _ (.ok delivered) => delivered.response.statusCode ≤ 599
  | _ => True

end JetCore
