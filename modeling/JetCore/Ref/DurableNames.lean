import JetCore.Ref.ClientTasks

/-!
# The entrypoints that have a handler for each subject

The webhook sender and the HTTP adapter take their subjects from
`JETCORE_SUBJECTS`. `run` starts a handler for each, under a durable name that
it makes of the service id and the subject, and a loop that fetches under that
name for as long as the process runs. To JetStream a durable name is one
cursor, whoever fetches under it.
-/

namespace JetCore

inductive SubjectAdapter where
  | webhookSender
  | httpAdapter
  deriving DecidableEq

/-- `subject.replace('.', '_')` -/
def undotted (subject : String) : String :=
  subject.map fun c => if c = '.' then '_' else c

/-- What stands between the two parts of a durable name. -/
def SubjectAdapter.between : SubjectAdapter → String
  | .webhookSender => "-relay-"
  | .httpAdapter => "-trigger-"

/-- `f"{service_id}-relay-{subject.replace('.', '_')}"`, and with `trigger`
for the HTTP adapter. -/
def SubjectAdapter.durableName (a : SubjectAdapter)
    (serviceId subject : String) : String :=
  serviceId ++ a.between ++ undotted subject

/-- A subject of the configuration, with what becomes of the two awaits of its
subscription. -/
structure ConfiguredSubject where
  subject : String
  registered : Except Exn Unit
  pulled : Except Exn Unit
  deriving DecidableEq

/-- A task that runs the handler of the subject under the durable name. -/
structure HandlerLoop where
  subject : String
  durableName : String
  deriving DecidableEq

/-- `handler.start` -/
def ConfiguredSubject.start (c : ConfiguredSubject) (durableName : String) :
    SubscribeCall :=
  ⟨c.subject, some durableName, c.registered, c.pulled⟩

/-- `run`, up to the `gather`: the loops it has started by then. -/
def SubjectAdapter.run (a : SubjectAdapter) (serviceId : String) :
    List ConfiguredSubject → ClientState →
      Except Exn (List HandlerLoop) × ClientState
  | [], client => (.ok [], client)
  | c :: rest, client =>
      let durableName := a.durableName serviceId c.subject
      match client.subscribe (c.start durableName) with
      | (.error e, client) => (.error e, client)
      | (.ok _, client) =>
          match a.run serviceId rest client with
          | (.error e, client) => (.error e, client)
          | (.ok loops, client) => (.ok (⟨c.subject, durableName⟩ :: loops), client)

end JetCore
