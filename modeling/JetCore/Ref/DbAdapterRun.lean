import JetCore.Lib.Run

/-!
# `__main__.py` of the database adapter: `run`, from its `gather` on

Three tasks and a worker thread. `gather` hands the first exception of a task
on and leaves the other tasks alone, so these go on while `run` disposes of
its engine and after it has ended. The thread polls the binlog as long as it
finds its flag not set, and the flag is set by `_bridge_shutdown`, which waits
for the shutdown event. Before the `try` there is no watcher and no thread.
-/

namespace JetCore

/-- What `run` gathers. -/
inductive Gathered where
  | writeLoop
  | watcher
  | bridge
  deriving DecidableEq

inductive Progress where
  | running
  | finished
  | raised
  deriving DecidableEq

/-- `_run_stream` in its thread. -/
inductive CdcThread where
  | idle
  | polling
  | returned
  | raised
  deriving DecidableEq

inductive RunPhase where
  /-- In `await asyncio.gather(..)`. -/
  | gathering
  /-- In `await engine.dispose()`. -/
  | disposing
  /-- `run` has returned or raised. -/
  | ended
  deriving DecidableEq

structure AdapterRun where
  phase : RunPhase := .gathering
  /-- The entrypoint's `asyncio.Event`. -/
  shutdown : Bool := false
  tasks : Gathered → Progress := fun _ => .running
  thread : CdcThread := .idle
  /-- The watcher's `threading.Event`. -/
  flag : Bool := false

inductive AdapterAct where
  /-- A signal sets the shutdown event. -/
  | requestShutdown
  /-- `while not shutdown.is_set()` comes to its end. -/
  | writeLoopFinishes
  /-- `to_thread` starts the thread. -/
  | threadStarts
  /-- The thread finds its flag not set and polls once more. -/
  | threadPolls
  /-- The thread finds its flag set. -/
  | threadReturns
  | threadRaises
  | watcherFinishes
  /-- `_bridge_shutdown` resumes, and calls `request_shutdown`. -/
  | bridgeFinishes
  /-- An await of the task raises. -/
  | raises (task : Gathered)
  | gatherResumes
  /-- `dispose` returns or raises, and `run` with it. -/
  | disposed

namespace AdapterRun

def setTask (s : AdapterRun) (task : Gathered) (p : Progress) : AdapterRun :=
  { s with tasks := fun t => if t = task then p else s.tasks t }

/-- `gather` has its result, or an exception. -/
def gathered (s : AdapterRun) : Bool :=
  let ps := [Gathered.writeLoop, .watcher, .bridge].map s.tasks
  ps.any (· == .raised) || ps.all (· == .finished)

/-- The step an act takes, if the code is at a point where it can. -/
def stepIf (enabled : Bool) (s : AdapterRun) : Option AdapterRun :=
  if enabled then some s else none

def step (s : AdapterRun) : AdapterAct → Option AdapterRun
  | .requestShutdown => some { s with shutdown := true }
  | .writeLoopFinishes =>
      stepIf (s.tasks .writeLoop == .running && s.shutdown)
        (s.setTask .writeLoop .finished)
  | .threadStarts =>
      stepIf (s.tasks .watcher == .running && s.thread == .idle)
        { s with thread := .polling }
  | .threadPolls => stepIf (s.thread == .polling && !s.flag) s
  | .threadReturns =>
      stepIf (s.thread == .polling && s.flag) { s with thread := .returned }
  | .threadRaises =>
      stepIf (s.thread == .polling) { s with thread := .raised }
  | .watcherFinishes =>
      stepIf (s.tasks .watcher == .running && s.thread == .returned)
        (s.setTask .watcher .finished)
  | .bridgeFinishes =>
      stepIf (s.tasks .bridge == .running && s.shutdown)
        { s.setTask .bridge .finished with flag := true }
  | .raises task =>
      stepIf (s.tasks task == .running) (s.setTask task .raised)
  | .gatherResumes =>
      stepIf (s.phase == .gathering && s.gathered)
        { s with phase := .disposing }
  | .disposed => stepIf (s.phase == .disposing) { s with phase := .ended }

end AdapterRun

end JetCore
