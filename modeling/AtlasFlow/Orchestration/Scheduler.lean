import AtlasFlow.Persistence.RunRepository

/-!
# Moving runs and tasks

`Scheduler`: which transition happens, and the event that explains it. `projectId` is stamped on
every event.
-/

namespace AtlasFlow

open Concurrency

namespace Scheduler

/-! ## Events -/

/-- `Merge`: a key that is there keeps its place and gets the new value. -/
def merge (target extra : List (String × Json)) : List (String × Json) :=
  extra.foldl (fun members m =>
    if members.any fun old => old.1 = m.1 then
      members.map fun old => if old.1 = m.1 then m else old
    else members ++ [m]) target

variable (projectId : String)

/-- What both kinds of event share: a new id, the time, the project. -/
def event (runId : RunId) (type : EventType) (payload : List (String × Json)) :
    Program DomainEvent := do
  let id ← Prog.op .newEventId
  let timestamp ← Prog.op .utcNow
  return { id, timestamp, projectId, runId := some runId, type, payload := .obj payload }

/-- `RunEvent`. -/
def runEvent (run : Run) (type : EventType) (target : RunState) (extra : List (String × Json) := []) :
    Program DomainEvent :=
  event projectId run.id type <| merge
    [("run_id", .str run.id.value), ("goal_id", .str run.goalId.value),
      ("previous", .str run.state.name), ("next", .str target.name)] extra

/-- `TaskEvent`. -/
def taskEvent (task : RunTask) (type : EventType) (extra : List (String × Json) := []) :
    Program DomainEvent :=
  event projectId task.runId type <| merge
    [("task_id", .str task.id.value), ("objective", .str task.objective),
      ("previous", .str task.state.name)] extra

/-! ## Runs -/

/-- `TransitionAsync(run, target, RunEvent(run, type, target, extra))`. -/
def moveRun (run : Run) (target : RunState) (type : EventType) (extra : List (String × Json))
    (ct : CancellationToken) : Program Run := do
  let event ← runEvent projectId run type target extra
  RunRepository.transitionRun run target event ct

/-- `StartAsync`. -/
def startAsync (run : Run) (ct : CancellationToken) : Program Run :=
  moveRun projectId run .planning .runStarted [] ct

/-- `AdvanceAsync`. -/
def advanceAsync (run : Run) (target : RunState) (ct : CancellationToken) : Program Run :=
  let type : EventType :=
    match target with
    | .completed => .runCompleted
    | .failed => .runFailed
    | _ => .stateChange
  moveRun projectId run target type [] ct

/-- `ScheduleAsync`. -/
def scheduleAsync (run : Run) (tasks : List RunTask) (ct : CancellationToken) : Program Run := do
  Prog.forEach (fun task => do Prog.ofExcept (← Prog.op (.execute (.task task) ct))) tasks
  moveRun projectId run .ready .stateChange [("task_count", .num (toString tasks.length))] ct

/-! ## Tasks -/

/-- The state of a stored task, by id. -/
def stateOf (tasks : List RunTask) (id : TaskId) : Option TaskState :=
  (Table.lookup RunTask.id id tasks).map RunTask.state

/-- `ReadyTasks`. `ToDictionary` refuses a repeated id. -/
def readyTasks (tasks : List RunTask) : Except Exn (List RunTask) :=
  if (tasks.map RunTask.id).Nodup then
    .ok <| tasks.filter fun task =>
      task.state = .planned && task.dependencies.all fun id => stateOf tasks id = some .succeeded
  else .error (.argument "An item with the same key has already been added.")

/-- `TransitionAsync(task, target, TaskEvent(task, type, extra))`. -/
def moveTask (task : RunTask) (target : TaskState) (type : EventType) (extra : List (String × Json))
    (ct : CancellationToken) : Program RunTask := do
  let event ← taskEvent projectId task type extra
  RunRepository.transitionTask task target event ct

/-- `MarkReadyAsync`. -/
def markReadyAsync (task : RunTask) (ct : CancellationToken) : Program RunTask :=
  moveTask projectId task .ready .taskReady [] ct

/-- `StartTaskAsync`. -/
def startTaskAsync (task : RunTask) (ct : CancellationToken) : Program RunTask :=
  moveTask projectId task .running .stateChange [] ct

/-- `CompleteTaskAsync`. -/
def completeTaskAsync (task : RunTask) (ct : CancellationToken) : Program RunTask :=
  moveTask projectId task .succeeded .taskSucceeded [] ct

/-- `FailTaskAsync`. -/
def failTaskAsync (task : RunTask) (reason : String) (ct : CancellationToken) : Program RunTask :=
  moveTask projectId task .failed .taskFailed [("reason", .str reason)] ct

/-- `CancelTaskAsync`. -/
def cancelTaskAsync (task : RunTask) (reason : String) (ct : CancellationToken) :
    Program RunTask :=
  moveTask projectId task .cancelled .taskFailed [("reason", .str reason)] ct

/-- The states of a task that somebody could still finish. -/
def isOpen (state : TaskState) : Bool :=
  state = .planned || state = .blocked || state = .ready || state = .running

/-- `CancelRunAsync`. -/
def cancelRunAsync (run : Run) (reason : String) (ct : CancellationToken) : Program Run := do
  let tasks ← RunRepository.listTasksAsync run.id ct
  Prog.forEach (fun task => do
    if isOpen task.state then let _ ← cancelTaskAsync projectId task reason ct) tasks
  let current := (← RunRepository.findAsync run.id ct).getD run
  if current.state = .planning || current.state = .ready || current.state = .running then
    moveRun projectId current .cancelled .runFailed [("reason", .str reason)] ct
  else return current

/-- `EvaluateCompletionAsync`. -/
def evaluateCompletionAsync (run : Run) (ct : CancellationToken) : Program Bool := do
  let tasks ← RunRepository.listTasksAsync run.id ct
  if tasks.length = 0 then return false
  else if tasks.any fun task => task.state = .failed then
    let _ ← advanceAsync projectId run .failed ct
    return false
  else if tasks.any fun task => task.state = .cancelled then
    let _ ← advanceAsync projectId run .cancelled ct
    return false
  else if tasks.all fun task => task.state.isTerminal then
    let _ ← advanceAsync projectId run .verifying ct
    return true
  else return false

end Scheduler

end AtlasFlow
