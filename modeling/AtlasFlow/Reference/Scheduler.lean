import AtlasFlow.Reference.Operations

/-!
# Moving runs, tasks and attempts

`Persistence.record_*_transition`, `Scheduler` and `Harness.execute`. The lock of `schedule_tasks` is
left out: nothing else takes it.
-/

namespace AtlasFlow.Reference

open Concurrency
open SqlValues (text)

/-! ## Transitions -/

namespace Persistence

/-- `_guard`. -/
def guard (allowed : Bool) (domain entityId fromState toState : String) : Program Unit :=
  if allowed then return ()
  else throw (.invalidTransition
    s!"{domain} {entityId}: {fromState} -> {toState} is not a valid transition")

/-- `record_run_transition`. -/
def recordRunTransition (run : Run) (toState : RunState) (event : DomainEvent) : Program Run := do
  guard (run.state.canTransition toState) "run" run.id.value (text run.state) (text toState)
  let updated := { run with state := toState }
  call (.commitRun updated event)
  call (.publish event)
  return updated

/-- `record_task_transition`. -/
def recordTaskTransition (task : Task) (toState : TaskState) (event : DomainEvent) :
    Program Task := do
  guard (task.state.canTransition toState) "task" task.id.value (text task.state) (text toState)
  let updated := { task with state := toState }
  call (.commitTask updated event)
  call (.publish event)
  return updated

/-- `record_attempt_transition`. -/
def recordAttemptTransition (attempt : Attempt) (toState : AttemptState) (event : DomainEvent) :
    Program Attempt := do
  guard (attempt.state.canTransition toState) "attempt" attempt.id.value (text attempt.state)
    (text toState)
  let updated := { attempt with state := toState }
  call (.commitAttempt updated event)
  call (.publish event)
  return updated

end Persistence

open Persistence

/-- `DomainEvent(...)`. -/
def newEvent (projectId : String) (runId : RunId) (type : EventType) (payload : List (String × Json)) :
    Program DomainEvent := do
  let (id, timestamp) ← call .newEvent
  return { id, timestamp, projectId, runId := some runId, type, payload := .obj payload }

/-- `payload.update(extra)`. -/
def update (payload extra : List (String × Json)) : List (String × Json) :=
  extra.foldl (fun payload item => Dict.set payload item.1 item.2) payload

namespace Scheduler

variable (projectId : String)

/-- `_run_event`. -/
def runEvent (run : Run) (type : EventType) (toState : RunState) (extra : List (String × Json) := []) :
    Program DomainEvent :=
  newEvent run.projectId run.id type <| update
    [("run_id", .str run.id.value), ("goal_id", .str run.goalId),
      ("previous", .str (text run.state)), ("next", .str (text toState))] extra

/-- `_task_event`. -/
def taskEvent (task : Task) (type : EventType) (extra : List (String × Json) := []) :
    Program DomainEvent :=
  newEvent projectId task.runId type <| update
    [("task_id", .str task.id.value), ("objective", .str task.objective),
      ("previous", .str (text task.state))] extra

/-- `record_run_transition(run, to_state, _run_event(run, type, to_state, extra))`. -/
def moveRun (run : Run) (toState : RunState) (type : EventType) (extra : List (String × Json)) :
    Program Run := do
  recordRunTransition run toState (← runEvent run type toState extra)

/-- `record_task_transition(task, to_state, _task_event(task, type, extra))`. -/
def moveTask (task : Task) (toState : TaskState) (type : EventType) (extra : List (String × Json)) :
    Program Task := do
  recordTaskTransition task toState (← taskEvent projectId task type extra)

/-- `start_run`. -/
def startRun (run : Run) : Program Run := moveRun run .planning .runStarted []

/-- `advance_run`. -/
def advanceRun (run : Run) (toState : RunState) : Program Run :=
  let type : EventType :=
    match toState with
    | .completed => .runCompleted
    | .failed => .runFailed
    | _ => .stateChange
  moveRun run toState type []

/-- `schedule_tasks`. -/
def scheduleTasks (run : Run) (tasks : List Task) : Program Run := do
  Prog.forEach (fun task => call (.saveTask task)) tasks
  moveRun run .ready .stateChange [("task_count", .num (toString tasks.length))]

/-- The state of a task in `by_id = {task.id: task for task in tasks}`. -/
def stateById (tasks : List Task) (id : TaskId) : Option TaskState :=
  (Dict.get? (Dict.ofItems (tasks.map fun task => (task.id, task))) id).map Task.state

/-- What `ready_tasks` keeps of the stored tasks: planned, and every dependency has succeeded. -/
def readyAmong (tasks : List Task) : List Task :=
  tasks.filter fun task =>
    task.state = .planned && task.dependencies.all fun id => stateById tasks id = some .succeeded

/-- `ready_tasks`. -/
def readyTasks (runId : RunId) : Program (List Task) := do
  let tasks ← call (.loadTasks runId)
  return readyAmong tasks

/-- `mark_task_ready`. -/
def markTaskReady (task : Task) : Program Task := moveTask projectId task .ready .taskReady []

/-- `complete_task`. -/
def completeTask (task : Task) : Program Task :=
  moveTask projectId task .succeeded .taskSucceeded []

/-- `fail_task`. -/
def failTask (task : Task) (reason : String) : Program Task :=
  moveTask projectId task .failed .taskFailed [("reason", .str reason)]

/-- `cancel_task`. -/
def cancelTask (task : Task) (reason : String) : Program Task :=
  moveTask projectId task .cancelled .taskFailed [("reason", .str reason)]

/-- `open_states`. -/
def isOpen (state : TaskState) : Bool :=
  state = .planned || state = .blocked || state = .ready || state = .running

/-- `cancel_run`. -/
def cancelRun (run : Run) (reason : String) : Program Run := do
  let tasks ← call (.loadTasks run.id)
  Prog.forEach (fun task => do
    if isOpen task.state then let _ ← cancelTask projectId task reason) tasks
  let stored ← call (.loadRun run.id)
  let reloaded := stored.getD run
  if reloaded.state = .planning || reloaded.state = .ready || reloaded.state = .running then
    moveRun reloaded .cancelled .runFailed [("reason", .str reason)]
  else return reloaded

/-- `evaluate_run_completion`. -/
def evaluateRunCompletion (run : Run) : Program Bool := do
  let tasks ← call (.loadTasks run.id)
  if tasks = [] then return false
  else if tasks.any fun task => task.state = .failed then
    let _ ← advanceRun run .failed
    return false
  else if tasks.any fun task => task.state = .cancelled then
    let _ ← advanceRun run .cancelled
    return false
  else if tasks.all fun task =>
      task.state = .succeeded || task.state = .cancelled || task.state = .superseded then
    let _ ← advanceRun run .verifying
    return true
  else return false

end Scheduler

/-! ## One attempt -/

namespace Harness

variable (projectId : String)

/-- `record_attempt_transition(attempt, to_state, self._attempt_event(attempt, type))`. -/
def moveAttempt (attempt : Attempt) (toState : AttemptState) (type : EventType) : Program Attempt := do
  let event ← newEvent projectId attempt.runId type
    [("attempt_id", .str attempt.id.value), ("task_id", .str attempt.taskId.value),
      ("runner", (attempt.runner.map Json.str).getD .null),
      ("model_id", (attempt.modelId.map Json.str).getD .null),
      ("previous", .str (text attempt.state))]
  recordAttemptTransition attempt toState event

/-- `_close_attempt`. -/
def closeAttempt (attempt : Attempt) (state : AttemptState) (type : EventType) (error : String := "") :
    Program Attempt := do
  let completedAt ← call .now
  let finished :=
    { attempt with completedAt := some completedAt, errorMsg := if error = "" then none else some error }
  moveAttempt projectId finished state type

/-- The rows of an attempt up to the call of its runner. -/
def startAttempt (runnerName : String) (task : Task) (config : RunnerConfig) : Program Attempt := do
  let (id, createdAt) ← call .newAttempt
  let attempt : Attempt :=
    { id, taskId := task.id, runId := task.runId, runner := some runnerName,
      modelId := some config.model, createdAt }
  call (.saveAttempt attempt)
  let attempt ← moveAttempt projectId attempt .starting .attemptStarted
  let startedAt ← call .now
  moveAttempt projectId { attempt with startedAt := some startedAt } .running .stateChange

/-- What follows the end of the runner's task. When it has ended there is nothing left that
`cancel_task` could cancel, although its entry is taken out only after the attempt is closed. -/
def endAttempt (taskId : TaskId) (attempt : Attempt) :
    Except PyExn RunnerResult → Program (RunnerResult × Attempt)
  | .error .cancelledError => do
      let _ ← call (.cancelRunner taskId)
      let _ ← closeAttempt projectId attempt .cancelled .attemptFailed
      throw .cancelledError
  | .error exc => do
      let attempt ← closeAttempt projectId attempt .failed .attemptFailed exc.str
      return ({ success := false, error := exc.str }, attempt)
  | .ok result => do
      if result.success then
        return (result, ← closeAttempt projectId attempt .completed .attemptCompleted)
      else
        return (result, ← closeAttempt projectId attempt .failed .attemptFailed result.error)

/-- `execute`. -/
def execute (runnerName : String) (task : Task) (prompt : String) (config : RunnerConfig) :
    Program (RunnerResult × Attempt) := do
  let resolved ← call (.resolve runnerName)
  if resolved then
    let attempt ← startAttempt projectId runnerName task config
    if task.state = .ready then
      let event ← newEvent projectId task.runId .stateChange
        [("task_id", .str task.id.value), ("previous", .str (text task.state))]
      let _ ← recordTaskTransition task .running event
    call (.startRunner task.id prompt config)
    let answer ← call (.awaitRunner task.id)
    endAttempt projectId task.id attempt answer
  else throw (.valueError s!"Unknown runner: {runnerName}")

end Harness

end AtlasFlow.Reference
