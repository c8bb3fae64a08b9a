import AtlasFlow.Persistence.SqlValues

/-!
# The rows of the tables

`ParametersFor` and `Read…` of the repositories: the columns each entity is written as, and the
strict reading of a row. What a repository wrote it reads back, with the offset of every moment
normalised to UTC: `persisted` is that value, and it is written as the same row again.
-/

namespace AtlasFlow

open SqlValues

/-! ## Plans -/

/-- A row of `plans`. -/
structure PlanRow where
  id : String
  projectId : String
  goalId : String
  goalRevision : String
  state : String
  autonomy : String
  runner : String
  integrationTarget : String
  createdAt : Nat
  tasks : Json
  deriving DecidableEq, Repr, Inhabited

namespace PlanRow

def serializeTask (task : PlanTask) : Json :=
  .obj [("id", .str task.id.value), ("objective", .str task.objective),
    ("risk", .str (text task.risk)), ("parallelizable", .bool task.isParallelizable),
    ("dependencies", json (task.dependencies.map TaskId.value)),
    ("write_scope", json (task.writeScope.map ProjectPath.value)),
    ("gates", json (task.gates.map text)), ("capabilities", json task.capabilities)]

def serializeTasks (tasks : List PlanTask) : Json := .arr (tasks.map serializeTask)

/-- `Text(node, key)`: the string under a key, empty when it is missing or null. -/
def textOf (node : Json) (key : String) : Except Exn String :=
  match node.get? key with
  | none => .ok ""
  | some value => stringOf value

/-- `Strings(node, key)`: the strings under a key, none when it is not an array. -/
def strings (node : Json) (key : String) : Except Exn (List String) :=
  match node.get? key with
  | none => .ok []
  | some value => stringsOf value

/-- `node["parallelizable"]?.GetValue<bool>() ?? false`. -/
def flagOf (node : Json) (key : String) : Except Exn Bool :=
  match node.get? key with
  | none | some .null => .ok false
  | some (.bool b) => .ok b
  | some _ => .error .invalidOperation

def deserializeTask (node : Json) : Except Exn PlanTask := do
  let id ← textOf node "id"
  let objective ← textOf node "objective"
  let risk ← ofText (← textOf node "risk")
  let isParallelizable ← flagOf node "parallelizable"
  let dependencies ← strings node "dependencies"
  let writeScope ← strings node "write_scope"
  let gates ← (← strings node "gates").mapM ofText
  let capabilities ← strings node "capabilities"
  return {
    id := ⟨id⟩, objective, risk, isParallelizable, dependencies := dependencies.map TaskId.mk,
    writeScope := writeScope.map ProjectPath.mk, gates, capabilities }

/-- `array.OfType<JsonObject>()`. -/
def isObject : Json → Bool
  | .obj _ => true
  | _ => false

def deserializeTasks : Json → Except Exn (List PlanTask)
  | .arr nodes => (nodes.filter isObject).mapM deserializeTask
  | _ => .ok []

/-- `ParametersFor(Plan)`. -/
def parametersFor (plan : Plan) : PlanRow where
  id := plan.id.value
  projectId := plan.projectId
  goalId := plan.goalId.value
  goalRevision := plan.goalRevision
  state := text plan.state
  autonomy := text plan.autonomy
  runner := plan.runner
  integrationTarget := plan.integrationTarget
  createdAt := momentText plan.createdAt
  tasks := serializeTasks plan.tasks

/-- `PlanRepository.Read`. -/
def read (row : PlanRow) : Except Exn Plan := do
  let state ← ofText row.state
  let autonomy ← ofText row.autonomy
  let tasks ← deserializeTasks row.tasks
  return {
    id := ⟨row.id⟩, projectId := row.projectId, goalId := ⟨row.goalId⟩,
    goalRevision := row.goalRevision, state, autonomy, runner := row.runner,
    integrationTarget := row.integrationTarget, createdAt := momentOf row.createdAt, tasks }

end PlanRow

/-- The plan as it is read back. -/
def Plan.persisted (plan : Plan) : Plan :=
  { plan with createdAt := toUniversalTime plan.createdAt }

namespace PlanRow

@[simp] theorem deserializeTask_serializeTask (task : PlanTask) :
    deserializeTask (serializeTask task) = .ok task := by
  have hgates : (task.gates.map text).mapM ofText = (.ok task.gates : Except Exn _) := by
    exact Attempts.mapM_map_self ofText_text task.gates
  simp only [deserializeTask, serializeTask, textOf, strings, flagOf, Json.get?]
  simp only [List.reverse_cons, List.reverse_nil, List.nil_append, List.cons_append,
    List.find?_cons]
  simp [stringOf, hgates, bind, Except.bind, pure, Except.pure, Function.comp_def]

@[simp] theorem deserializeTasks_serializeTasks (tasks : List PlanTask) :
    deserializeTasks (serializeTasks tasks) = .ok tasks := by
  have hfilter : (tasks.map serializeTask).filter isObject = tasks.map serializeTask := by
    rw [List.filter_eq_self]
    intro node hnode
    obtain ⟨task, _, rfl⟩ := List.mem_map.mp hnode
    rfl
  have h : (tasks.map serializeTask).mapM deserializeTask = .ok tasks :=
    Attempts.mapM_map_self deserializeTask_serializeTask tasks
  rw [serializeTasks, deserializeTasks, hfilter, h]

/-- **A plan survives its row.** -/
@[simp] theorem read_parametersFor (plan : Plan) :
    (parametersFor plan).read = .ok plan.persisted := by
  simp [read, parametersFor, Plan.persisted, bind, Except.bind, pure, Except.pure]

/-- Reading a plan back and writing it again changes no column. -/
@[simp] theorem parametersFor_persisted (plan : Plan) :
    parametersFor plan.persisted = parametersFor plan := rfl

/-- The state of a row that can be read is the state its column spells. -/
theorem state_of_read {row : PlanRow} {plan : Plan} (h : row.read = .ok plan) :
    ofText row.state = .ok plan.state := by
  simp only [read, bind, Except.bind, pure, Except.pure] at h
  split at h
  · cases h
  · next state hstate =>
      split at h
      · cases h
      · split at h
        · cases h
        · cases h; exact hstate

end PlanRow

/-! ## Runs -/

/-- A row of `runs`. -/
structure RunRow where
  id : String
  projectId : String
  goalId : String
  goalRevision : String
  state : String
  autonomy : String
  createdAt : Nat
  startedAt : Option Nat
  completedAt : Option Nat
  deriving DecidableEq, Repr, Inhabited

/-- `ParametersFor(Run)`. -/
def RunRow.parametersFor (run : Run) : RunRow where
  id := run.id.value
  projectId := run.projectId
  goalId := run.goalId.value
  goalRevision := run.goalRevision
  state := text run.state
  autonomy := text run.autonomy
  createdAt := momentText run.createdAt
  startedAt := run.startedAt.map momentText
  completedAt := run.completedAt.map momentText

/-- `RunRepository.ReadRun`. -/
def RunRow.read (row : RunRow) : Except Exn Run := do
  let state ← ofText row.state
  let autonomy ← ofText row.autonomy
  return {
    id := ⟨row.id⟩, projectId := row.projectId, goalId := ⟨row.goalId⟩,
    goalRevision := row.goalRevision, state, autonomy, createdAt := momentOf row.createdAt,
    startedAt := row.startedAt.map momentOf, completedAt := row.completedAt.map momentOf }

/-- The run as it is read back. -/
def Run.persisted (run : Run) : Run :=
  { run with
    createdAt := toUniversalTime run.createdAt
    startedAt := run.startedAt.map toUniversalTime
    completedAt := run.completedAt.map toUniversalTime }

/-- **A run survives its row.** -/
theorem RunRow.read_parametersFor (run : Run) :
    (RunRow.parametersFor run).read = .ok run.persisted := by
  simp [RunRow.read, RunRow.parametersFor, Run.persisted, bind, Except.bind, pure, Except.pure,
    Function.comp_def]

theorem RunRow.parametersFor_persisted (run : Run) :
    RunRow.parametersFor run.persisted = RunRow.parametersFor run := by
  simp [RunRow.parametersFor, Run.persisted, Function.comp_def]

/-- A run that was read is read back as it is. -/
theorem Run.persisted_persisted (run : Run) : run.persisted.persisted = run.persisted := by
  have hidem : toUniversalTime ∘ toUniversalTime = toUniversalTime := rfl
  simp only [Run.persisted, Option.map_map, hidem]
  rfl

/-! ## Tasks -/

/-- A row of `tasks`. -/
structure TaskRow where
  id : String
  runId : String
  objective : String
  role : Option String
  risk : String
  scope : Json
  state : String
  dependencies : Json
  createdAt : Nat
  deriving DecidableEq, Repr, Inhabited

/-- `ParametersFor(RunTask)`. -/
def TaskRow.parametersFor (task : RunTask) : TaskRow where
  id := task.id.value
  runId := task.runId.value
  objective := task.objective
  role := task.role
  risk := text task.risk
  scope := json (task.writeScope.map ProjectPath.value)
  state := text task.state
  dependencies := json (task.dependencies.map TaskId.value)
  createdAt := momentText task.createdAt

/-- `RunRepository.ReadTask`. -/
def TaskRow.read (row : TaskRow) : Except Exn RunTask := do
  let risk ← ofText row.risk
  let scope ← stringsOf row.scope
  let state ← ofText row.state
  let dependencies ← stringsOf row.dependencies
  return {
    id := ⟨row.id⟩, runId := ⟨row.runId⟩, objective := row.objective, role := row.role, risk,
    writeScope := scope.map ProjectPath.mk, state, dependencies := dependencies.map TaskId.mk,
    createdAt := momentOf row.createdAt }

/-- The task as it is read back. -/
def RunTask.persisted (task : RunTask) : RunTask :=
  { task with createdAt := toUniversalTime task.createdAt }

/-- **A task survives its row.** -/
theorem TaskRow.read_parametersFor (task : RunTask) :
    (TaskRow.parametersFor task).read = .ok task.persisted := by
  simp [TaskRow.read, TaskRow.parametersFor, RunTask.persisted, bind, Except.bind, pure,
    Except.pure, Function.comp_def]

theorem TaskRow.parametersFor_persisted (task : RunTask) :
    TaskRow.parametersFor task.persisted = TaskRow.parametersFor task := rfl

/-! ## Attempts -/

/-- A row of `attempts`. -/
structure AttemptRow where
  id : String
  taskId : String
  runId : String
  runner : Option String
  modelProvider : Option String
  modelId : Option String
  state : String
  createdAt : Nat
  startedAt : Option Nat
  completedAt : Option Nat
  error : Option String
  deriving DecidableEq, Repr, Inhabited

/-- `ParametersFor(Attempt)`. -/
def AttemptRow.parametersFor (attempt : Attempt) : AttemptRow where
  id := attempt.id.value
  taskId := attempt.taskId.value
  runId := attempt.runId.value
  runner := attempt.runner
  modelProvider := attempt.modelProvider
  modelId := attempt.modelId
  state := text attempt.state
  createdAt := momentText attempt.createdAt
  startedAt := attempt.startedAt.map momentText
  completedAt := attempt.completedAt.map momentText
  error := attempt.error

/-- `RunRepository.ReadAttempt`. -/
def AttemptRow.read (row : AttemptRow) : Except Exn Attempt := do
  let state ← ofText row.state
  return {
    id := ⟨row.id⟩, taskId := ⟨row.taskId⟩, runId := ⟨row.runId⟩, runner := row.runner,
    modelProvider := row.modelProvider, modelId := row.modelId, state,
    createdAt := momentOf row.createdAt, startedAt := row.startedAt.map momentOf,
    completedAt := row.completedAt.map momentOf, error := row.error }

/-- The attempt as it is read back. -/
def Attempt.persisted (attempt : Attempt) : Attempt :=
  { attempt with
    createdAt := toUniversalTime attempt.createdAt
    startedAt := attempt.startedAt.map toUniversalTime
    completedAt := attempt.completedAt.map toUniversalTime }

/-- **An attempt survives its row.** -/
theorem AttemptRow.read_parametersFor (attempt : Attempt) :
    (AttemptRow.parametersFor attempt).read = .ok attempt.persisted := by
  simp [AttemptRow.read, AttemptRow.parametersFor, Attempt.persisted, bind, Except.bind, pure,
    Except.pure, Function.comp_def]

theorem AttemptRow.parametersFor_persisted (attempt : Attempt) :
    AttemptRow.parametersFor attempt.persisted = AttemptRow.parametersFor attempt := by
  simp [AttemptRow.parametersFor, Attempt.persisted, Function.comp_def]

end AtlasFlow
