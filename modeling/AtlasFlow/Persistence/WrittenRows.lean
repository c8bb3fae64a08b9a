import AtlasFlow.Data.Dict
import AtlasFlow.Data.JsonNode
import AtlasFlow.Persistence.Columns
import AtlasFlow.Persistence.PlanRepository
import AtlasFlow.Persistence.StoredMoments

/-!
# The rows that the repositories write, and what they read of them

Every repository writes a value through `ParametersFor`, a dictionary of parameters, and one `INSERT` that says which
column gets which. It reads a row by the names of the columns, strictly. Here both are as the program has them, with
every column a text: moments are written as `StoredMoments.text` and JSON columns as `ToJsonString` writes them.

A row that was written is read as the value that was written, with its moments in UTC, and that is written as the same
row again; so `WouldChange` asks the right question. The exception is the payload of an event, whose depth nobody
limits: one that is nested deeper than a reader of JSON goes is stored, and can never be read.
-/

namespace AtlasFlow

open SqlValues (Spelled ofText ofText_text)

namespace WrittenRows

/-! ## Statements and rows -/

/-- What a parameter of a statement holds, and a column of a row. -/
inductive Cell where
  | null
  | text (value : String)
  | integer (value : Int)
  deriving DecidableEq, Repr

/-- `value ?? DBNull.Value`. -/
def Cell.ofOption : Option String → Cell
  | some value => .text value
  | none => .null

/-- `Dictionary<string, object?>`. -/
abbrev Parameters := Dict String Cell

abbrev Row := Dict String Cell

/-- An `INSERT`: the columns it names, and the parameter that each of them gets. -/
structure Insert where
  table : String
  columns : List String
  values : List String

/-- The row that is written. A parameter that was not given is refused. -/
def Insert.row (statement : Insert) (parameters : Parameters) : Except Exn Row :=
  (statement.columns.zip statement.values).mapM fun entry =>
    match parameters.get? entry.2 with
    | some cell => .ok (entry.1, cell)
    | none => .error .invalidOperation

/-- `GetString`. -/
def Cell.getString : Cell → Except Exn String
  | .text value => .ok value
  | .integer value => .ok (toString value)
  | .null => .error .invalidOperation

/-- `IsDBNull(ordinal) ? null : GetString(ordinal)`. -/
def Cell.nullable : Cell → Except Exn (Option String)
  | .null => .ok none
  | cell => cell.getString.map some

/-- `GetOrdinal`, and the cell there. -/
def Row.cell (row : Row) (column : String) : Except Exn Cell :=
  match row.get? column with
  | some cell => .ok cell
  | none => .error (.argument "Specified argument was out of the range of valid values. (Parameter 'name')")

def Row.string (row : Row) (column : String) : Except Exn String := do
  (← row.cell column).getString

def Row.nullableString (row : Row) (column : String) : Except Exn (Option String) := do
  (← row.cell column).nullable

/-- `SqlValues.MomentOf`. -/
def momentOf (text : String) : Except Exn DateTimeOffset :=
  match StoredMoments.momentOf text with
  | some moment => .ok moment
  | none => .error (.other s!"String '{text}' was not recognized as a valid DateTime.")

def Row.moment (row : Row) (column : String) : Except Exn DateTimeOffset := do
  momentOf (← row.string column)

def Row.nullableMoment (row : Row) (column : String) : Except Exn (Option DateTimeOffset) := do
  (← row.nullableString column).mapM momentOf

/-! ### JSON columns -/

/-- `ToJsonString()`. -/
def toJsonString (node : Json) : Except Exn String :=
  match JsonNode.toJsonString node with
  | some text => .ok text
  | none => .error .invalidOperation

/-- `JsonNode.Parse`. -/
def parse (text : String) : Except Exn Json :=
  match JsonNode.parse text with
  | some node => .ok node
  | none => .error (.other "The JSON value could not be read.")

/-- `SqlValues.Json`. -/
def jsonText (values : List String) : Except Exn String := toJsonString (SqlValues.json values)

/-- `SqlValues.StringsOf`. -/
def stringsOf (text : String) : Except Exn (List String) := do
  SqlValues.stringsOf (← parse text)

/-! ## The six kinds of values -/

/-! ### `RunRepository` -/

def upsertRun : Insert where
  table := "runs"
  columns := ["id", "project_id", "goal_id", "goal_revision", "state", "autonomy", "created_at", "started_at",
    "completed_at"]
  values := ["$id", "$projectId", "$goalId", "$goalRevision", "$state", "$autonomy", "$createdAt", "$startedAt",
    "$completedAt"]

/-- `ParametersFor(Run)`. -/
def parametersForRun (run : Run) : Parameters :=
  [("$id", .text run.id.value), ("$projectId", .text run.projectId), ("$goalId", .text run.goalId.value),
    ("$goalRevision", .text run.goalRevision), ("$state", .text (Spelled.text run.state)),
    ("$autonomy", .text (Spelled.text run.autonomy)), ("$createdAt", .text (StoredMoments.text run.createdAt)),
    ("$startedAt", .ofOption (run.startedAt.map StoredMoments.text)),
    ("$completedAt", .ofOption (run.completedAt.map StoredMoments.text))]

/-- `ReadRun`. -/
def readRun (row : Row) : Except Exn Run := do
  return {
    id := ⟨← row.string "id"⟩
    projectId := ← row.string "project_id"
    goalId := ⟨← row.string "goal_id"⟩
    goalRevision := ← row.string "goal_revision"
    state := ← ofText (← row.string "state")
    autonomy := ← ofText (← row.string "autonomy")
    createdAt := ← row.moment "created_at"
    startedAt := ← row.nullableMoment "started_at"
    completedAt := ← row.nullableMoment "completed_at" }

def upsertTask : Insert where
  table := "tasks"
  columns := ["id", "run_id", "objective", "role", "risk", "scope", "state", "dependencies", "created_at"]
  values := ["$id", "$runId", "$objective", "$role", "$risk", "$scope", "$state", "$dependencies", "$createdAt"]

/-- `ParametersFor(RunTask)`. -/
def parametersForTask (task : RunTask) : Except Exn Parameters := do
  return [("$id", .text task.id.value), ("$runId", .text task.runId.value), ("$objective", .text task.objective),
    ("$role", .ofOption task.role), ("$risk", .text (Spelled.text task.risk)),
    ("$scope", .text (← jsonText (task.writeScope.map ProjectPath.value))),
    ("$state", .text (Spelled.text task.state)),
    ("$dependencies", .text (← jsonText (task.dependencies.map TaskId.value))),
    ("$createdAt", .text (StoredMoments.text task.createdAt))]

/-- `ReadTask`. -/
def readTask (row : Row) : Except Exn RunTask := do
  return {
    id := ⟨← row.string "id"⟩
    runId := ⟨← row.string "run_id"⟩
    objective := ← row.string "objective"
    role := ← row.nullableString "role"
    risk := ← ofText (← row.string "risk")
    writeScope := (← stringsOf (← row.string "scope")).map ProjectPath.mk
    state := ← ofText (← row.string "state")
    dependencies := (← stringsOf (← row.string "dependencies")).map TaskId.mk
    createdAt := ← row.moment "created_at" }

def upsertAttempt : Insert where
  table := "attempts"
  columns := ["id", "task_id", "run_id", "runner", "model_provider", "model_id", "state", "created_at", "started_at",
    "completed_at", "error_msg"]
  values := ["$id", "$taskId", "$runId", "$runner", "$modelProvider", "$modelId", "$state", "$createdAt",
    "$startedAt", "$completedAt", "$error"]

/-- `ParametersFor(Attempt)`. -/
def parametersForAttempt (attempt : Attempt) : Parameters :=
  [("$id", .text attempt.id.value), ("$taskId", .text attempt.taskId.value), ("$runId", .text attempt.runId.value),
    ("$runner", .ofOption attempt.runner), ("$modelProvider", .ofOption attempt.modelProvider),
    ("$modelId", .ofOption attempt.modelId), ("$state", .text (Spelled.text attempt.state)),
    ("$createdAt", .text (StoredMoments.text attempt.createdAt)),
    ("$startedAt", .ofOption (attempt.startedAt.map StoredMoments.text)),
    ("$completedAt", .ofOption (attempt.completedAt.map StoredMoments.text)), ("$error", .ofOption attempt.error)]

/-- `ReadAttempt`. -/
def readAttempt (row : Row) : Except Exn Attempt := do
  return {
    id := ⟨← row.string "id"⟩
    taskId := ⟨← row.string "task_id"⟩
    runId := ⟨← row.string "run_id"⟩
    runner := ← row.nullableString "runner"
    modelProvider := ← row.nullableString "model_provider"
    modelId := ← row.nullableString "model_id"
    state := ← ofText (← row.string "state")
    createdAt := ← row.moment "created_at"
    startedAt := ← row.nullableMoment "started_at"
    completedAt := ← row.nullableMoment "completed_at"
    error := ← row.nullableString "error_msg" }

/-! ### `PlanRepository` -/

def upsertPlan : Insert where
  table := "plans"
  columns := ["id", "project_id", "goal_id", "goal_revision", "state", "autonomy", "runner", "integration_target",
    "created_at", "tasks"]
  values := ["$id", "$projectId", "$goalId", "$goalRevision", "$state", "$autonomy", "$runner", "$integrationTarget",
    "$createdAt", "$tasks"]

/-- `ParametersFor(Plan)`. -/
def parametersForPlan (plan : Plan) : Except Exn Parameters := do
  return [("$id", .text plan.id.value), ("$projectId", .text plan.projectId), ("$goalId", .text plan.goalId.value),
    ("$goalRevision", .text plan.goalRevision), ("$state", .text (Spelled.text plan.state)),
    ("$autonomy", .text (Spelled.text plan.autonomy)), ("$runner", .text plan.runner),
    ("$integrationTarget", .text plan.integrationTarget),
    ("$createdAt", .text (StoredMoments.text plan.createdAt)),
    ("$tasks", .text (← toJsonString (PlanRow.serializeTasks plan.tasks)))]

/-- `PlanRepository.Read`. -/
def readPlan (row : Row) : Except Exn Plan := do
  return {
    id := ⟨← row.string "id"⟩
    projectId := ← row.string "project_id"
    goalId := ⟨← row.string "goal_id"⟩
    goalRevision := ← row.string "goal_revision"
    state := ← ofText (← row.string "state")
    autonomy := ← ofText (← row.string "autonomy")
    runner := ← row.string "runner"
    integrationTarget := ← row.string "integration_target"
    createdAt := ← row.moment "created_at"
    tasks := ← PlanRow.deserializeTasks (← parse (← row.string "tasks")) }

/-- `WouldChange`. -/
def wouldChange (existing incoming : Plan) : Except Exn Bool := do
  let before ← parametersForPlan existing
  let after ← parametersForPlan incoming
  return before.any fun entry => after.get? entry.1 ≠ some entry.2

/-! ### `EvidenceRepository` -/

def upsertEvidence : Insert where
  table := "evidence"
  columns := ["id", "goal_id", "run_id", "task_id", "gate", "kind", "uri", "digest", "verdict", "attached_at"]
  values := ["$id", "$goalId", "$runId", "$taskId", "$gate", "$kind", "$uri", "$digest", "$verdict", "$attachedAt"]

/-- The parameters of `EvidenceRepository.SaveAsync`. -/
def parametersForEvidence (goalId : GoalId) (runId : Option RunId) (digest : String) (evidence : Evidence) :
    Parameters :=
  [("$id", .text evidence.id.value), ("$goalId", .text goalId.value), ("$runId", .ofOption (runId.map RunId.value)),
    ("$taskId", .ofOption (evidence.taskId.map TaskId.value)), ("$gate", .text (Spelled.text evidence.gate)),
    ("$kind", .text evidence.kind), ("$uri", .text evidence.uri), ("$digest", .text digest),
    ("$verdict", .text (Spelled.text evidence.verdict)),
    ("$attachedAt", .text (StoredMoments.text evidence.attachedAt))]

/-- `EvidenceRepository.Read`. -/
def readEvidence (row : Row) : Except Exn Evidence := do
  let taskId ← row.nullableString "task_id"
  return {
    id := ⟨← row.string "id"⟩
    gate := ← ofText (← row.string "gate")
    kind := ← row.string "kind"
    uri := ← row.string "uri"
    verdict := ← ofText (← row.string "verdict")
    taskId := taskId.map TaskId.mk
    attachedAt := ← row.moment "attached_at" }

/-! ### `EventStore` -/

def insertEvent : Insert where
  table := "events"
  columns := ["id", "timestamp", "project_id", "run_id", "type", "version", "payload"]
  values := ["$id", "$timestamp", "$projectId", "$runId", "$type", "$version", "$payload"]

/-- `EventStore.ParametersFor`. -/
def parametersForEvent (event : DomainEvent) : Except Exn Parameters := do
  return [("$id", .text event.id), ("$timestamp", .text (StoredMoments.text event.timestamp)),
    ("$projectId", .text event.projectId), ("$runId", .ofOption (event.runId.map RunId.value)),
    ("$type", .text (Spelled.text event.type)), ("$version", .integer 1),
    ("$payload", .text (← toJsonString event.payload))]

/-- `EventStore.Read`. -/
def readEvent (row : Row) : Except Exn DomainEvent := do
  let runId ← row.nullableString "run_id"
  return {
    id := ← row.string "id"
    timestamp := ← row.moment "timestamp"
    projectId := ← row.string "project_id"
    runId := runId.map RunId.mk
    type := ← ofText (← row.string "type")
    payload := asObject (← parse (← row.string "payload")) }

/-! ## Values as far as they are kept

Of a moment its instant is kept. -/

end WrittenRows

def Evidence.persisted (evidence : Evidence) : Evidence :=
  { evidence with attachedAt := SqlValues.toUniversalTime evidence.attachedAt }

namespace WrittenRows

open Attempts (Codec ok_bind)

def runs : Codec Exn Row Run where
  write run := upsertRun.row (parametersForRun run)
  read := readRun
  kept := Run.persisted

def tasks : Codec Exn Row RunTask where
  write task := do upsertTask.row (← parametersForTask task)
  read := readTask
  kept := RunTask.persisted

def attempts : Codec Exn Row Attempt where
  write attempt := upsertAttempt.row (parametersForAttempt attempt)
  read := readAttempt
  kept := Attempt.persisted

def plans : Codec Exn Row Plan where
  write plan := do upsertPlan.row (← parametersForPlan plan)
  read := readPlan
  kept := Plan.persisted

def evidence (goalId : GoalId) (runId : Option RunId) (digest : String) : Codec Exn Row Evidence where
  write evidence := upsertEvidence.row (parametersForEvidence goalId runId digest evidence)
  read := readEvidence
  kept := Evidence.persisted

def events : Codec Exn Row DomainEvent where
  write event := do insertEvent.row (← parametersForEvent event)
  read := readEvent
  kept := Database.persistedEvent

/-! ## Reading what was written -/

/-- A moment that a `DateTimeOffset` can be. -/
def InRange (moment : DateTimeOffset) : Prop := moment.utcTicks ≤ StoredMoments.maxTicks

section Cells

variable {moment : DateTimeOffset} {moment? : Option DateTimeOffset} {node : Json} {parameters : Parameters}
  {statement : Insert}

theorem momentOf_text (h : InRange moment) :
    momentOf (StoredMoments.text moment) = .ok (SqlValues.toUniversalTime moment) := by
  rw [momentOf, StoredMoments.momentOf_text h]

theorem mapM_momentOf (h : ∀ m ∈ moment?, InRange m) :
    (moment?.map StoredMoments.text).mapM momentOf = .ok (moment?.map SqlValues.toUniversalTime) := by
  cases moment? with
  | none => rfl
  | some moment =>
    rw [Option.map_some, Option.mapM_some, momentOf_text (h moment rfl)]
    rfl

@[simp] theorem getString_text (value : String) : (Cell.text value).getString = .ok value := rfl

@[simp] theorem nullable_ofOption (value : Option String) : (Cell.ofOption value).nullable = .ok value := by
  cases value <;> rfl

/-- A statement whose parameters are given in its own order. -/
theorem Insert.row_eq (hkeys : parameters.keys = statement.values) (hnodup : statement.values.Nodup) :
    statement.row parameters = .ok (statement.columns.zip parameters.values) := by
  have hread : ∀ {columns : List String} {ps : Parameters}, (∀ item ∈ ps, parameters.get? item.1 = some item.2) →
      (columns.zip ps.keys).mapM (fun entry => match parameters.get? entry.2 with
        | some cell => (.ok (entry.1, cell) : Except Exn (String × Cell))
        | none => .error .invalidOperation) = .ok (columns.zip ps.values) := by
    intro columns ps hps
    induction ps generalizing columns with
    | nil => cases columns <;> rfl
    | cons item ps ih =>
      obtain ⟨hitem, hrest⟩ := List.forall_mem_cons.mp hps
      cases columns with
      | nil => rfl
      | cons column columns =>
        show List.mapM _ ((column, item.1) :: columns.zip (Dict.keys ps)) = _
        rw [List.mapM_cons, hitem, ok_bind, ih hrest]
        rfl
  have hnodup' : parameters.keys.Nodup := hkeys ▸ hnodup
  rw [Insert.row, ← hkeys]
  exact hread fun item hitem => Dict.get?_of_mem hnodup' hitem

theorem toJsonString_of_le (h : node.depth ≤ JsonNode.writeDepth) : toJsonString node = .ok node.toJsonString := by
  rw [toJsonString, JsonNode.toJsonString_of_le h]

theorem parse_toJsonString (h : PyJson.wellSpelled node = true) (hdepth : node.depth ≤ JsonNode.readDepth) :
    parse node.toJsonString = .ok node := by
  rw [parse, JsonNode.parse_toJsonString h, if_pos hdepth]

end Cells

/-! ### A cell by its column -/

section Columns

variable {row : Row} {column name : String} {cell : Cell}

theorem cell_cons_self : Row.cell ((column, cell) :: row) column = .ok cell := by
  rw [Row.cell, Dict.get?_cons, if_pos rfl]

theorem cell_cons_of_ne (h : name ≠ column) : Row.cell ((name, cell) :: row) column = row.cell column := by
  rw [Row.cell, Dict.get?_cons, if_neg h, Row.cell]

end Columns

/-! ### Runs and attempts -/

theorem roundTrips_run {run : Run} (hcreated : InRange run.createdAt) (hstarted : ∀ m ∈ run.startedAt, InRange m)
    (hcompleted : ∀ m ∈ run.completedAt, InRange m) : runs.RoundTrips run := by
  refine .of_kept (Insert.row_eq rfl (by decide)) ?_ (Run.persisted_persisted run) ?_
  · simp only [runs, upsertRun, parametersForRun, Dict.values, List.map_cons, List.map_nil, List.zip_cons_cons,
      List.zip_nil_left]
    simp only [readRun, Row.moment, Row.string, Row.nullableMoment, Row.nullableString, cell_cons_self, cell_cons_of_ne,
      ne_eq, String.reduceEq, not_false_eq_true, momentOf_text hcreated, mapM_momentOf hstarted,
      mapM_momentOf hcompleted, ok_bind, getString_text, nullable_ofOption, ofText_text]
    rfl
  · simp only [runs, parametersForRun, Run.persisted, Option.map_map]
    rfl

theorem roundTrips_attempt {attempt : Attempt} (hcreated : InRange attempt.createdAt)
    (hstarted : ∀ m ∈ attempt.startedAt, InRange m) (hcompleted : ∀ m ∈ attempt.completedAt, InRange m) :
    attempts.RoundTrips attempt := by
  refine .of_kept (Insert.row_eq rfl (by decide)) ?_ ?_ ?_
  · simp only [attempts, upsertAttempt, parametersForAttempt, Dict.values, List.map_cons, List.map_nil,
      List.zip_cons_cons, List.zip_nil_left]
    simp only [readAttempt, Row.moment, Row.string, Row.nullableMoment, Row.nullableString, cell_cons_self,
      cell_cons_of_ne, ne_eq, String.reduceEq, not_false_eq_true, momentOf_text hcreated, mapM_momentOf hstarted,
      mapM_momentOf hcompleted, ok_bind, getString_text, nullable_ofOption, ofText_text]
    rfl
  · simp only [attempts, Attempt.persisted, Option.map_map]
    rfl
  · simp only [attempts, parametersForAttempt, Attempt.persisted, Option.map_map]
    rfl

/-! ### Tasks and plans -/

/-- An array of texts is one array deep. -/
theorem json_spec (values : List String) :
    (SqlValues.json values).depth ≤ 1 ∧ PyJson.wellSpelled (SqlValues.json values) = true := by
  refine ⟨Nat.succ_le_succ (Json.depthItems_le fun item hitem => ?_), PyJson.itemsWellSpelled_iff.mpr fun item hitem => ?_⟩
  · obtain ⟨value, -, rfl⟩ := List.mem_map.mp hitem
    exact Nat.le_refl _
  · obtain ⟨value, -, rfl⟩ := List.mem_map.mp hitem
    rfl

theorem jsonText_eq (values : List String) : jsonText values = .ok (SqlValues.json values).toJsonString :=
  toJsonString_of_le (Nat.le_trans (json_spec values).1 (by decide))

theorem stringsOf_jsonText (values : List String) : stringsOf (SqlValues.json values).toJsonString = .ok values := by
  obtain ⟨hdepth, hspelled⟩ := json_spec values
  rw [stringsOf, parse_toJsonString hspelled (Nat.le_trans hdepth (by decide)), ok_bind, SqlValues.stringsOf_json]

theorem map_mk_value {α : Type} {mk : String → α} {value : α → String} (h : ∀ a, mk (value a) = a) (as : List α) :
    (as.map value).map mk = as := by
  rw [List.map_map]
  exact (List.map_congr_left fun a _ => h a).trans (List.map_id as)

theorem roundTrips_task {task : RunTask} (hcreated : InRange task.createdAt) : tasks.RoundTrips task := by
  have hwrite : ∀ task : RunTask, tasks.write task = upsertTask.row [
      ("$id", .text task.id.value), ("$runId", .text task.runId.value), ("$objective", .text task.objective),
      ("$role", .ofOption task.role), ("$risk", .text (Spelled.text task.risk)),
      ("$scope", .text (SqlValues.json (task.writeScope.map ProjectPath.value)).toJsonString),
      ("$state", .text (Spelled.text task.state)),
      ("$dependencies", .text (SqlValues.json (task.dependencies.map TaskId.value)).toJsonString),
      ("$createdAt", .text (StoredMoments.text task.createdAt))] := by
    intro task
    simp only [tasks, parametersForTask, jsonText_eq, ok_bind]
    rfl
  have hscope : (task.writeScope.map ProjectPath.value).map ProjectPath.mk = task.writeScope :=
    map_mk_value (fun _ => rfl) _
  have hdependencies : (task.dependencies.map TaskId.value).map TaskId.mk = task.dependencies :=
    map_mk_value (fun _ => rfl) _
  refine .of_kept ((hwrite task).trans (Insert.row_eq rfl (by decide))) ?_ rfl ?_
  · simp only [tasks, upsertTask, Dict.values, List.map_cons, List.map_nil, List.zip_cons_cons, List.zip_nil_left]
    simp only [readTask, Row.moment, Row.string, Row.nullableString, cell_cons_self, cell_cons_of_ne, ne_eq,
      String.reduceEq, not_false_eq_true, momentOf_text hcreated, stringsOf_jsonText, ok_bind, getString_text,
      nullable_ofOption, ofText_text, hscope, hdependencies]
    rfl
  · exact (hwrite task.persisted).trans (hwrite task).symm

/-- The tasks of a plan are arrays in objects in one array. -/
theorem parse_serializeTasks (planTasks : List PlanTask) :
    toJsonString (PlanRow.serializeTasks planTasks) = .ok (PlanRow.serializeTasks planTasks).toJsonString ∧
      parse (PlanRow.serializeTasks planTasks).toJsonString = .ok (PlanRow.serializeTasks planTasks) := by
  have htask : ∀ task : PlanTask,
      (PlanRow.serializeTask task).depth ≤ 2 ∧ PyJson.wellSpelled (PlanRow.serializeTask task) = true := by
    intro task
    obtain ⟨hdependencies, hdependencies'⟩ := json_spec (task.dependencies.map TaskId.value)
    obtain ⟨hscope, hscope'⟩ := json_spec (task.writeScope.map ProjectPath.value)
    obtain ⟨hgates, hgates'⟩ := json_spec (task.gates.map Spelled.text)
    obtain ⟨hcapabilities, hcapabilities'⟩ := json_spec task.capabilities
    refine ⟨Nat.succ_le_succ ?_, ?_⟩
    · simp only [Json.depthMembers, Json.depth]
      omega
    · simp only [PlanRow.serializeTask, PyJson.wellSpelled, PyJson.membersWellSpelled, hdependencies', hscope',
        hgates', hcapabilities', Bool.and_self]
  have hdepth : (PlanRow.serializeTasks planTasks).depth ≤ 3 := by
    refine Nat.succ_le_succ (Json.depthItems_le fun item hitem => ?_)
    obtain ⟨task, -, rfl⟩ := List.mem_map.mp hitem
    exact (htask task).1
  have hspelled : PyJson.wellSpelled (PlanRow.serializeTasks planTasks) = true := by
    refine PyJson.itemsWellSpelled_iff.mpr fun item hitem => ?_
    obtain ⟨task, -, rfl⟩ := List.mem_map.mp hitem
    exact (htask task).2
  exact ⟨toJsonString_of_le (Nat.le_trans hdepth (by decide)),
    parse_toJsonString hspelled (Nat.le_trans hdepth (by decide))⟩

/-- What is written of a plan, its parameters in order. -/
def planParameters (plan : Plan) : Parameters :=
  [("$id", .text plan.id.value), ("$projectId", .text plan.projectId), ("$goalId", .text plan.goalId.value),
    ("$goalRevision", .text plan.goalRevision), ("$state", .text (Spelled.text plan.state)),
    ("$autonomy", .text (Spelled.text plan.autonomy)), ("$runner", .text plan.runner),
    ("$integrationTarget", .text plan.integrationTarget),
    ("$createdAt", .text (StoredMoments.text plan.createdAt)),
    ("$tasks", .text (PlanRow.serializeTasks plan.tasks).toJsonString)]

theorem parametersForPlan_eq (plan : Plan) : parametersForPlan plan = .ok (planParameters plan) := by
  simp only [parametersForPlan, (parse_serializeTasks plan.tasks).1, ok_bind]
  rfl

theorem write_plan (plan : Plan) :
    plans.write plan = .ok (upsertPlan.columns.zip (planParameters plan).values) := by
  have hrow : upsertPlan.row (planParameters plan) = .ok _ := Insert.row_eq rfl (by decide)
  simp only [plans, parametersForPlan_eq, ok_bind, hrow]

theorem read_plan {plan : Plan} (hcreated : InRange plan.createdAt) :
    plans.read (upsertPlan.columns.zip (planParameters plan).values) = .ok plan.persisted := by
  simp only [plans, upsertPlan, planParameters, Dict.values, List.map_cons, List.map_nil, List.zip_cons_cons,
    List.zip_nil_left]
  simp only [readPlan, Row.moment, Row.string, cell_cons_self, cell_cons_of_ne, ne_eq, String.reduceEq,
    not_false_eq_true, momentOf_text hcreated, (parse_serializeTasks plan.tasks).2,
    PlanRow.deserializeTasks_serializeTasks, ok_bind, getString_text, ofText_text]
  rfl

theorem roundTrips_plan {plan : Plan} (hcreated : InRange plan.createdAt) : plans.RoundTrips plan :=
  .of_kept (write_plan plan) (read_plan hcreated) rfl ((write_plan plan.persisted).trans (write_plan plan).symm)

theorem keys_planParameters (plan : Plan) : (planParameters plan).keys = upsertPlan.values := rfl

theorem keys_row (plan : Plan) :
    Dict.keys (upsertPlan.columns.zip (planParameters plan).values) = upsertPlan.columns := rfl

/-- `WouldChange`, of what was read of a row that was written, asks whether the row would be another one. -/
theorem wouldChange_persisted (plan incoming : Plan) :
    ∃ answer, wouldChange plan.persisted incoming = .ok answer ∧
      (answer = true ↔ ∃ column, Dict.get? (upsertPlan.columns.zip (planParameters plan).values) column ≠
        Dict.get? (upsertPlan.columns.zip (planParameters incoming).values) column) := by
  refine ⟨(planParameters plan).any fun entry => Dict.get? (planParameters incoming) entry.1 ≠ some entry.2, ?_, ?_⟩
  · simp only [wouldChange, parametersForPlan_eq, ok_bind]
    rfl
  · have hcolumns : upsertPlan.columns.Nodup := by decide
    have hnames : upsertPlan.values.Nodup := by decide
    have hany := Dict.any_get?_ne_iff ((keys_planParameters plan).trans (keys_planParameters incoming).symm)
      (keys_planParameters plan ▸ hnames)
    have hrows := Dict.get?_eq_iff ((keys_row plan).trans (keys_row incoming).symm) (keys_row plan ▸ hcolumns)
    rw [hany, ← not_forall, hrows, not_iff_not]
    refine ⟨fun h => by rw [h], fun h => ?_⟩
    have hsnd : ∀ plan, (upsertPlan.columns.zip (planParameters plan).values).map Prod.snd =
        (planParameters plan).values := fun _ => rfl
    have hzip : ∀ plan, planParameters plan = upsertPlan.values.zip (planParameters plan).values := fun _ => rfl
    have hvalues : (planParameters plan).values = (planParameters incoming).values :=
      (hsnd plan).symm.trans ((congrArg (List.map Prod.snd) h).trans (hsnd incoming))
    rw [hzip plan, hvalues, ← hzip incoming]

/-! ### Evidence and events -/

theorem roundTrips_evidence {evidence : Evidence} (goalId : GoalId) (runId : Option RunId) (digest : String)
    (hattached : InRange evidence.attachedAt) : (WrittenRows.evidence goalId runId digest).RoundTrips evidence := by
  have htask : (evidence.taskId.map TaskId.value).map TaskId.mk = evidence.taskId := by
    cases evidence.taskId <;> rfl
  refine .of_kept (Insert.row_eq rfl (by decide)) ?_ rfl rfl
  simp only [WrittenRows.evidence, upsertEvidence, parametersForEvidence, Dict.values, List.map_cons, List.map_nil,
    List.zip_cons_cons, List.zip_nil_left]
  simp only [readEvidence, Row.moment, Row.string, Row.nullableString, cell_cons_self, cell_cons_of_ne, ne_eq,
    String.reduceEq, not_false_eq_true, momentOf_text hattached, ok_bind, getString_text, nullable_ofOption,
    ofText_text, htask]
  rfl

/-- The row of an event whose payload is written as a text. -/
def eventRow (event : DomainEvent) (payload : String) : Row :=
  [("id", .text event.id), ("timestamp", .text (StoredMoments.text event.timestamp)),
    ("project_id", .text event.projectId), ("run_id", .ofOption (event.runId.map RunId.value)),
    ("type", .text (Spelled.text event.type)), ("version", .integer 1), ("payload", .text payload)]

theorem write_event (event : DomainEvent) :
    events.write event = (toJsonString event.payload).map (eventRow event) := by
  show (parametersForEvent event >>= insertEvent.row) = _
  rw [parametersForEvent]
  cases toJsonString event.payload with
  | error e => rfl
  | ok payload =>
    rw [ok_bind]
    exact Insert.row_eq rfl (by decide)

theorem read_eventRow {event : DomainEvent} {payload : String} (htimestamp : InRange event.timestamp) :
    events.read (eventRow event payload) =
      (parse payload).map fun node => { Database.persistedEvent event with payload := asObject node } := by
  have hrun : (event.runId.map RunId.value).map RunId.mk = event.runId := by
    cases event.runId <;> rfl
  simp only [events, eventRow]
  simp only [readEvent, Row.moment, Row.string, Row.nullableString, cell_cons_self, cell_cons_of_ne, ne_eq,
    String.reduceEq, not_false_eq_true, momentOf_text htimestamp, ok_bind, getString_text, nullable_ofOption,
    ofText_text, hrun]
  cases parse payload <;> rfl

/-- An event comes back exactly where a reader of JSON goes as deep as its payload. -/
theorem roundTrips_event_iff {event : DomainEvent} (htimestamp : InRange event.timestamp)
    (hobject : asObject event.payload = event.payload) (hspelled : PyJson.wellSpelled event.payload = true) :
    events.RoundTrips event ↔ event.payload.depth ≤ JsonNode.readDepth := by
  constructor
  · rintro ⟨row, back, hwrite, hread, -, -⟩
    by_contra hdeep
    rw [write_event] at hwrite
    cases htext : toJsonString event.payload with
    | error e =>
      rw [htext] at hwrite
      cases hwrite
    | ok payload =>
      have hpayload : payload = event.payload.toJsonString := by
        unfold toJsonString at htext
        split at htext
        · next text hsome =>
          obtain rfl := Except.ok.inj htext
          exact (JsonNode.toJsonString_eq_some.mp hsome).2
        · cases htext
      rw [htext] at hwrite
      obtain rfl := Except.ok.inj hwrite
      rw [read_eventRow htimestamp, hpayload, parse, JsonNode.parse_toJsonString hspelled, if_neg hdeep] at hread
      cases hread
  · intro hdepth
    have htext := toJsonString_of_le (Nat.le_trans hdepth (by decide : JsonNode.readDepth ≤ JsonNode.writeDepth))
    have hwrite : events.write event = .ok (eventRow event event.payload.toJsonString) := by
      rw [write_event, htext]
      rfl
    refine .of_kept hwrite ?_ rfl ?_
    · rw [read_eventRow htimestamp, parse_toJsonString hspelled hdepth]
      show Except.ok { Database.persistedEvent event with payload := asObject event.payload } = _
      rw [hobject]
      rfl
    · rw [hwrite]
      show events.write (Database.persistedEvent event) = _
      rw [write_event]
      show (toJsonString event.payload).map _ = _
      rw [htext]
      rfl

/-! ## All of them -/

/-- One value of each kind, as the program can hold them: moments that there are, and a payload that is an object whose
numbers are numbers. -/
structure Values where
  run : Run
  task : RunTask
  attempt : Attempt
  plan : Plan
  incoming : Plan
  evidence : Evidence
  goalId : GoalId
  runId : Option RunId
  digest : String
  event : DomainEvent
  runMoments : InRange run.createdAt ∧ (∀ m ∈ run.startedAt, InRange m) ∧ ∀ m ∈ run.completedAt, InRange m
  taskMoment : InRange task.createdAt
  attemptMoments : InRange attempt.createdAt ∧ (∀ m ∈ attempt.startedAt, InRange m) ∧
    ∀ m ∈ attempt.completedAt, InRange m
  planMoments : InRange plan.createdAt ∧ InRange incoming.createdAt
  evidenceMoment : InRange evidence.attachedAt
  eventMoment : InRange event.timestamp
  payloadObject : asObject event.payload = event.payload
  payloadSpelled : PyJson.wellSpelled event.payload = true

/-- Values of every kind come back from their rows and are written as the same rows again, and `WouldChange` says of a
plan that was read whether writing another one would change a column. -/
structure RowsRoundTrip (v : Values) : Prop where
  run : runs.RoundTrips v.run
  task : tasks.RoundTrips v.task
  attempt : attempts.RoundTrips v.attempt
  plan : plans.RoundTrips v.plan
  evidence : (WrittenRows.evidence v.goalId v.runId v.digest).RoundTrips v.evidence
  event : events.RoundTrips v.event
  wouldChange : ∃ row existing after answer, plans.write v.plan = .ok row ∧ plans.read row = .ok existing ∧
    plans.write v.incoming = .ok after ∧ WrittenRows.wouldChange existing v.incoming = .ok answer ∧
      (answer = true ↔ ∃ column, row.get? column ≠ after.get? column)

/-- **Rows come back**, but for a payload that is nested deeper than a reader of JSON goes. -/
theorem rows_round_trip_iff (v : Values) : RowsRoundTrip v ↔ v.event.payload.depth ≤ 64 := by
  have hevent := roundTrips_event_iff v.eventMoment v.payloadObject v.payloadSpelled
  constructor
  · intro h
    exact hevent.mp h.event
  · intro hdepth
    obtain ⟨hcreated, hstarted, hcompleted⟩ := v.runMoments
    obtain ⟨hcreated', hstarted', hcompleted'⟩ := v.attemptMoments
    obtain ⟨answer, hanswer, hiff⟩ := wouldChange_persisted v.plan v.incoming
    exact {
      run := roundTrips_run hcreated hstarted hcompleted
      task := roundTrips_task v.taskMoment
      attempt := roundTrips_attempt hcreated' hstarted' hcompleted'
      plan := roundTrips_plan v.planMoments.1
      evidence := roundTrips_evidence _ _ _ v.evidenceMoment
      event := hevent.mpr hdepth
      wouldChange := ⟨_, _, _, answer, write_plan v.plan, read_plan v.planMoments.1, write_plan v.incoming, hanswer,
        hiff⟩ }

/-! ### A payload that is lost -/

/-- Objects in one another. -/
def nested : Nat → Json
  | 0 => .obj []
  | n + 1 => .obj [("detail", nested n)]

theorem depth_nested (n : Nat) : (nested n).depth = n + 1 := by
  induction n with
  | zero => rfl
  | succ n ih => rw [nested, Json.depth, Json.depthMembers, Json.depthMembers, ih, Nat.max_zero]

theorem wellSpelled_nested (n : Nat) : PyJson.wellSpelled (nested n) = true := by
  induction n with
  | zero => rfl
  | succ n ih => rw [nested, PyJson.wellSpelled, PyJson.membersWellSpelled, PyJson.membersWellSpelled, ih, Bool.and_self]

def deepEvent : DomainEvent where
  id := "event-1"
  timestamp := ⟨0, 0⟩
  type := .stateChange
  projectId := "project"
  runId := none
  payload := nested 64

def deepValues : Values where
  run := ⟨⟨"run"⟩, "project", ⟨"goal"⟩, "1", .created, .agentic, ⟨0, 0⟩, none, none⟩
  task := ⟨⟨"task"⟩, ⟨"run"⟩, "objective", none, .low, [], .planned, [], ⟨0, 0⟩⟩
  attempt := ⟨⟨"attempt"⟩, ⟨"task"⟩, ⟨"run"⟩, none, none, none, .created, ⟨0, 0⟩, none, none, none⟩
  plan := ⟨⟨"plan"⟩, "project", ⟨"goal"⟩, "1", .draft, .agentic, "runner", "main", ⟨0, 0⟩, []⟩
  incoming := ⟨⟨"plan"⟩, "project", ⟨"goal"⟩, "1", .locked, .agentic, "runner", "main", ⟨0, 0⟩, []⟩
  evidence := ⟨⟨"evidence"⟩, .build, "log", .passed, "", none, ⟨0, 0⟩⟩
  goalId := ⟨"goal"⟩
  runId := none
  digest := ""
  event := deepEvent
  runMoments := ⟨Nat.zero_le _, fun _ h => absurd h.symm (Option.some_ne_none _),
    fun _ h => absurd h.symm (Option.some_ne_none _)⟩
  taskMoment := Nat.zero_le _
  attemptMoments := ⟨Nat.zero_le _, fun _ h => absurd h.symm (Option.some_ne_none _),
    fun _ h => absurd h.symm (Option.some_ne_none _)⟩
  planMoments := ⟨Nat.zero_le _, Nat.zero_le _⟩
  evidenceMoment := Nat.zero_le _
  eventMoment := Nat.zero_le _
  payloadObject := rfl
  payloadSpelled := wellSpelled_nested 64

/-- The event is written, and its row cannot be read. -/
theorem deep_payload_is_lost : (∃ row, events.write deepEvent = .ok row ∧ ∃ e, events.read row = .error e) ∧
    ¬ RowsRoundTrip deepValues := by
  have hdepth : ¬ (nested 64).depth ≤ JsonNode.readDepth := by
    rw [depth_nested]
    decide
  have hle : (nested 64).depth ≤ JsonNode.writeDepth := by
    rw [depth_nested]
    decide
  refine ⟨⟨eventRow deepEvent (nested 64).toJsonString, ?_, .other "The JSON value could not be read.", ?_⟩, fun h => ?_⟩
  · rw [write_event]
    show (toJsonString (nested 64)).map _ = _
    rw [toJsonString_of_le hle]
    rfl
  · rw [read_eventRow (Nat.zero_le _), parse, JsonNode.parse_toJsonString (wellSpelled_nested 64), if_neg hdepth]
    rfl
  · exact hdepth ((roundTrips_event_iff deepValues.eventMoment deepValues.payloadObject deepValues.payloadSpelled).mp
      h.event)

end WrittenRows

end AtlasFlow
