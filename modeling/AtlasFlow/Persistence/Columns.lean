import AtlasFlow.Data.Moments
import AtlasFlow.Persistence.Rows

/-!
# Rows as the database file holds them

The columns of the six tables with their moments as texts, and the reading of such a row by the
repositories: every moment is parsed, every JSON column is parsed, and what they denote is the row of
`Persistence.Rows`, which is read as there. A JSON column is the tree of its text, with the three
literals that Python writes for the numbers that are none and that no JSON text has.
-/

namespace Json

/-- What `json.dumps` writes for a float that is not finite. -/
def nonFinite : List String := ["NaN", "Infinity", "-Infinity"]

mutual

/-- Whether the text of a tree is JSON. -/
def isStandard : Json → Bool
  | .num literal => literal ∉ nonFinite
  | .arr items => standardItems items
  | .obj members => standardMembers members
  | .null | .bool _ | .str _ => true

def standardItems : List Json → Bool
  | [] => true
  | item :: items => isStandard item && standardItems items

def standardMembers : List (String × Json) → Bool
  | [] => true
  | (_, value) :: members => isStandard value && standardMembers members

end

theorem standardItems_eq_true {items : List Json} :
    standardItems items = true ↔ ∀ item ∈ items, item.isStandard = true := by
  induction items with
  | nil => simp [standardItems]
  | cons item items ih => simp [standardItems, ih]

end Json

namespace AtlasFlow

open SqlValues

/-! ## Evidence

`AtlasFlow.Domain.Verification`. -/

inductive Verdict | pending | passed | failed
  deriving DecidableEq, Repr, Inhabited

structure EvidenceId where
  value : String
  deriving DecidableEq, Repr, Inhabited

/-- One artefact offered as proof that a gate passed. -/
structure Evidence where
  id : EvidenceId
  gate : GateKind
  kind : String
  verdict : Verdict
  uri : String
  taskId : Option TaskId
  attachedAt : DateTimeOffset
  deriving DecidableEq, Repr, Inhabited

instance : Spelled Verdict where
  typeName := "Verdict"
  text
    | .passed => "PASSED"
    | .failed => "FAILED"
    | .pending => "PENDING"
  switch := [("PASSED", .passed), ("FAILED", .failed), ("PENDING", .pending)]
  switch_text a := by cases a <;> decide
  switch_sound := by decide

/-! ## Columns -/

/-- `DateTimeOffset.Parse` of a column. Every moment is written in UTC, so the instant says all. -/
def instantOf (column : String) : Except Exn Nat :=
  match Moments.parse column with
  | some (ticks, _) => .ok ticks
  | none => .error (.other s!"String '{column}' was not recognized as a valid DateTime.")

/-- `JsonNode.Parse` of a column. -/
def parseNode (column : Json) : Except Exn Json :=
  if column.isStandard then .ok column else .error (.other "The JSON value is invalid.")

/-- `runs`. -/
structure RunColumns where
  id : String
  projectId : String
  goalId : String
  goalRevision : String
  state : String
  autonomy : String
  createdAt : String
  startedAt : Option String
  completedAt : Option String
  deriving DecidableEq, Repr

/-- `RunRepository.ReadRun`. -/
def RunColumns.read (row : RunColumns) : Except Exn Run := do
  let createdAt ← instantOf row.createdAt
  let startedAt ← row.startedAt.mapM instantOf
  let completedAt ← row.completedAt.mapM instantOf
  RunRow.read {
    id := row.id, projectId := row.projectId, goalId := row.goalId, goalRevision := row.goalRevision,
    state := row.state, autonomy := row.autonomy, createdAt, startedAt, completedAt }

/-- `tasks`. -/
structure TaskColumns where
  id : String
  runId : String
  objective : String
  role : Option String
  risk : String
  scope : Json
  state : String
  dependencies : Json
  createdAt : String
  deriving DecidableEq, Repr

/-- `RunRepository.ReadTask`. -/
def TaskColumns.read (row : TaskColumns) : Except Exn RunTask := do
  let scope ← parseNode row.scope
  let dependencies ← parseNode row.dependencies
  let createdAt ← instantOf row.createdAt
  TaskRow.read {
    id := row.id, runId := row.runId, objective := row.objective, role := row.role, risk := row.risk,
    scope, state := row.state, dependencies, createdAt }

/-- `attempts`. -/
structure AttemptColumns where
  id : String
  taskId : String
  runId : String
  runner : Option String
  modelProvider : Option String
  modelId : Option String
  state : String
  createdAt : String
  startedAt : Option String
  completedAt : Option String
  errorMsg : Option String
  deriving DecidableEq, Repr

/-- `RunRepository.ReadAttempt`. -/
def AttemptColumns.read (row : AttemptColumns) : Except Exn Attempt := do
  let createdAt ← instantOf row.createdAt
  let startedAt ← row.startedAt.mapM instantOf
  let completedAt ← row.completedAt.mapM instantOf
  AttemptRow.read {
    id := row.id, taskId := row.taskId, runId := row.runId, runner := row.runner,
    modelProvider := row.modelProvider, modelId := row.modelId, state := row.state, createdAt, startedAt,
    completedAt, error := row.errorMsg }

/-- `events`. -/
structure EventColumns where
  id : String
  timestamp : String
  projectId : String
  runId : Option String
  type : String
  version : Nat
  payload : Json
  deriving DecidableEq, Repr

/-- `node as JsonObject ?? []`. -/
def asObject : Json → Json
  | .obj members => .obj members
  | _ => .obj []

/-- `EventStore.Read`. -/
def EventColumns.read (row : EventColumns) : Except Exn DomainEvent := do
  let timestamp ← instantOf row.timestamp
  let type ← ofText row.type
  let payload ← parseNode row.payload
  return {
    id := row.id, timestamp := momentOf timestamp, type, projectId := row.projectId,
    runId := row.runId.map RunId.mk, payload := asObject payload }

/-- `evidence`. -/
structure EvidenceColumns where
  id : String
  goalId : String
  runId : Option String
  taskId : Option String
  gate : String
  kind : String
  uri : String
  digest : String
  verdict : String
  attachedAt : String
  deriving DecidableEq, Repr

/-- `EvidenceRepository.Read`. -/
def EvidenceColumns.read (row : EvidenceColumns) : Except Exn Evidence := do
  let gate ← ofText row.gate
  let verdict ← ofText row.verdict
  let attachedAt ← instantOf row.attachedAt
  return {
    id := ⟨row.id⟩, gate, kind := row.kind, uri := row.uri, verdict, taskId := row.taskId.map TaskId.mk,
    attachedAt := momentOf attachedAt }

/-- `plans`. -/
structure PlanColumns where
  id : String
  projectId : String
  goalId : String
  goalRevision : String
  state : String
  autonomy : String
  runner : String
  integrationTarget : String
  createdAt : String
  tasks : Json
  deriving DecidableEq, Repr

/-- `PlanRepository.Read`. -/
def PlanColumns.read (row : PlanColumns) : Except Exn Plan := do
  let createdAt ← instantOf row.createdAt
  let tasks ← parseNode row.tasks
  PlanRow.read {
    id := row.id, projectId := row.projectId, goalId := row.goalId, goalRevision := row.goalRevision,
    state := row.state, autonomy := row.autonomy, runner := row.runner,
    integrationTarget := row.integrationTarget, createdAt, tasks }

/-! ## What is read of a column -/

@[simp] theorem instantOf_isoformat (d : Moments.DateTime) : instantOf d.isoformat = .ok d.ticks := by
  rw [instantOf, Moments.parse_isoformat]

theorem parseNode_of_isStandard {column : Json} (h : column.isStandard = true) : parseNode column = .ok column :=
  if_pos h

theorem parseNode_eq_ok {column node : Json} (h : parseNode column = .ok node) :
    column.isStandard = true ∧ node = column := by
  unfold parseNode at h
  split at h
  · next hstandard => cases h; exact ⟨hstandard, rfl⟩
  · cases h

theorem isStandard_json (values : List String) : (json values).isStandard = true := by
  rw [json, Json.isStandard, Json.standardItems_eq_true]
  intro item hitem
  obtain ⟨value, _, rfl⟩ := List.mem_map.mp hitem
  rfl

@[simp] theorem parseNode_json (values : List String) : parseNode (json values) = .ok (json values) :=
  parseNode_of_isStandard (isStandard_json values)

end AtlasFlow
