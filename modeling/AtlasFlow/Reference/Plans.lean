import AtlasFlow.Reference.Dag

/-!
# Plans that are kept, and what they are drawn from

`execution/plans.py`, `goals/models.py`, and `plan_for_goal`. Of a goal only what a plan is drawn from is
here. That a stored plan is read back as it was written is taken for granted: its tasks are one JSON text.
-/

namespace AtlasFlow.Reference

open SqlValues (text)

/-! ## Plans -/

structure PlanTask where
  id : String
  objective : String
  dependencies : List String := []
  writeScope : List String := []
  gates : List String := []
  risk : RiskLevel := .medium
  capabilities : List String := []
  deriving DecidableEq, Repr

/-- `PlanTask.of`. -/
def PlanTask.of (task : TaskNode) : PlanTask :=
  ⟨task.id, task.objective, task.dependencies, task.writeScope, task.gates, task.risk, task.capabilities⟩

/-- `PlanTask.to_task_node`. -/
def PlanTask.toTaskNode (task : PlanTask) : TaskNode :=
  ⟨task.id, task.objective, task.dependencies, task.writeScope, task.gates, task.risk, task.capabilities⟩

structure PlanRecord where
  id : PlanId
  projectId : String
  goalId : String
  goalRevision : String
  state : PlanState := .draft
  autonomy : String := "agentic"
  runner : String := "dummy"
  integrationTarget : String := "main"
  createdAt : String
  tasks : List PlanTask := []
  deriving DecidableEq, Repr

/-- `PlanRecord.to_plan`. -/
def PlanRecord.toPlan (record : PlanRecord) : Plan := ⟨record.goalId, record.tasks.map PlanTask.toTaskNode⟩

/-! ## Goals -/

/-- For each gate, "required" or "optional". -/
structure GoalGates where
  build : String
  tests : String
  review : String
  documentation : String
  deriving DecidableEq, Repr

structure Goal where
  id : String
  acceptance : List String := []
  gates : GoalGates
  deriving DecidableEq, Repr

/-- `goal.gates.model_dump().items()`. -/
def GoalGates.items (gates : GoalGates) : List (GateKind × String) :=
  [(.build, gates.build), (.tests, gates.tests), (.review, gates.review), (.documentation, gates.documentation)]

/-- `required_gates`. -/
def requiredGates (goal : Goal) : List GateKind :=
  (goal.gates.items.filter fun item => item.2 = "required").map Prod.fst

/-- `plan_for_goal`. -/
def planForGoal (goal : Goal) : Plan where
  goalId := goal.id
  tasks := (goal.acceptance.zipIdx 1).map fun (criterion, index) =>
    { id := s!"{goal.id}-t{index}", objective := criterion, gates := (requiredGates goal).map text }

/-- A record keeps the plan it is made of. -/
@[simp] theorem PlanTask.toTaskNode_of (task : TaskNode) : (PlanTask.of task).toTaskNode = task := rfl

theorem map_toTaskNode_of (tasks : List TaskNode) : (tasks.map PlanTask.of).map PlanTask.toTaskNode = tasks := by
  rw [List.map_map]
  exact List.map_id tasks

end AtlasFlow.Reference
