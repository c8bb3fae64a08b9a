import AtlasFlow.Domain.Execution

/-!
# Plans

`AtlasFlow.Domain.Planning`: the task graph a person reviews before any run exists.
-/

namespace AtlasFlow

inductive PlanState | draft | locked | consumed
  deriving DecidableEq, Repr, Inhabited

inductive GateKind | build | tests | review | documentation
  deriving DecidableEq, Repr, Inhabited

/-- One node of a proposed task graph. -/
structure PlanTask where
  id : TaskId
  objective : String
  risk : RiskLevel
  isParallelizable : Bool
  dependencies : List TaskId := []
  writeScope : List ProjectPath := []
  gates : List GateKind := []
  capabilities : List String := []
  deriving DecidableEq, Repr, Inhabited

/-- A reviewable snapshot of how a Goal would be executed. -/
structure Plan where
  id : PlanId
  projectId : String
  goalId : GoalId
  goalRevision : String
  state : PlanState
  autonomy : AutonomyLevel
  runner : String
  integrationTarget : String
  createdAt : DateTimeOffset
  tasks : List PlanTask := []
  deriving DecidableEq, Repr, Inhabited

end AtlasFlow
