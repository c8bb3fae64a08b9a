import AtlasFlow.Orchestration.TaskGraph
import AtlasFlow.Persistence.PlanRepository

/-!
# Locking a plan and starting a run from it

`PlanService.LockAsync` and `RunService.StartAsync`. Both read the plan, check its state, and write
it through `PlanRepository.SaveAsync`, which reads it again.
-/

namespace AtlasFlow

open Concurrency

namespace PlanService

def noPlan (id : PlanId) : Exn := .planState s!"No plan '{id.value}'"

def alreadyIn (id : PlanId) (state : PlanState) : Exn :=
  .planState s!"Plan {id.value} is already {state.name}"

def describe (c : TaskGraph.WriteScopeConflict) : String :=
  s!"{c.first.value} and {c.second.value} both write '{c.sharedPath}'"

def overlapping (conflicts : List TaskGraph.WriteScopeConflict) : Exn :=
  let described := "; ".intercalate (conflicts.map describe)
  .planState s!"Cannot lock a plan with overlapping write scopes: {described}"

/-- `LockAsync`. -/
def lockAsync (id : PlanId) (ct : CancellationToken) : Program Plan := do
  match ← PlanRepository.findAsync id ct with
  | none => throw (noPlan id)
  | some plan =>
      if plan.state ≠ .draft then throw (alreadyIn id plan.state)
      else
        let conflicts := TaskGraph.findWriteScopeConflicts plan.tasks
        if conflicts.length > 0 then throw (overlapping conflicts)
        else
          let locked := { plan with state := .locked }
          PlanRepository.saveAsync locked ct
          return locked

end PlanService

namespace RunService

/-- What a start request names. `GoalId` and `Runner` are not read. -/
structure StartRunRequest where
  planId : Option PlanId
  deriving DecidableEq

def notLocked (id : PlanId) (state : PlanState) : Exn :=
  .planState s!"Plan {id.value} is {state.name}, not LOCKED"

def mustNameAPlan : Exn :=
  .planState ("A run must name a locked plan. Planning and running in one step is a CLI " ++
    "affordance that is not ported yet.")

/-- `LockedPlanFor`. -/
def lockedPlanFor (request : StartRunRequest) (ct : CancellationToken) : Program Plan :=
  match request.planId with
  | none => throw mustNameAPlan
  | some planId => do
      match ← PlanRepository.findAsync planId ct with
      | none => throw (PlanService.noPlan planId)
      | some plan => if plan.state = .locked then return plan else throw (notLocked planId plan.state)

/-- `StartAsync`, for the project `projectId`. -/
def startAsync (projectId : String) (request : StartRunRequest) (ct : CancellationToken) :
    Program Run := do
  let plan ← lockedPlanFor request ct
  let id ← Prog.op .newRunId
  let now ← Prog.op .utcNow
  let run : Run := {
    id, projectId, goalId := plan.goalId, goalRevision := plan.goalRevision, state := .created,
    autonomy := plan.autonomy, createdAt := now }
  Prog.ofExcept (← Prog.op (.execute (.run run) ct))
  PlanRepository.saveAsync { plan with state := .consumed } ct
  Prog.op (Op.startInBackground run plan)
  return run

end RunService

end AtlasFlow
