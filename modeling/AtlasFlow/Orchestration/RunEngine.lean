import AtlasFlow.Orchestration.Scheduler
import AtlasFlow.Orchestration.TaskGraph

/-!
# Driving a run

`RunEngine.ExecuteAsync`: plan, schedule, then pass after pass of the ready tasks, until a pass finds
none. The loop starts again from `Point.pass`.
-/

namespace AtlasFlow

open Concurrency

namespace RunEngine

/-! ## Materialising a plan -/

/-- `plan.Tasks.ToDictionary(node => node.Id, _ => IdFactory.NewTask())`. -/
def rewrite : List PlanTask → List (TaskId × TaskId) → Program (List (TaskId × TaskId))
  | [], rewritten => return rewritten
  | node :: nodes, rewritten => do
      let id ← Prog.op .newTaskId
      if rewritten.any fun entry => entry.1 = node.id then
        throw (.argument "An item with the same key has already been added.")
      else rewrite nodes (rewritten ++ [(node.id, id)])

/-- `rewritten[id]`. -/
def rewrittenId (rewritten : List (TaskId × TaskId)) (id : TaskId) : Except Exn TaskId :=
  match Table.lookup Prod.fst id rewritten with
  | some entry => .ok entry.2
  | none => .error .keyNotFound

/-- The task of one node. -/
def taskOf (rewritten : List (TaskId × TaskId)) (runId : RunId) (now : DateTimeOffset)
    (node : PlanTask) : Except Exn RunTask := do
  let id ← rewrittenId rewritten node.id
  let dependencies ← node.dependencies.mapM (rewrittenId rewritten)
  return {
    id, runId, objective := node.objective, state := .planned, risk := node.risk, createdAt := now,
    role := some (node.capabilities.headD "core-implementer"), writeScope := node.writeScope,
    dependencies }

/-- `Materialize`. -/
def materialize (plan : Plan) (runId : RunId) : Program (List RunTask) := do
  let now ← Prog.op .utcNow
  let rewritten ← rewrite plan.tasks []
  Prog.ofExcept (plan.tasks.mapM (taskOf rewritten runId now))

/-! ## The loop -/

variable (projectId : String)

/-- `RunOneAsync`. -/
def runOneAsync (planned : RunTask) (ct : CancellationToken) : Program Unit := do
  let task ← Scheduler.markReadyAsync projectId planned ct
  let task ← Scheduler.startTaskAsync projectId task ct
  let answer : Except Exn TaskOutcome ← Prog.op (Op.runTask task)
  match answer with
  | .error .operationCanceled =>
      let _ ← Scheduler.cancelTaskAsync projectId task "cancelled by request" .none
  | .error exc =>
      let _ ← Scheduler.failTaskAsync projectId task exc.message ct
  | .ok outcome =>
      if outcome.isSuccess then
        let _ ← Scheduler.completeTaskAsync projectId task ct
      else
        let _ ← Scheduler.failTaskAsync projectId task outcome.detail ct

/-- Where `ExecuteAsync` goes round. -/
inductive Point
  | start
  | pass (run : Run)

/-- `ExecuteAsync` up to its loop. -/
def schedule (created : Run) (plan : Plan) (ct : CancellationToken) : Program (Point ⊕ Run) := do
  let run ← Scheduler.startAsync projectId created ct
  let tasks ← materialize plan run.id
  let run ← Scheduler.scheduleAsync projectId run tasks ct
  let run ← Scheduler.advanceAsync projectId run .running ct
  return .inl (.pass run)

/-- What follows the loop. -/
def finish (run : Run) (ct : CancellationToken) : Program (Point ⊕ Run) := do
  let _ ← Scheduler.evaluateCompletionAsync projectId run ct
  return .inr ((← RunRepository.findAsync run.id ct).getD run)

/-- One round of the loop. -/
def pass (run : Run) (ct : CancellationToken) : Program (Point ⊕ Run) := do
  if ← Prog.op .isCancellationRequested then
    return .inr (← Scheduler.cancelRunAsync projectId run "cancelled by request" .none)
  else
    let current ← RunRepository.listTasksAsync run.id ct
    let ready ← Prog.ofExcept (Scheduler.readyTasks current)
    if ready.length = 0 then finish projectId run ct
    else
      Prog.forEach (fun planned => runOneAsync projectId planned ct) ready
      return .inl (.pass run)

/-- `ExecuteAsync`. -/
def executeAsync (created : Run) (plan : Plan) (ct : CancellationToken) :
    Point → Program (Point ⊕ Run)
  | .start => schedule projectId created plan ct
  | .pass run => pass projectId run ct

end RunEngine

end AtlasFlow
