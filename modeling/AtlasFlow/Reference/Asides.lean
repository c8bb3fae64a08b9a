import AtlasFlow.Concurrency.Monitor
import AtlasFlow.Reference.GoalRunner

/-!
# What has nothing to do with attempts

Most of what a `GoalRunner` does around its attempts — moving runs and tasks, evidence, worktrees, gates —
neither touches the budget, nor starts or ends an attempt, nor creates a coroutine.
-/

namespace AtlasFlow.Reference

open Concurrency
open Prog (Calls)

/-- A call that has nothing to do with the budget, attempts and coroutines. -/
def Op.Aside : Op → Prop
  | .setBudget _ | .reserveAttempt | .commitAttempt .. | .startRunner .. | .awaitRunner _ | .gather .. | .begin =>
    False
  | _ => True

namespace Persistence

theorem guard_calls (allowed : Bool) (domain entityId fromState toState : String) :
    (guard allowed domain entityId fromState toState).Calls Op.Aside := by
  unfold guard
  split <;> trivial

theorem recordRunTransition_calls (run : Run) (toState : RunState) (event : DomainEvent) :
    (recordRunTransition run toState event).Calls Op.Aside :=
  (guard_calls ..).bind fun _ => ⟨trivial, fun _ => ⟨trivial, fun _ => trivial⟩⟩

theorem recordTaskTransition_calls (task : Task) (toState : TaskState) (event : DomainEvent) :
    (recordTaskTransition task toState event).Calls Op.Aside :=
  (guard_calls ..).bind fun _ => ⟨trivial, fun _ => ⟨trivial, fun _ => trivial⟩⟩

end Persistence

theorem newEvent_calls (projectId : String) (runId : RunId) (type : EventType) (payload : List (String × Json)) :
    (newEvent projectId runId type payload).Calls Op.Aside :=
  ⟨trivial, fun _ => trivial⟩

namespace Scheduler

variable (projectId : String)

theorem moveRun_calls (run : Run) (toState : RunState) (type : EventType) (extra : List (String × Json)) :
    (moveRun run toState type extra).Calls Op.Aside :=
  (newEvent_calls ..).bind fun _ => Persistence.recordRunTransition_calls ..

theorem moveTask_calls (task : Task) (toState : TaskState) (type : EventType) (extra : List (String × Json)) :
    (moveTask projectId task toState type extra).Calls Op.Aside :=
  (newEvent_calls ..).bind fun _ => Persistence.recordTaskTransition_calls ..

theorem scheduleTasks_calls (run : Run) (tasks : List Task) : (scheduleTasks run tasks).Calls Op.Aside :=
  (Calls.forEach (fun _ => Prog.calls_op.mpr trivial) _).bind fun _ => moveRun_calls ..

theorem cancelRun_calls (run : Run) (reason : String) : (cancelRun projectId run reason).Calls Op.Aside := by
  refine ⟨trivial, fun tasks => (Calls.forEach (fun task => ?_) _).bind fun _ => ⟨trivial, fun stored => ?_⟩⟩
  · split
    · exact (moveTask_calls ..).bind fun _ => trivial
    · trivial
  · show Calls Op.Aside (if _ then _ else _)
    split
    · exact moveRun_calls ..
    · trivial

theorem evaluateRunCompletion_calls (run : Run) : (evaluateRunCompletion run).Calls Op.Aside := by
  have hmove : ∀ (toState : RunState) (b : Bool),
      ((advanceRun run toState).bind fun _ => .ret b).Calls Op.Aside :=
    fun _ _ => (moveRun_calls ..).bind fun _ => trivial
  refine ⟨trivial, fun tasks => ?_⟩
  show Calls Op.Aside (if _ then _ else _)
  split
  · trivial
  split
  · exact hmove ..
  split
  · exact hmove ..
  split
  · exact hmove ..
  · trivial

end Scheduler

theorem reload_calls (task : Task) : (reload task).Calls Op.Aside := ⟨trivial, fun _ => trivial⟩

theorem recordGate_calls (run : Run) (task : Task) (gate : GateKind) (verdict : GateVerdict) (detail kind : String) :
    (recordGate run task gate verdict detail kind).Calls Op.Aside :=
  ⟨trivial, fun _ => trivial⟩

theorem runGateCommand_calls (gate : GateKind) (command : String) :
    (runGateCommand gate command).Calls Op.Aside := by
  refine ⟨trivial, fun words => (Prog.calls_ofExcept words).bind fun argv => ?_⟩
  show Calls Op.Aside (if _ then _ else _)
  split
  · trivial
  · refine ⟨trivial, fun launched => ?_⟩
    simp only [Prog.ret_bind]
    split
    · trivial
    · trivial
    · trivial
    · refine ⟨trivial, fun communicated => ?_⟩
      simp only [Prog.ret_bind]
      split
      · trivial
      · show Calls Op.Aside (if _ then _ else _)
        split <;> trivial

theorem cancelRunRoute_calls (runId : RunId) : (cancelRunRoute runId).Calls Op.Aside := by
  refine ⟨trivial, fun stored => ?_⟩
  simp only [Prog.ret_bind]
  split
  · trivial
  · show Calls Op.Aside (if _ then _ else _)
    split
    · refine ⟨trivial, fun _ => ⟨trivial, fun tasks => (Calls.forEach (fun task => ?_) _).bind fun _ =>
        ⟨trivial, fun _ => trivial⟩⟩⟩
      exact ⟨trivial, fun _ => trivial⟩
    · trivial

namespace GoalRunner

variable (g : GoalRunner)

theorem observe_calls (run : Run) (task : Task) (modelKey role : String) (result : RunnerResult) :
    (g.observe run task modelKey role result).Calls Op.Aside := by
  refine ⟨trivial, fun _ => ?_⟩
  show Calls Op.Aside (if _ then _ else _)
  split
  · exact ⟨trivial, fun _ => trivial⟩
  · trivial

theorem isolate_calls (run : Run) (task : Task) (node : TaskNode) : (g.isolate run task node).Calls Op.Aside := by
  unfold isolate
  split
  · exact ⟨trivial, fun made => (Prog.calls_ofExcept made).bind fun _ => trivial⟩
  · trivial

theorem failBuild_calls (run : Run) (task : Task) (outcome : TaskOutcome) (error : String) :
    (g.failBuild run task outcome error).Calls Op.Aside :=
  (recordGate_calls ..).bind fun _ => (Scheduler.moveTask_calls ..).bind fun _ => trivial

theorem passBuild_calls (run : Run) (task : Task) (outcome : TaskOutcome) (attempt : Attempt) :
    (g.passBuild run task outcome attempt).Calls Op.Aside :=
  (recordGate_calls ..).bind fun _ => (Scheduler.moveTask_calls ..).bind fun _ => trivial

theorem stopTask_calls (run : Run) (task : Task) (outcome : TaskOutcome) :
    (g.stopTask run task outcome).Calls Op.Aside := by
  refine (recordGate_calls ..).bind fun _ => ?_
  split
  · exact (Scheduler.moveTask_calls ..).bind fun _ => trivial
  · trivial

theorem mergeTask_calls (run : Run) (task : Task) (outcome : TaskOutcome) (worktree : Option Worktree)
    (attempt : Attempt) : (g.mergeTask run task outcome worktree attempt).Calls Op.Aside := by
  unfold mergeTask
  split
  · exact passBuild_calls ..
  · refine ⟨trivial, fun committed => (Prog.calls_ofExcept committed).bind fun _ => ⟨trivial, fun integrated =>
      (Prog.calls_ofExcept integrated).bind fun integration => ?_⟩⟩
    dsimp only
    split
    · exact passBuild_calls ..
    · exact failBuild_calls ..

theorem verifyDeclaredGates_calls (run : Run) (gates : List GateKind) :
    (g.verifyDeclaredGates run gates).Calls Op.Aside := by
  induction gates with
  | nil => trivial
  | cons gate rest ih =>
      unfold verifyDeclaredGates
      split
      · exact ih
      · exact (runGateCommand_calls ..).bind fun _ => ⟨trivial, fun _ => ih.bind fun _ => trivial⟩

theorem stopRun_calls (run : Run) (outcomes : List TaskOutcome) : (g.stopRun run outcomes).Calls Op.Aside :=
  ⟨trivial, fun _ => (Scheduler.cancelRun_calls ..).bind fun _ => ⟨trivial, fun _ => ⟨trivial, fun _ => trivial⟩⟩⟩

theorem settleRun_calls (run : Run) (outcomes : List TaskOutcome) : (g.settleRun run outcomes).Calls Op.Aside := by
  refine ⟨trivial, fun tasks => ?_⟩
  simp only [Prog.ret_bind, Prog.bind_eq]
  have hrest : ∀ gates : List GateOutcome, ((Scheduler.evaluateRunCompletion run).bind fun _ =>
      Prog.call (.loadRun run.id) fun reloaded => .ret ({
        run := reloaded.getD run
        outcomes
        blocked := (tasks.filter fun task => task.state = .planned || task.state = .blocked).map Task.id
        gates } : Report)).Calls Op.Aside :=
    fun gates => (Scheduler.evaluateRunCompletion_calls run).bind fun _ => ⟨trivial, fun _ => trivial⟩
  split
  · exact (verifyDeclaredGates_calls ..).bind hrest
  · exact hrest []

end GoalRunner

end AtlasFlow.Reference
