import AtlasFlow.Data.Json

/-!
# Runs, tasks, attempts and events

`AtlasFlow.Domain`: the identifiers, the entities of one run, and the state machine that says which
of their state changes are legal. `Run.TaskCount` is left out: no column holds it and nothing under
the engine reads it.
-/

namespace AtlasFlow

/-! ## Identifiers -/

structure GoalId where
  value : String
  deriving DecidableEq, Repr, Inhabited

structure PlanId where
  value : String
  deriving DecidableEq, Repr, Inhabited

structure RunId where
  value : String
  deriving DecidableEq, Repr, Inhabited

structure TaskId where
  value : String
  deriving DecidableEq, Repr, Inhabited

structure AttemptId where
  value : String
  deriving DecidableEq, Repr, Inhabited

/-- A path relative to the open project root. -/
structure ProjectPath where
  value : String
  deriving DecidableEq, Repr, Inhabited

/-- A moment: its UTC instant in ticks, and the offset it was written with. -/
structure DateTimeOffset where
  utcTicks : Nat
  offsetMinutes : Int
  deriving DecidableEq, Repr, Inhabited

/-! ## States -/

inductive AutonomyLevel | supervised | agentic
  deriving DecidableEq, Repr, Inhabited

inductive RiskLevel | low | medium | high
  deriving DecidableEq, Repr, Inhabited

inductive RunState
  | created | planning | ready | running | verifying
  | reviewing | completed | blocked | cancelled | failed
  deriving DecidableEq, Repr, Inhabited

inductive TaskState
  | planned | ready | running | succeeded | blocked | failed | cancelled | superseded
  deriving DecidableEq, Repr, Inhabited

inductive AttemptState
  | created | starting | running | completed | failed | cancelled
  deriving DecidableEq, Repr, Inhabited

inductive EventType
  | runStarted | runCompleted | runFailed | taskReady | taskSucceeded | taskFailed
  | attemptStarted | attemptCompleted | attemptFailed | gatePassed | gateFailed | stateChange
  deriving DecidableEq, Repr, Inhabited

/-! ## Entities -/

/-- One execution of one locked plan. -/
structure Run where
  id : RunId
  projectId : String
  goalId : GoalId
  goalRevision : String
  state : RunState
  autonomy : AutonomyLevel
  createdAt : DateTimeOffset
  startedAt : Option DateTimeOffset := none
  completedAt : Option DateTimeOffset := none
  deriving DecidableEq, Repr, Inhabited

/-- One node of a run's task graph. -/
structure RunTask where
  id : TaskId
  runId : RunId
  objective : String
  role : Option String := none
  risk : RiskLevel
  writeScope : List ProjectPath := []
  state : TaskState
  dependencies : List TaskId := []
  createdAt : DateTimeOffset
  deriving DecidableEq, Repr, Inhabited

/-- One try at one task. -/
structure Attempt where
  id : AttemptId
  taskId : TaskId
  runId : RunId
  runner : Option String := none
  modelProvider : Option String := none
  modelId : Option String := none
  state : AttemptState
  createdAt : DateTimeOffset
  startedAt : Option DateTimeOffset := none
  completedAt : Option DateTimeOffset := none
  error : Option String := none
  deriving DecidableEq, Repr, Inhabited

/-- One thing that happened, durably recorded. -/
structure DomainEvent where
  id : String
  timestamp : DateTimeOffset
  type : EventType
  projectId : String
  runId : Option RunId
  payload : Json
  deriving DecidableEq, Repr, Inhabited

/-! ## The state machine -/

namespace StateMachine

def runTransitions : RunState → List RunState
  | .created => [.planning, .cancelled]
  | .planning => [.ready, .failed, .cancelled]
  | .ready => [.running, .cancelled]
  | .running => [.verifying, .blocked, .failed, .cancelled]
  | .verifying => [.reviewing, .failed]
  | .reviewing => [.completed, .failed]
  | _ => []

def taskTransitions : TaskState → List TaskState
  | .planned => [.ready, .blocked, .cancelled]
  | .blocked => [.ready, .cancelled]
  | .ready => [.running, .cancelled]
  | .running => [.succeeded, .failed, .cancelled]
  | .succeeded => [.superseded]
  | .failed => [.ready, .cancelled]
  | _ => []

def attemptTransitions : AttemptState → List AttemptState
  | .created => [.starting, .cancelled]
  | .starting => [.running, .failed, .cancelled]
  | .running => [.completed, .failed, .cancelled]
  | _ => []

end StateMachine

def RunState.canTransition (source target : RunState) : Bool :=
  (StateMachine.runTransitions source).contains target

def TaskState.canTransition (source target : TaskState) : Bool :=
  (StateMachine.taskTransitions source).contains target

def AttemptState.canTransition (source target : AttemptState) : Bool :=
  (StateMachine.attemptTransitions source).contains target

/-- Whether a run has stopped for good. -/
def RunState.isTerminal : RunState → Bool
  | .completed | .cancelled | .failed => true
  | _ => false

/-- Whether a task will not move again on its own. -/
def TaskState.isTerminal : TaskState → Bool
  | .succeeded | .cancelled | .superseded => true
  | _ => false

def AttemptState.isTerminal : AttemptState → Bool
  | .completed | .failed | .cancelled => true
  | _ => false

/-- A run that has stopped for good has no legal move left. -/
theorem RunState.canTransition_of_isTerminal {s t : RunState} (h : s.isTerminal = true) :
    s.canTransition t = false := by
  cases s <;> simp_all [isTerminal, canTransition, StateMachine.runTransitions]

/-- A finished attempt has no legal move left. -/
theorem AttemptState.canTransition_of_isTerminal {s t : AttemptState} (h : s.isTerminal = true) :
    s.canTransition t = false := by
  cases s <;> simp_all [isTerminal, canTransition, StateMachine.attemptTransitions]

end AtlasFlow
