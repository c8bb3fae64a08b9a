import AtlasFlow.Persistence.SqlValues

/-!
# The values of the Python backend

`atlas_flow.execution.models`, `harness.runner` and the exceptions that cross them. The states, the
event types and the table `VALID_TRANSITIONS` are those of `Domain.Execution`; `can_transition` is
`canTransition` there. A moment is the ISO text the program writes.
-/

namespace AtlasFlow.Reference

/-! ## Entities -/

structure Run where
  id : RunId
  projectId : String
  goalId : String
  goalRevision : String
  state : RunState := .created
  autonomy : String := "agentic"
  createdAt : String
  startedAt : Option String := none
  completedAt : Option String := none
  deriving DecidableEq, Repr

structure Task where
  id : TaskId
  runId : RunId
  objective : String
  role : Option String := none
  risk : String := "medium"
  scope : List String := []
  state : TaskState := .planned
  dependencies : List TaskId := []
  createdAt : String
  deriving DecidableEq, Repr

structure Attempt where
  id : AttemptId
  taskId : TaskId
  runId : RunId
  runner : Option String := none
  modelProvider : Option String := none
  modelId : Option String := none
  state : AttemptState := .created
  createdAt : String
  startedAt : Option String := none
  completedAt : Option String := none
  errorMsg : Option String := none
  deriving DecidableEq, Repr

structure DomainEvent where
  id : String
  timestamp : String
  projectId : String
  runId : Option RunId
  type : EventType
  version : Nat := 1
  payload : Json
  deriving DecidableEq

/-- A project that a component was not told about. -/
def unknownProject : String := "unknown-project"

/-! ## Evidence -/

inductive GateVerdict | passed | failed | pending
  deriving DecidableEq, Repr, Inhabited

/-- What `Evidence.new` is given; its id and its moment are read by nobody here. -/
structure Evidence where
  goalId : String
  gate : GateKind
  kind : String
  verdict : GateVerdict
  uri : String
  runId : Option RunId
  taskId : Option TaskId := none
  deriving DecidableEq, Repr

/-! ## Runners -/

/-- What a runner hands back. `tokens` and `costUsd` are the members of its `evidence` that
`Usage.from_result` reads, as `_as_int` and `_as_float` read them; a cost is exact here. -/
structure RunnerResult where
  success : Bool
  error : String := ""
  tokens : Option Int := none
  costUsd : Option Rat := none
  deriving DecidableEq, Repr, Inhabited

structure RunnerConfig where
  model : String
  maxTurns : Nat := 20
  timeoutSeconds : Nat := 300
  role : String := ""
  deriving DecidableEq, Repr

/-! ## Exceptions -/

/-- The exceptions that are raised here or told apart when they are caught. `exception` is any other
subclass of `Exception`; `cancelledError` is not one. -/
inductive PyExn where
  | dagError (message : String)
  | valueError (message : String)
  | keyError (key : String)
  | invalidTransition (message : String)
  | gitError (message : String)
  | fileNotFoundError (message : String)
  | permissionError (message : String)
  | osError (message : String)
  | exception (message : String)
  | cancelledError
  deriving DecidableEq, Repr, Inhabited

/-- `str(exc)`. -/
def PyExn.str : PyExn → String
  | .dagError message | .valueError message | .invalidTransition message | .gitError message
  | .fileNotFoundError message | .permissionError message | .osError message
  | .exception message => message
  | .keyError key => s!"'{key}'"
  | .cancelledError => ""

/-- `text[:n]`. -/
def clip (n : Nat) (text : String) : String := String.ofList (text.toList.take n)

/-- `a or b` of two texts. -/
def orText (a b : String) : String := if a = "" then b else a

end AtlasFlow.Reference
