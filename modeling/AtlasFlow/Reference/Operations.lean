import AtlasFlow.Concurrency.Prog
import AtlasFlow.Reference.Batches
import AtlasFlow.Reference.Budget
import AtlasFlow.Reference.Router

/-!
# The calls of the Python backend

Coroutines on one event loop: between two of the calls below no other coroutine runs. Every method of
`Persistence` is one call, because its statements run under a lock on one connection. What is left
out of a call is what nothing here reads: latencies, transcripts, generated ids of evidence.
-/

namespace AtlasFlow.Reference

open Concurrency

/-! ## Values of the calls -/

structure Worktree where
  goalId : String
  taskId : TaskId
  branch : String
  path : String
  deriving DecidableEq, Repr

structure IntegrationResult where
  integrated : Bool
  conflicts : List String := []
  reason : String := ""
  deriving DecidableEq, Repr

/-- How a gate's process ended: its exit code and what it printed, or nothing in time. -/
inductive Communicated where
  | exited (returncode : Int) (output : String)
  | timedOut
  deriving DecidableEq, Repr

structure GateOutcome where
  gate : GateKind
  verdict : GateVerdict
  command : String
  detail : String
  deriving DecidableEq, Repr

structure TaskOutcome where
  taskId : TaskId
  objective : String
  succeeded : Bool := false
  modelKey : String := ""
  provider : String := ""
  attemptId : Option AttemptId := none
  fallbackAttempts : Nat := 0
  budgetStopped : Bool := false
  cancelled : Bool := false
  reviewerModelKey : String := ""
  reviewVerdict : Option GateVerdict := none
  worktree : Option Worktree := none
  integration : Option IntegrationResult := none
  error : String := ""
  deriving DecidableEq, Repr

/-- Which of the questions `_cancelled` is: at the head of the loop of `execute`, after the loop, at the
start of `_run_task`, or in the handler of the fallback loop. All four ask the same. -/
inductive Poll | pass | afterLoop | task | handler
  deriving DecidableEq, Repr

/-! ## Calls -/

inductive Op where
  -- `Persistence`
  | saveRun (run : Run)
  | loadRun (runId : RunId)
  | saveTask (task : Task)
  | loadTasks (runId : RunId)
  | saveAttempt (attempt : Attempt)
  | loadAttempts (runId : RunId)
  | commitRun (run : Run) (event : DomainEvent)
  | commitTask (task : Task) (event : DomainEvent)
  | commitAttempt (attempt : Attempt) (event : DomainEvent)
  | publish (event : DomainEvent)
  | saveEvidence (evidence : Evidence)
  -- `RoutingStore`
  | recordDecision (decision : RouteDecision) (taskId : TaskId) (runId : RunId)
  | recordObservation (modelKey : String) (success : Bool) (role : String) (runId : RunId)
      (taskId : TaskId)
  -- ids and moments, as the constructors of an event and of an attempt generate them
  | newEvent
  | newAttempt
  | now
  -- `BudgetLedger`
  | setBudget (ledger : BudgetLedger)
  | reserveAttempt
  | recordUsage (usage : Usage)
  -- `CancellationRegistry`
  | isRequested (runId : RunId) (poll : Poll)
  | reason (runId : RunId)
  | request (runId : RunId)
  | clear (runId : RunId)
  -- `Harness` and the runner it calls
  | resolve (name : String)
  | startRunner (taskId : TaskId) (prompt : String) (config : RunnerConfig)
  | awaitRunner (taskId : TaskId)
  | cancelRunner (taskId : TaskId)
  | cancelTask (taskId : TaskId)
  -- `WorktreeManager`
  | createWorktree (goalId : String) (taskId : TaskId)
  | commitAll (worktree : Worktree) (message : String)
  | integrate (worktree : Worktree) (target : String)
  -- gate commands
  | split (command : String)
  | launch (argv : List String)
  | communicate
  -- `asyncio.gather`: create the coroutines, wait for them; a coroutine's first turn, and its end
  | gather (run : Run) (batch : List Entry)
  | join (first count : Nat)
  | begin
  | finish (result : Except PyExn TaskOutcome)

abbrev Ret : Op → Type
  | .loadRun _ => Option Run
  | .loadTasks _ => List Task
  | .loadAttempts _ => List Attempt
  | .newEvent => String × String
  | .newAttempt => AttemptId × String
  | .now => String
  | .reserveAttempt => Except BudgetExceeded Unit
  | .isRequested .. => Bool
  | .reason _ => String
  | .resolve _ => Bool
  | .awaitRunner _ => Except PyExn RunnerResult
  | .cancelRunner _ => Bool
  | .cancelTask _ => Bool
  | .createWorktree .. => Except PyExn Worktree
  | .commitAll .. => Except PyExn Bool
  | .integrate .. => Except PyExn IntegrationResult
  | .split _ => Except PyExn (List String)
  | .launch _ => Except PyExn Unit
  | .communicate => Communicated
  | .gather .. => Nat
  | .join .. => Except PyExn (List TaskOutcome)
  | .begin => Run × Entry
  | _ => Unit

abbrev Program (α : Type) := Prog Op Ret PyExn α

/-- Make one call. -/
abbrev call (o : Op) : Program (Ret o) := Prog.op o

/-! ## The parts of a `GoalRunner` -/

/-- `self`, with what its methods read of the configuration, and the arguments of `execute`. A runner
without a `CancellationRegistry` behaves like one whose registry nobody asks anything of. -/
structure GoalRunner where
  projectId : String := "atlas"
  autonomyMode : String := "agentic"
  maxParallelTasks : Int := 4
  maxRetriesPerTask : Int := 3
  maxFallbackAttempts : Int := 2
  maxTokensPerRun : Int := 1000000
  maxCostPerRunUsd : Rat := 10
  commandCodeMaxTurns : Nat := 50
  commandCodeTimeoutSeconds : Nat := 600
  router : ModelRouter := {}
  /-- Whether there is a `WorktreeManager`. -/
  worktrees : Bool := false
  /-- Whether there is a `RoutingStore`. -/
  routingStore : Bool := false
  gateCommands : Dict GateKind String := []
  /-- The runners registered with the harness. -/
  runners : List String := []
  goalRevision : String := ""
  runnerName : String := ""
  integrationTarget : String := "main"

end AtlasFlow.Reference
