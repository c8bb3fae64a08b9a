import AtlasFlow.Reference.Scheduler

/-!
# Running a plan

`execution/goal_runner.py`, `run_gate_command` and the route that asks a run to stop. A method of
`GoalRunner` that returns early is cut where it does, and each part is named for what it does. The
loop of `execute` starts again from `Point.pass`.
-/

namespace AtlasFlow.Reference

open Concurrency

/-! ## Gate commands -/

namespace Shlex

/-- Where `shlex.split` is: between words, in one, between quotes, or behind a backslash that was met
in a word or between quotes. -/
inductive Mode
  | blank
  | word
  | quote (q : Char)
  | escape (back : Option Char)

def isSpace (c : Char) : Bool := c = ' ' || c = '\t' || c = '\r' || c = '\n'

def isQuote (c : Char) : Bool := c = '"' || c = '\''

/-- The words of the rest of a text; `token` is the word begun, reversed, `quoted` whether part of it
was between quotes, so that it counts even if it is empty. -/
def words : Mode → List Char → Bool → List Char → Except PyExn (List String)
  | .blank, _, _, [] => .ok []
  | .word, token, quoted, [] =>
    .ok (if token = [] ∧ quoted = false then [] else [String.ofList token.reverse])
  | .quote _, _, _, [] => .error (.valueError "No closing quotation")
  | .escape _, _, _, [] => .error (.valueError "No escaped character")
  | .blank, token, quoted, c :: cs =>
    if isSpace c then words .blank token quoted cs
    else if c = '\\' then words (.escape none) token quoted cs
    else if isQuote c then words (.quote c) token true cs
    else words .word (c :: token) quoted cs
  | .word, token, quoted, c :: cs =>
    if isSpace c then
      if token = [] ∧ quoted = false then words .blank [] false cs
      else (words .blank [] false cs).map (String.ofList token.reverse :: ·)
    else if isQuote c then words (.quote c) token true cs
    else if c = '\\' then words (.escape none) token quoted cs
    else words .word (c :: token) quoted cs
  | .quote q, token, quoted, c :: cs =>
    if c = q then words .word token quoted cs
    else if c = '\\' ∧ q = '"' then words (.escape (some q)) token quoted cs
    else words (.quote q) (c :: token) quoted cs
  | .escape none, token, quoted, c :: cs => words .word (c :: token) quoted cs
  | .escape (some q), token, quoted, c :: cs =>
    if c ≠ '\\' ∧ c ≠ q then words (.quote q) (c :: '\\' :: token) quoted cs
    else words (.quote q) (c :: token) quoted cs

/-- `shlex.split`. -/
def split (command : String) : Except PyExn (List String) := words .blank [] false command.toList

end Shlex

/-- `OUTPUT_LIMIT`. -/
def outputLimit : Nat := 600

/-- `run_gate_command`. What `communicate` answers is what the process printed, redacted and stripped. -/
def runGateCommand (gate : GateKind) (command : String) : Program GateOutcome := do
  let argv ← Prog.ofExcept (← call (.split command))
  if argv = [] then return ⟨gate, .failed, command, "the declared command is empty"⟩
  else
    match ← call (.launch argv) with
    | .error (.fileNotFoundError message) | .error (.permissionError message) =>
      return ⟨gate, .failed, command, s!"could not run: {message}"⟩
    | .error exc => throw exc
    | .ok () =>
      match ← call .communicate with
      | .timedOut => return ⟨gate, .failed, command, "timed out after 900s"⟩
      | .exited returncode output =>
        let tail :=
          if output = "" then "(no output)"
          else String.ofList (output.toList.drop (output.length - outputLimit))
        if returncode = 0 then return ⟨gate, .passed, command, tail⟩
        else return ⟨gate, .failed, command, s!"exit {returncode}: {tail}"⟩

/-- `evidence_for`. -/
def evidenceFor (outcome : GateOutcome) (goalId : String) (runId : RunId) : Evidence where
  goalId := goalId
  gate := outcome.gate
  kind := "gate_command"
  verdict := outcome.verdict
  uri := clip 1000 s!"{outcome.command} — {outcome.detail}"
  runId := some runId

/-! ## One task -/

/-- `_is_high_risk`. -/
def isHighRisk (node : TaskNode) : Bool := node.risk = .high

/-- `_review_prompt`. -/
def reviewPrompt (node : TaskNode) (worktree : Option Worktree) : String :=
  "\n".intercalate <|
    ["Review the change made for this task. Reject it if it is incorrect, unsafe, or reaches outside" ++
      " its write scope.",
      s!"Objective: {node.objective}"] ++
    (if node.writeScope = [] then [] else ["Write scope: " ++ ", ".intercalate node.writeScope]) ++
    (match worktree with
      | some worktree => [s!"Worktree: {worktree.path}", s!"Branch: {worktree.branch}"]
      | none => [])

/-- `_prompt_for`. -/
def promptFor (node : TaskNode) : String :=
  "\n".intercalate <|
    [node.objective] ++
    (if node.writeScope = [] then [] else ["Write scope: " ++ ", ".intercalate node.writeScope]) ++
    (if node.gates = [] then [] else ["Required gates: " ++ ", ".intercalate node.gates])

/-- `_reload`. -/
def reload (task : Task) : Program Task := do
  let stored ← call (.loadTasks task.runId)
  return (stored.find? fun s => s.id = task.id).getD task

/-- `_record_gate`. -/
def recordGate (run : Run) (task : Task) (gate : GateKind) (verdict : GateVerdict) (detail : String)
    (kind : String := "runner_result") : Program Unit :=
  call (.saveEvidence
    { goalId := run.goalId, gate, kind, verdict, uri := clip 500 detail, runId := some run.id
      taskId := some task.id })

namespace GoalRunner

variable (g : GoalRunner)

/-- The configuration an attempt's runner is given. -/
def runnerConfig (model role : String) : RunnerConfig where
  model := model
  maxTurns := g.commandCodeMaxTurns
  timeoutSeconds := g.commandCodeTimeoutSeconds
  role := role

/-- What the fallback loop hands back: the last result with its attempt, and the outcome. -/
abbrev Tried := Option (RunnerResult × Attempt) × TaskOutcome

/-- One attempt of the fallback loop. A `CancelledError` while the run is asked to stop is the reason
it was asked for; any other escapes. -/
def attempt (run : Run) (task : Task) (node : TaskNode) (modelId : String) :
    Program (Except String (RunnerResult × Attempt)) :=
  tryCatch
    (do return .ok (← Harness.execute g.projectId g.runnerName task (promptFor node)
      (g.runnerConfig modelId (roleFor node))))
    fun
      | .cancelledError => do
        if ← call (.isRequested run.id .handler) then return .error (← call (.reason run.id))
        else throw .cancelledError
      | exc => throw exc

/-- `self.budget.record` and what is remembered of an attempt. -/
def observe (run : Run) (task : Task) (modelKey role : String) (result : RunnerResult) :
    Program Unit := do
  call (.recordUsage (Usage.fromResult result))
  if g.routingStore then call (.recordObservation modelKey result.success role run.id task.id)

/-- The loop of `_attempt_with_fallback`, from the candidate with number `index` on. -/
def tryCandidates (run : Run) (node : TaskNode) (limit : Nat) :
    List (Option ModelEntry) → Nat → Task → Tried → Program Tried
  | [], _, _, tried => return tried
  | candidate :: rest, index, task, (last, outcome) => do
    let modelId := (candidate.map ModelEntry.commandCodeId).getD "default"
    let modelKey := (candidate.map ModelEntry.key).getD "default"
    match ← call .reserveAttempt with
    | .error exc => return (last, { outcome with error := exc.str, budgetStopped := true })
    | .ok () =>
      match ← g.attempt run task node modelId with
      | .error reason => return (last, { outcome with cancelled := true, error := reason })
      | .ok (result, attempt) =>
        let outcome :=
          { outcome with
            attemptId := some attempt.id, modelKey := modelId
            provider := (candidate.map ModelEntry.provider).getD "", fallbackAttempts := index }
        g.observe run task modelKey (roleFor node) result
        if result.success then return (some (result, attempt), outcome)
        else
          let outcome := { outcome with error := orText result.error "runner reported failure" }
          let task ← reload task
          let task ←
            if index + 1 < limit ∧ task.state = .failed then Scheduler.markTaskReady g.projectId task
            else pure task
          tryCandidates run node limit rest (index + 1) task (some (result, attempt), outcome)

/-- `_attempt_with_fallback`. -/
def attemptWithFallback (run : Run) (task : Task) (node : TaskNode) (decision : RouteDecision)
    (outcome : TaskOutcome) : Program Tried :=
  let candidates := g.router.fallbackCandidates decision
  let limit := min candidates.length (1 + g.maxFallbackAttempts.toNat)
  g.tryCandidates run node limit (candidates.take limit) 0 task (none, outcome)

/-- The attempt of a reviewer, and what it says about the change. -/
def review (run : Run) (task : Task) (node : TaskNode) (outcome : TaskOutcome)
    (worktree : Option Worktree) (reviewer : ModelEntry) : Program (Bool × TaskOutcome) := do
  let (result, attempt) ← Harness.execute g.projectId g.runnerName task (reviewPrompt node worktree)
    (g.runnerConfig reviewer.commandCodeId "reviewer")
  g.observe run task reviewer.key "reviewer" result
  let verdict : GateVerdict := if result.success then .passed else .failed
  let outcome :=
    { outcome with reviewerModelKey := reviewer.commandCodeId, reviewVerdict := some verdict }
  let detail := s!"{reviewer.key} ({reviewer.provider}) reviewed attempt {attempt.id.value}"
  let (outcome, detail) :=
    if result.success then (outcome, detail)
    else
      let error := orText result.error "cross-provider review rejected the change"
      ({ outcome with error }, s!"{detail}: {error}")
  recordGate run task .review verdict detail "review_comment"
  return (result.success, outcome)

/-- `_cross_provider_review`. -/
def crossProviderReview (run : Run) (task : Task) (node : TaskNode) (outcome : TaskOutcome)
    (worktree : Option Worktree) : Program (Bool × TaskOutcome) := do
  match g.router.selectHighRiskReviewer outcome.provider with
  | none =>
    let provider := orText outcome.provider "unknown"
    recordGate run task .review .pending
      s!"No reviewer outside provider '{provider}' is reachable" "review_comment"
    return (true, outcome)
  | some reviewer =>
    match ← call .reserveAttempt with
    | .error exc =>
      recordGate run task .review .pending exc.str "review_comment"
      return (true, outcome)
    | .ok () => g.review run task node outcome worktree reviewer

/-- The worktree of a task that writes, if there is a manager. -/
def isolate (run : Run) (task : Task) (node : TaskNode) : Program (Option Worktree) := do
  if g.worktrees && WorktreePolicy.requiresIsolation node.writeScope then
    return some (← Prog.ofExcept (← call (.createWorktree run.goalId task.id)))
  else return none

/-- Evidence that a task failed to build, and the task failed. -/
def failBuild (run : Run) (task : Task) (outcome : TaskOutcome) (error : String) :
    Program TaskOutcome := do
  recordGate run task .build .failed error
  let _ ← Scheduler.failTask g.projectId task error
  return { outcome with error }

/-- Evidence that a task was built, and the task succeeded. -/
def passBuild (run : Run) (task : Task) (outcome : TaskOutcome) (attempt : Attempt) :
    Program TaskOutcome := do
  recordGate run task .build .passed s!"attempt {attempt.id.value} completed"
  let _ ← Scheduler.completeTask g.projectId task
  return { outcome with succeeded := true }

/-- The budget stopped a task before it could be tried. -/
def stopTask (run : Run) (task : Task) (outcome : TaskOutcome) : Program TaskOutcome := do
  recordGate run task .build .failed outcome.error
  if task.state = .running then let _ ← Scheduler.failTask g.projectId task outcome.error
  return outcome

/-- A task whose work is done and, where it has to be, reviewed: merge it. -/
def mergeTask (run : Run) (task : Task) (outcome : TaskOutcome) (worktree : Option Worktree)
    (attempt : Attempt) : Program TaskOutcome := do
  match worktree with
  | none => g.passBuild run task outcome attempt
  | some worktree =>
    let _ ← Prog.ofExcept
      (← call (.commitAll worktree s!"{task.id.value}: {task.objective}"))
    let integration ← Prog.ofExcept (← call (.integrate worktree g.integrationTarget))
    let outcome := { outcome with integration := some integration }
    if integration.integrated then g.passBuild run task outcome attempt
    else g.failBuild run task outcome integration.reason

/-- A task whose attempt reported a success. -/
def acceptTask (run : Run) (task : Task) (node : TaskNode) (outcome : TaskOutcome)
    (worktree : Option Worktree) (attempt : Attempt) : Program TaskOutcome := do
  if isHighRisk node then
    let (accepted, outcome) ← g.crossProviderReview run task node outcome worktree
    if accepted then g.mergeTask run task outcome worktree attempt
    else
      let _ ← Scheduler.failTask g.projectId task outcome.error
      return outcome
  else g.mergeTask run task outcome worktree attempt

/-- What follows the attempts of a task. -/
def concludeTask (run : Run) (task : Task) (node : TaskNode) (worktree : Option Worktree) :
    Tried → Program TaskOutcome
  | (tried, outcome) => do
    let task ← reload task
    if outcome.cancelled then
      if task.state = .running ∨ task.state = .ready ∨ task.state = .planned then
        let _ ← Scheduler.cancelTask g.projectId task (orText outcome.error "cancelled")
      return outcome
    else
      match tried with
      | none => g.stopTask run task outcome
      | some (result, attempt) =>
        if result.success then g.acceptTask run task node outcome worktree attempt
        else g.failBuild run task outcome (orText result.error "runner reported failure")

/-- `_run_task`. -/
def runTask (run : Run) : Entry → Program TaskOutcome
  | (task, node) => do
    let decision := g.router.route (roleFor node)
    let outcome : TaskOutcome := { taskId := task.id, objective := task.objective }
    if ← call (.isRequested run.id .task) then
      return { outcome with cancelled := true, error := "cancelled before the task started" }
    else
      if g.routingStore then call (.recordDecision decision task.id run.id)
      let task ← Scheduler.markTaskReady g.projectId task
      let worktree ← g.isolate run task node
      let tried ← g.attemptWithFallback run task node decision { outcome with worktree }
      g.concludeTask run task node worktree tried

/-- A coroutine `gather` created: `_run_task`, whose result or exception becomes the coroutine's. -/
def coroutine : Program Unit := do
  let (run, entry) ← call .begin
  let result ← tryCatch (do return .ok (← g.runTask run entry)) fun exc => return .error exc
  call (.finish result)

/-! ## The run -/

structure Report where
  run : Run
  outcomes : List TaskOutcome := []
  blocked : List TaskId := []
  gates : List GateOutcome := []
  deriving DecidableEq

/-- Where `execute` goes round. -/
inductive Point
  | start
  | pass (run : Run) (nodeByTaskId : Dict TaskId TaskNode) (outcomes : List TaskOutcome)

/-- `declared`: sorted by name. -/
def declared : List GateKind :=
  [.build, .documentation, .review, .tests].filter fun gate => gate ∈ g.gateCommands.keys

/-- `_verify_declared_gates`. -/
def verifyDeclaredGates (run : Run) : List GateKind → Program (List GateOutcome)
  | [] => return []
  | gate :: rest => do
    match g.gateCommands.get? gate with
    | none => verifyDeclaredGates run rest
    | some command =>
      let outcome ← runGateCommand gate command
      call (.saveEvidence (evidenceFor outcome run.goalId run.id))
      return outcome :: (← verifyDeclaredGates run rest)

/-- One batch: `asyncio.gather` of its coroutines. -/
def gatherBatch (run : Run) (batch : List Entry) : Program (List TaskOutcome) := do
  let first ← call (.gather run batch)
  Prog.ofExcept (← call (.join first batch.length))

/-- The batches of a pass, one after the other. -/
def gatherBatches (run : Run) : List (List Entry) → List TaskOutcome → Program (List TaskOutcome)
  | [], outcomes => return outcomes
  | batch :: rest, outcomes => do
    let results ← gatherBatch run batch
    gatherBatches run rest (outcomes ++ results)

/-- The run was asked to stop. -/
def stopRun (run : Run) (outcomes : List TaskOutcome) : Program Report := do
  let reason ← call (.reason run.id)
  let _ ← Scheduler.cancelRun g.projectId run reason
  call (.clear run.id)
  let reloaded ← call (.loadRun run.id)
  return { run := reloaded.getD run, outcomes }

/-- The run has nothing left to do. -/
def settleRun (run : Run) (outcomes : List TaskOutcome) : Program Report := do
  let tasks ← call (.loadTasks run.id)
  let blocked :=
    (tasks.filter fun task => task.state = .planned || task.state = .blocked).map Task.id
  let succeeded := outcomes ≠ [] ∧ outcomes.all TaskOutcome.succeeded
  let gates ←
    if succeeded ∧ blocked = [] then g.verifyDeclaredGates run g.declared else pure []
  let _ ← Scheduler.evaluateRunCompletion run
  let reloaded ← call (.loadRun run.id)
  return { run := reloaded.getD run, outcomes, blocked, gates }

/-- What follows the loop. -/
def afterLoop (run : Run) (outcomes : List TaskOutcome) : Program (Point ⊕ Report) := do
  if ← call (.isRequested run.id .afterLoop) then return .inr (← g.stopRun run outcomes)
  else return .inr (← g.settleRun run outcomes)

/-- The tasks of a pass with their nodes. -/
def entryOf (nodeByTaskId : Dict TaskId TaskNode) (task : Task) : Except PyExn Entry :=
  match nodeByTaskId.get? task.id with
  | some node => .ok (task, node)
  | none => .error (.keyError task.id.value)

/-- One round of the loop. -/
def pass (run : Run) (nodeByTaskId : Dict TaskId TaskNode) (outcomes : List TaskOutcome) :
    Program (Point ⊕ Report) := do
  if ← call (.isRequested run.id .pass) then g.afterLoop run outcomes
  else
    let ready ← Scheduler.readyTasks run.id
    if ready = [] then g.afterLoop run outcomes
    else
      let entries ← Prog.ofExcept (ready.mapM (entryOf nodeByTaskId))
      let outcomes ← gatherBatches run (parallelBatches g.maxParallelTasks entries) outcomes
      if outcomes.any fun outcome => !outcome.succeeded then g.afterLoop run outcomes
      else return .inl (.pass run nodeByTaskId outcomes)

/-- The `Run(...)` of `execute`. -/
def newRun (plan : Plan) (gen : Generated) : Run where
  id := gen.runId
  projectId := g.projectId
  goalId := plan.goalId
  goalRevision := g.goalRevision
  autonomy := g.autonomyMode
  createdAt := gen.runCreatedAt

/-- `execute` up to its loop. -/
def start (plan : Plan) (gen : Generated) : Program (Point ⊕ Report) := do
  let errors := plan.validateDag
  if errors ≠ [] then throw (.dagError ("; ".intercalate errors))
  else
    let run := g.newRun plan gen
    call (.saveRun run)
    let run ← Scheduler.startRun run
    let (tasks, nodeByTaskId) ← Prog.ofExcept (gen.materialize plan)
    call (.setBudget (BudgetLedger.fromConfig g.maxRetriesPerTask g.maxTokensPerRun
      g.maxCostPerRunUsd tasks.length))
    let run ← Scheduler.scheduleTasks run tasks
    let run ← Scheduler.advanceRun run .running
    return .inl (.pass run nodeByTaskId [])

/-- `execute`. -/
def execute (plan : Plan) (gen : Generated) : Point → Program (Point ⊕ Report)
  | .start => g.start plan gen
  | .pass run nodeByTaskId outcomes => g.pass run nodeByTaskId outcomes

end GoalRunner

/-! ## Asking a run to stop -/

/-- The answers of `cancel_run`: the status code, and the run as it was when the request came. -/
inductive Response where
  | accepted (run : Run) (taskCount : Nat)
  | refused (status : Nat) (detail : String)
  deriving DecidableEq

/-- `cancel_run`. -/
def cancelRunRoute (runId : RunId) : Program Response := do
  match ← call (.loadRun runId) with
  | none => return .refused 404 s!"Unknown run: {runId.value}"
  | some run =>
    if run.state.canTransition .cancelled then
      call (.request runId)
      let tasks ← call (.loadTasks runId)
      Prog.forEach (fun task => do let _ ← call (.cancelTask task.id)) tasks
      let tasks ← call (.loadTasks runId)
      return .accepted run tasks.length
    else
      return .refused 409 s!"Run {runId.value} is {SqlValues.text run.state} and cannot be cancelled"

end AtlasFlow.Reference
