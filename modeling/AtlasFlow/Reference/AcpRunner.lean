import AtlasFlow.Concurrency.Pool
import AtlasFlow.Data.Table
import AtlasFlow.Reference.McpRegistry

/-!
# Running a task through an agent

`runners/acp.py` and `acp/store.py`. An attempt starts an agent, takes up the session that is stored for
its task and its runner or creates one, and prompts it. Any number of attempts, of any roles, tasks and
runners, share one store and interleave at their awaits; any await may raise, a cancellation included.

An agent is somebody else's program: it may create, load or refuse what it likes, and give an id twice.
What `AcpClient` makes of its answers is the answer of a call: `initializeAgent` answers whether the agent
supports `loadSession`, `newSession` the text of its id. `_clients`, which only a cancellation reads, and
the runner's capabilities, which no run reads, are left out.
-/

namespace AtlasFlow.Reference.AcpRunner

open Concurrency

/-- An `AcpError`, or anything else: a cancellation, a database that refuses, a protocol version that is no
number. -/
inductive Exn where
  | acp (message : String)
  | other (message : String)
  deriving DecidableEq, Repr

/-- The runner. `sessions` is whether it was given the store. -/
structure Runner where
  name : String := "acp"
  command : List String
  cwd : Option String := none
  mcp : McpRegistry := { enabled := false }
  sessions : Bool := false

structure RunnerConfig where
  timeoutSeconds : Nat := 300
  role : String := ""

/-- A call of `AcpRunner.run`. -/
structure Attempt where
  runner : Runner
  taskId : String
  prompt : String
  config : RunnerConfig

/-- The servers an attempt's role gets. -/
def Attempt.servers (attempt : Attempt) : List Json := attempt.runner.mcp.acpServers attempt.config.role

/-- A row of `acp_sessions`. -/
structure StoredSession where
  taskId : String
  runner : String
  sessionId : String
  cwd : String
  createdAt : String
  lastUsedAt : String
  deriving DecidableEq, Repr

def StoredSession.key (row : StoredSession) : String × String := (row.taskId, row.runner)

structure PromptResult where
  stopReason : String := ""
  text : String := ""
  terminalOutput : String := ""
  filesChanged : List String := []
  permissionsDenied : List String := []

def PromptResult.completed (result : PromptResult) : Bool := result.stopReason ∈ ["end_turn", "completed"]

structure RunnerResult where
  taskId : String
  success : Bool
  output : String := ""
  error : String := ""
  transcript : String := ""
  evidence : Dict String String := []
  deriving DecidableEq, Repr

/-! ## Operations -/

/-- What became of a statement. One that raises may have been made all the same: cancelling the wait for it
does not take it back. -/
inductive Written
  | done
  | raised (e : Exn) (applied : Bool)

def Written.applied : Written → Bool
  | .done => true
  | .raised _ applied => applied

def Written.get : Written → Except Exn Unit
  | .done => .ok ()
  | .raised e _ => .error e

/-- The awaits, and the clock. -/
inductive Op
  | start (command : List String) (cwd : Option String)
  | initializeAgent
  | newSession (cwd : String) (mcpServers : List Json)
  | loadSession (sessionId cwd : String)
  | sendPrompt (sessionId text : String) (timeout : Nat)
  | close
  | now
  | recall (taskId runner : String)
  | remember (row : StoredSession)
  | touch (taskId runner now : String)
  | forget (taskId runner : String)

/-- A session is loaded under its id; which of the sessions of that id the agent takes up, its client does
not see. -/
abbrev Ret : Op → Type
  | .start .. | .close => Except Exn Unit
  | .initializeAgent => Except Exn Bool
  | .newSession .. => Except Exn String
  | .loadSession .. => Except Exn Nat
  | .sendPrompt .. => Except Exn PromptResult
  | .now => String
  | .recall .. => Except Exn (Option StoredSession)
  | .remember _ | .touch .. | .forget .. => Written

abbrev Program (α : Type) := Prog Op Ret Exn α

abbrev call (o : Op) : Program (Ret o) := Prog.op o

/-! ## The store -/

/-- `AcpSessionStore.remember`. -/
def remember (taskId runner sessionId cwd : String) : Program Unit := do
  let now ← call .now
  let written ← call (.remember ⟨taskId, runner, sessionId, cwd, now, now⟩)
  Prog.ofExcept written.get

/-- `AcpSessionStore.touch`. -/
def touch (taskId runner : String) : Program Unit := do
  let now ← call .now
  let written ← call (.touch taskId runner now)
  Prog.ofExcept written.get

/-- `AcpSessionStore.forget`. -/
def forget (taskId runner : String) : Program Unit := do
  let written ← call (.forget taskId runner)
  Prog.ofExcept written.get

/-! ## The run -/

/-- `cwd or "."`. -/
def orDot : Option String → String
  | none | some "" => "."
  | some cwd => cwd

/-- `AcpClient.load_session`. -/
def loadSession (supportsLoad : Bool) (sessionId cwd : String) : Program Bool := do
  if !supportsLoad then return false
  let _ ← Prog.ofExcept (← call (.loadSession sessionId cwd))
  return true

/-- The `try` block of `_resume`. -/
def tryResume (runner : Runner) (supportsLoad : Bool) (taskId : String) (stored : StoredSession) :
    Program Bool := do
  let cwd := if stored.cwd = "" then orDot runner.cwd else stored.cwd
  if ← loadSession supportsLoad stored.sessionId cwd then
    touch taskId runner.name
    return true
  return false

/-- `_resume`: the session that was taken up, if one was. -/
def resume (runner : Runner) (supportsLoad : Bool) (taskId : String) : Program (Option String) := do
  if !runner.sessions then return none
  match ← Prog.ofExcept (← call (.recall taskId runner.name)) with
  | none => return none
  | some stored =>
    let loaded ← Prog.handle (tryResume runner supportsLoad taskId stored) fun
      | .acp _ => return false
      | e => throw e
    if loaded then return some stored.sessionId
    forget taskId runner.name
    return none

/-- `_remember`. -/
def rememberSession (runner : Runner) (taskId sessionId : String) : Program Unit := do
  if runner.sessions then remember taskId runner.name sessionId (orDot runner.cwd)

/-- The `try` block of `run`: whether a session was resumed, and what the prompt returned. -/
def converse (attempt : Attempt) : Program (Bool × PromptResult) := do
  let runner := attempt.runner
  Prog.ofExcept (← call (.start runner.command runner.cwd))
  let supportsLoad ← Prog.ofExcept (← call .initializeAgent)
  match ← resume runner supportsLoad attempt.taskId with
  | some sessionId =>
    let result ← Prog.ofExcept (← call (.sendPrompt sessionId attempt.prompt attempt.config.timeoutSeconds))
    return (true, result)
  | none =>
    let sessionId ← Prog.ofExcept (← call (.newSession (orDot runner.cwd) attempt.servers))
    rememberSession runner attempt.taskId sessionId
    let result ← Prog.ofExcept (← call (.sendPrompt sessionId attempt.prompt attempt.config.timeoutSeconds))
    return (false, result)

/-- `_transcript`. -/
def transcript (text terminal : String) : String :=
  if terminal = "" then text
  else if text = "" then terminal else s!"{text}\n\n--- terminal ---\n{terminal}"

/-- The result of a conversation that ended. `redactSecrets` is `SecurityGuard.redact_secrets`. -/
def resultOf (redactSecrets : String → String) (attempt : Attempt) (resumed : Bool) (result : PromptResult) :
    RunnerResult :=
  let names := result.permissionsDenied.dedup.mergeSort fun a b => decide (a ≤ b)
  let denied := if names.isEmpty then "" else "Denied permission for: " ++ ", ".intercalate names
  let text := redactSecrets result.text
  { taskId := attempt.taskId
    success := result.completed && result.permissionsDenied.isEmpty
    output := text
    error := if !result.completed || denied ≠ "" then denied else ""
    transcript := transcript text result.terminalOutput
    evidence := [("stop_reason", result.stopReason), ("mcp", attempt.runner.mcp.explain attempt.config.role),
      ("session", if resumed then "resumed" else "new"), ("files_changed", ", ".intercalate result.filesChanged)] }

/-- The `try` block with its handler: an `AcpError` becomes a result. -/
def tryConverse (attempt : Attempt) : Program (Except String (Bool × PromptResult)) :=
  Prog.handle (do return Except.ok (← converse attempt)) fun
    | .acp message => return Except.error message
    | e => throw e

/-- `AcpRunner.run`. -/
def run (redactSecrets : String → String) (attempt : Attempt) : Program RunnerResult := do
  match ← Prog.ensure (tryConverse attempt) (do Prog.ofExcept (← call .close)) with
  | .error message => return { taskId := attempt.taskId, success := false, error := message }
  | .ok (resumed, result) => return resultOf redactSecrets attempt resumed result

/-! ## The world -/

/-- A session, the attempt it was created for, and the servers it was created with. -/
structure Created where
  attempt : Nat
  sessionId : String
  servers : List Json
  deriving DecidableEq

/-- A prompt that was sent: under which id, and the number of the session its client was on. -/
structure Prompt where
  attempt : Nat
  sessionId : String
  session : Option Nat
  deriving DecidableEq

/-- The stored sessions. Nobody reads what follows them: the sessions that were created, in order, the one
each attempt's client is on, and the prompts. -/
structure World where
  rows : List StoredSession := []
  created : List Created := []
  session : Nat → Option Nat := fun _ => none
  prompts : List Prompt := []

namespace World

variable (w : World)

/-- `ON CONFLICT(task_id, runner) DO UPDATE`: a row that is there keeps its place and when it was created. -/
def remember (row : StoredSession) : World :=
  if w.rows.any fun old => old.key = row.key then
    { w with rows := w.rows.map fun old => if old.key = row.key then
        { old with sessionId := row.sessionId, cwd := row.cwd, lastUsedAt := row.lastUsedAt } else old }
  else { w with rows := w.rows ++ [row] }

def touch (key : String × String) (now : String) : World :=
  { w with rows := w.rows.map fun old => if old.key = key then { old with lastUsedAt := now } else old }

def forget (key : String × String) : World := { w with rows := w.rows.filter fun old => old.key ≠ key }

/-- A session is created for attempt `i`. -/
def create (i : Nat) (sessionId : String) (servers : List Json) : World :=
  { w with created := w.created ++ [⟨i, sessionId, servers⟩]
           session := Function.update w.session i (some w.created.length) }

end World

/-- What every call may answer, and what it does. A prompt whose answer is an exception may have been sent. -/
def exec (i : Nat) : (o : Op) → World → Ret o → Option World
  | .start .., w, _ | .initializeAgent, w, _ | .close, w, _ | .now, w, _ => some w
  | .newSession _ servers, w, r =>
      match r with
      | .ok sessionId => some (w.create i sessionId servers)
      | .error _ => some w
  | .loadSession sessionId _, w, r =>
      match r with
      | .ok k =>
        if (w.created[k]?).map Created.sessionId = some sessionId then
          some { w with session := Function.update w.session i (some k) }
        else none
      | .error _ => some w
  | .sendPrompt sessionId _ _, w, _ => some { w with prompts := w.prompts ++ [⟨i, sessionId, w.session i⟩] }
  | .recall taskId runner, w, r =>
      match r with
      | .ok row => if row = Table.lookup StoredSession.key (taskId, runner) w.rows then some w else none
      | .error _ => some w
  | .remember row, w, r => some (if r.applied then w.remember row else w)
  | .touch taskId runner now, w, r => some (if r.applied then w.touch (taskId, runner) now else w)
  | .forget taskId runner, w, r => some (if r.applied then w.forget (taskId, runner) else w)

/-- An attempt has not begun, or is about to. -/
inductive Point
  | idle
  | ready
  deriving DecidableEq

/-- The attempts that are made. -/
structure History where
  attempts : Nat → Attempt
  redactSecrets : String → String

/-- The attempts, sharing one store. -/
def system (history : History) : System Nat Op Ret Exn Point RunnerResult World where
  exec := exec
  code
    | _, .idle => return .inl .ready
    | i, .ready => do return .inr (← run history.redactSecrets (history.attempts i))

/-- Nothing is stored yet. -/
def start (history : History) : Conf Nat Op Ret Exn Point RunnerResult World :=
  (system history).init (fun _ => .idle) {}

end AtlasFlow.Reference.AcpRunner
