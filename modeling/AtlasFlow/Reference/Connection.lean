import AtlasFlow.Reference.Execution
import AtlasFlow.Reference.Plans

/-!
# Persistence, statement by statement

The coroutines that call the methods of one `Persistence`: one connection, whose statements are executed in
the order in which they are queued, and one lock. A call here is one `await`. What is awaited on the
connection has been queued before, so it is executed also where the `await` ends with `CancelledError`.
-/

namespace AtlasFlow.Reference.Connection

open Concurrency
open SqlValues (text)

/-! ## Statements -/

/-- The tables of one database file. -/
structure Tables extends Database where
  plans : List PlanRecord := []

inductive Row where
  | run (run : Run)
  | task (task : Task)
  | attempt (attempt : Attempt)
  | event (event : DomainEvent)
  | evidence (evidence : Evidence)
  | plan (plan : PlanRecord)
  deriving DecidableEq

/-- The statement that writes a row: `INSERT OR REPLACE`, but for an event `INSERT OR IGNORE`. -/
def write : Row → Tables → Tables
  | .run run, db => { db with toDatabase := db.upsertRun run }
  | .task task, db => { db with toDatabase := db.upsertTask task }
  | .attempt attempt, db => { db with toDatabase := db.upsertAttempt attempt }
  | .event event, db => { db with toDatabase := db.insertEvent event }
  | .evidence evidence, db => { db with evidence := db.evidence ++ [evidence] }
  | .plan plan, db => { db with plans := Table.upsert PlanRecord.id plan db.plans }

/-- The queries of the `load_*` and `list_*` methods. -/
inductive Query where
  | run (runId : RunId)
  | runs
  | tasks (runId : RunId)
  | attempts (runId : RunId)
  | attemptsForTask (taskId : TaskId)
  | events (runId : RunId)
  | evidence (goalId : String)
  | plan (planId : PlanId)
  | plans (goalId : Option String)
  deriving DecidableEq

/-- The rows a query selects, in some order. -/
def select : Query → Tables → List Row
  | .run runId, db => (db.runs.filter fun r => r.id = runId).map .run
  | .runs, db => db.runs.map .run
  | .tasks runId, db => (db.tasks.filter fun t => t.runId = runId).map .task
  | .attempts runId, db => (db.attempts.filter fun a => a.runId = runId).map .attempt
  | .attemptsForTask taskId, db => (db.attempts.filter fun a => a.taskId = taskId).map .attempt
  | .events runId, db => (db.events.filter fun e => e.runId = some runId).map .event
  | .evidence goalId, db => (db.evidence.filter fun e => e.goalId = goalId).map .evidence
  | .plan planId, db => (db.plans.filter fun p => p.id = planId).map .plan
  | .plans goalId, db => (db.plans.filter fun p => goalId.all fun g => p.goalId = g).map .plan

/-! ## Awaits -/

inductive Op where
  | acquire
  | release
  | execute (row : Row)
  | commit
  | rollback
  | query (query : Query)
  | fetch (query : Query) (cursor : List Row)
  | publish (event : DomainEvent)

/-- What became of a statement: whether it was executed, and how the `await` ended. -/
structure Executed where
  done : Bool
  outcome : Except PyExn Unit

abbrev Ret : Op → Type
  | .release => Unit
  | .execute _ => Executed
  | .query _ => Except PyExn (List Row)
  | .fetch .. => Except PyExn (List Row)
  | _ => Except PyExn Unit

abbrev Program (α : Type) := Prog Op Ret PyExn α

abbrev call (o : Op) : Program (Ret o) := Prog.op o

/-- `await` what may raise. -/
def await {α : Type} (p : Program (Except PyExn α)) : Program α := p.bind Prog.ofExcept

/-- `async with self._lock`. -/
def withLock {α : Type} (body : Program α) : Program α := do
  await (call .acquire)
  let result ← tryCatch body fun exc => do
    call .release
    throw exc
  call .release
  return result

/-- `conn.execute`. -/
def executeRow (row : Row) : Program Unit := do
  Prog.ofExcept (← call (.execute row)).outcome

/-- `_transaction`. -/
def transaction (rows : List Row) : Program Unit :=
  withLock do
    tryCatch (Prog.forEach executeRow rows) fun exc => do
      -- `except Exception`
      if exc = .cancelledError then throw exc
      else
        await (call .rollback)
        throw exc
    await (call .commit)

/-- `_execute`. -/
def execute (row : Row) : Program Unit :=
  withLock do
    executeRow row
    await (call .commit)

/-- The body of a `load_*` method. -/
def load (query : Query) : Program (List Row) := do
  let cursor ← await (call (.query query))
  await (call (.fetch query cursor))

/-! ## Methods -/

/-- A change of state, of a row that some coroutine holds. -/
inductive Change where
  | run (run : Run) (toState : RunState)
  | task (task : Task) (toState : TaskState)
  | attempt (attempt : Attempt) (toState : AttemptState)

namespace Change

def allowed : Change → Bool
  | .run row toState => row.state.canTransition toState
  | .task row toState => row.state.canTransition toState
  | .attempt row toState => row.state.canTransition toState

/-- `updated`. -/
def row : Change → Row
  | .run row toState => .run { row with state := toState }
  | .task row toState => .task { row with state := toState }
  | .attempt row toState => .attempt { row with state := toState }

def message : Change → String
  | .run row toState => s!"run {row.id.value}: {text row.state} -> {text toState} is not a valid transition"
  | .task row toState => s!"task {row.id.value}: {text row.state} -> {text toState} is not a valid transition"
  | .attempt row toState =>
    s!"attempt {row.id.value}: {text row.state} -> {text toState} is not a valid transition"

end Change

/-- A call of a method of `Persistence`. -/
inductive Method where
  | transition (change : Change) (event : DomainEvent)
  | save (row : Row)
  | saveEvent (event : DomainEvent)
  | savePlan (plan : PlanRecord)
  | load (query : Query)

/-- `record_run_transition`, `record_task_transition` and `record_attempt_transition`. -/
def recordTransition (change : Change) (event : DomainEvent) : Program Unit := do
  if change.allowed then
    transaction [change.row, .event event]
    await (call (.publish event))
  else throw (.invalidTransition change.message)

/-- `save_event`. -/
def saveEvent (event : DomainEvent) : Program Unit := do
  execute (.event event)
  await (call (.publish event))

/-- `save_plan`. -/
def savePlan (plan : PlanRecord) : Program Unit := do
  match ← load (.plan plan.id) with
  | .plan existing :: _ =>
    if existing.state = .draft ∨ (existing.state = .locked ∧ plan.state = .consumed) then
      execute (.plan plan)
    else if existing ≠ plan then
      throw (.exception s!"Plan {plan.id.value} is immutable after {text existing.state}")
    else return ()
  | _ => execute (.plan plan)

/-- The rows a method writes. -/
def Method.rows : Method → List Row
  | .transition change event => [change.row, .event event]
  | .save row => [row]
  | .saveEvent event => [.event event]
  | .savePlan plan => [.plan plan]
  | .load _ => []

def Method.isTransition : Method → Bool
  | .transition .. => true
  | _ => false

/-- The text of a method. -/
def program : Method → Program Unit
  | .transition change event => recordTransition change event
  | .save row => execute row
  | .saveEvent event => saveEvent event
  | .savePlan plan => savePlan plan
  | .load query => do let _ ← load query

/-! ## The connection -/

/-- A statement, and the coroutine it comes from. -/
abbrev Entry := Nat × Row

/-- The database as it was opened, the statements that have been committed since, those of the open
transaction, and who holds the lock. For an observer: the rows that a query has read, and those that a
`load_*` method got. -/
structure World where
  opened : Tables
  committed : List Entry := []
  pending : List Entry := []
  lock : Option Nat := none
  read : List Row := []
  returned : List Row := []

namespace World

def tables (w : World) (entries : List Entry) : Tables := entries.foldl (fun db e => write e.2 db) w.opened

/-- What is on disk. -/
def stored (w : World) : Tables := w.tables w.committed

/-- What a query on this connection sees. -/
def visible (w : World) : Tables := w.tables (w.committed ++ w.pending)

end World

/-- An `await` on the connection either succeeds or is cancelled. -/
def delivered {α : Type} : Except PyExn α → Bool
  | .ok _ => true
  | .error exc => exc = .cancelledError

/-- What every `await` may answer, and what happens. A statement that fails is not executed; a commit and a
rollback do not fail. -/
def exec (n : Nat) : (o : Op) → World → Ret o → Option World
  | .acquire, w, r =>
    match r with
    | .ok () => if w.lock = none then some { w with lock := some n } else none
    | .error exc => if exc = .cancelledError then some w else none
  | .release, w, _ => some { w with lock := none }
  | .execute row, w, r =>
    if r.done then
      if delivered r.outcome then some { w with pending := w.pending ++ [(n, row)] } else none
    else if r.outcome matches .error _ then some w else none
  | .commit, w, r =>
    if delivered r then some { w with committed := w.committed ++ w.pending, pending := [] } else none
  | .rollback, w, r => if delivered r then some { w with pending := [] } else none
  | .query query, w, r =>
    let w' := { w with read := w.read ++ select query w.visible }
    match r with
    | .ok cursor => if cursor.Perm (select query w.visible) then some w' else none
    | .error _ => some w'
  | .fetch query cursor, w, r =>
    let w' := { w with read := w.read ++ select query w.visible }
    match r with
    | .ok rows =>
      if rows.all fun row => row ∈ cursor ∨ row ∈ select query w.visible then
        some { w' with returned := w.returned ++ rows }
      else none
    | .error _ => some w'
  | .publish _, w, r => if delivered r then some w else none

/-- Any number of coroutines, each of which calls one method. -/
def connection (method : Nat → Method) : System Nat Op Ret PyExn Unit Unit World where
  exec := exec
  code n _ := (program (method n)).bind fun _ => .ret (.inr ())

end AtlasFlow.Reference.Connection
