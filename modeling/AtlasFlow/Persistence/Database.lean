import AtlasFlow.Concurrency.Pool
import AtlasFlow.Data.Table
import AtlasFlow.Persistence.Rows

/-!
# The database and the calls of the services

`AtlasFlowDatabase`: one connection behind a semaphore, so every statement and every transaction
is one indivisible step, and between two of them any other caller may run. `Op` lists the calls
the services, the engine and the repositories make; a service is a `Program` over them. What a call
does is fixed by the system that runs the program; for the statements that is
`Database.answers`, the same everywhere.

The tables of runs, tasks, attempts and events hold what reading their rows gives (`persisted`): by
`RunRow.read_parametersFor` and its siblings that is a faithful name for the row. `plans` keeps its
text, because `PlanRepository` compares rows.
-/

namespace AtlasFlow

open Concurrency

/-! ## Tables -/

/-- The operational state store. `events` is in the order of its sequence numbers. -/
structure Database where
  plans : List PlanRow := []
  runs : List Run := []
  tasks : List RunTask := []
  attempts : List Attempt := []
  events : List DomainEvent := []
  deriving DecidableEq, Inhabited

/-- One upsert of one entity. -/
inductive Write where
  | plan (row : PlanRow)
  | run (run : Run)
  | task (task : RunTask)
  | attempt (attempt : Attempt)
  deriving DecidableEq

namespace Database

/-- `INSERT OR REPLACE INTO …`. -/
def apply (write : Write) (db : Database) : Database :=
  match write with
  | .plan row => { db with plans := Table.upsert PlanRow.id row db.plans }
  | .run run => { db with runs := Table.upsert Run.id run.persisted db.runs }
  | .task task => { db with tasks := Table.upsert RunTask.id task.persisted db.tasks }
  | .attempt attempt =>
      { db with attempts := Table.upsert Attempt.id attempt.persisted db.attempts }

/-- The event as it is read back. -/
def persistedEvent (event : DomainEvent) : DomainEvent :=
  { event with timestamp := SqlValues.toUniversalTime event.timestamp }

/-- `INSERT OR IGNORE INTO events …`: an event whose id is in the log is not written again. -/
def insertEvent (event : DomainEvent) (db : Database) : Database :=
  if db.events.any fun e => e.id = event.id then db
  else { db with events := db.events ++ [persistedEvent event] }

def findPlan (id : PlanId) (db : Database) : Option PlanRow :=
  Table.lookup PlanRow.id id.value db.plans

def findRun (id : RunId) (db : Database) : Option Run := Table.lookup Run.id id db.runs

def tasksOf (runId : RunId) (db : Database) : List RunTask :=
  db.tasks.filter fun task => task.runId = runId

def attemptsOf (runId : RunId) (db : Database) : List Attempt :=
  db.attempts.filter fun attempt => attempt.runId = runId

def eventsOf (runId : RunId) (db : Database) : List DomainEvent :=
  db.events.filter fun event => event.runId = some runId

@[simp] theorem findPlan_run (id : PlanId) (run : Run) (db : Database) :
    (db.apply (.run run)).findPlan id = db.findPlan id := rfl

theorem findPlan_plan (id : PlanId) (row : PlanRow) (db : Database) :
    (db.apply (.plan row)).findPlan id = if id.value = row.id then some row else db.findPlan id :=
  Table.lookup_upsert id.value row db.plans

@[simp] theorem insertEvent_plans (event : DomainEvent) (db : Database) :
    (db.insertEvent event).plans = db.plans := by
  unfold insertEvent
  split <;> rfl

@[simp] theorem insertEvent_runs (event : DomainEvent) (db : Database) :
    (db.insertEvent event).runs = db.runs := by
  unfold insertEvent
  split <;> rfl

@[simp] theorem insertEvent_tasks (event : DomainEvent) (db : Database) :
    (db.insertEvent event).tasks = db.tasks := by
  unfold insertEvent
  split <;> rfl

@[simp] theorem insertEvent_attempts (event : DomainEvent) (db : Database) :
    (db.insertEvent event).attempts = db.attempts := by
  unfold insertEvent
  split <;> rfl

end Database

/-! ## Calls -/

/-- The token a call is given: `none` is `CancellationToken.None`, `source` somebody can cancel. -/
inductive CancellationToken | none | source
  deriving DecidableEq, Repr, Inhabited

/-- What a task's runner reports. -/
structure TaskOutcome where
  isSuccess : Bool
  detail : String
  deriving DecidableEq, Repr, Inhabited

/-- A value a client of the repository holds. -/
inductive Entity where
  | run (run : Run)
  | task (task : RunTask)
  | attempt (attempt : Attempt)
  deriving DecidableEq

/-- The awaited and otherwise observable calls of the C# code. `invoke` is not a call: it marks
the moment a client calls `TransitionAsync` with a value it holds. -/
inductive Op where
  | selectPlan (id : PlanId) (ct : CancellationToken)
  | selectRun (id : RunId) (ct : CancellationToken)
  | selectTasks (runId : RunId) (ct : CancellationToken)
  | selectAttempts (runId : RunId) (ct : CancellationToken)
  | selectEvents (runId : RunId) (ct : CancellationToken)
  | execute (write : Write) (ct : CancellationToken)
  | executeInTransaction (write : Write) (event : DomainEvent) (ct : CancellationToken)
  | newRunId
  | newTaskId
  | newEventId
  | utcNow
  | listeners
  | notify (listener : Nat) (event : DomainEvent)
  | isCancellationRequested
  | runTask (task : RunTask)
  | startInBackground (run : Run) (plan : Plan)
  | subscribe (runId : RunId)
  | readChannel (listener : Nat) (ct : CancellationToken)
  | yieldReturn (event : DomainEvent)
  | unsubscribe (listener : Nat)
  | invoke (held : Entity)
  | cancel

abbrev Ret : Op → Type
  | .selectPlan .. => Except Exn (Option PlanRow)
  | .selectRun .. => Except Exn (Option Run)
  | .selectTasks .. => Except Exn (List RunTask)
  | .selectAttempts .. => Except Exn (List Attempt)
  | .selectEvents .. => Except Exn (List DomainEvent)
  | .execute .. => Except Exn Unit
  | .executeInTransaction .. => Except Exn Unit
  | .newRunId => RunId
  | .newTaskId => TaskId
  | .newEventId => String
  | .utcNow => DateTimeOffset
  | .listeners => List Nat
  | .notify .. => Unit
  | .isCancellationRequested => Bool
  | .runTask _ => Except Exn TaskOutcome
  | .startInBackground .. => Unit
  | .subscribe _ => Nat
  | .readChannel .. => Except Exn DomainEvent
  | .yieldReturn _ => Unit
  | .unsubscribe _ => Unit
  | .invoke _ => Unit
  | .cancel => Unit

instance (o : Op) : Inhabited (Ret o) := by
  cases o <;> infer_instance

abbrev Program (α : Type) := Prog Op Ret Exn α

/-! ### Statements

A statement given a token somebody can cancel may throw `OperationCanceledException` instead, and
has then done nothing: `ExecuteInTransactionAsync` only commits after its last check. -/

namespace Database

/-- A statement answered, or called off. -/
def orCanceled {α : Type} (ct : CancellationToken) (db : Database) (r : Except Exn α)
    (answered : α → Option Database) : Option Database :=
  match r with
  | .ok a => answered a
  | .error e => if ct = .source ∧ e = .operationCanceled then some db else none

/-- What each statement may answer, and the database it leaves. Rows come in any order where the
query does not determine it. -/
def answers : (o : Op) → Database → Ret o → Option Database
  | .selectPlan id ct, db, r =>
      orCanceled ct db r fun row => if row = db.findPlan id then some db else none
  | .selectRun id ct, db, r =>
      orCanceled ct db r fun run => if run = db.findRun id then some db else none
  | .selectTasks runId ct, db, r =>
      orCanceled ct db r fun tasks => if tasks.Perm (db.tasksOf runId) then some db else none
  | .selectAttempts runId ct, db, r =>
      orCanceled ct db r fun attempts =>
        if attempts.Perm (db.attemptsOf runId) then some db else none
  | .selectEvents runId ct, db, r =>
      orCanceled ct db r fun events => if events = db.eventsOf runId then some db else none
  | .execute write ct, db, r => orCanceled ct db r fun _ => some (db.apply write)
  | .executeInTransaction write event ct, db, r =>
      orCanceled ct db r fun _ => some ((db.apply write).insertEvent event)
  | _, _, _ => none

end Database

end AtlasFlow
