import AtlasFlow.Concurrency.Pool
import AtlasFlow.Data.Table
import AtlasFlow.Reference.GoalRunner

/-!
# One run in execution

`execute`, the coroutines it gathers, and any number of requests to stop the run, on one event loop.
What a runner, git or a gate's process does is a choice of the answer; a runner's task ends by
`CancelledError` only if it was cancelled. Nobody else writes the rows of the run.

`Ledger` is what an observer writes down: nothing the program does depends on it.
-/

namespace AtlasFlow.Reference

open Concurrency

/-! ## The world -/

inductive Party
  | execute
  | coroutine (n : Nat)
  | cancelRun (n : Nat)
  deriving DecidableEq

/-- The tables that are read back, and the two that are only written. -/
structure Database where
  runs : List Run := []
  tasks : List Task := []
  attempts : List Attempt := []
  events : List DomainEvent := []
  evidence : List Evidence := []

namespace Database

def findRun (id : RunId) (db : Database) : Option Run := Table.lookup Run.id id db.runs

def findTask (id : TaskId) (db : Database) : Option Task := Table.lookup Task.id id db.tasks

def tasksOf (runId : RunId) (db : Database) : List Task := db.tasks.filter fun t => t.runId = runId

def attemptsOf (runId : RunId) (db : Database) : List Attempt :=
  db.attempts.filter fun a => a.runId = runId

/-- `INSERT OR REPLACE INTO runs`. -/
def upsertRun (run : Run) (db : Database) : Database :=
  { db with runs := Table.upsert Run.id run db.runs }

/-- `INSERT OR REPLACE INTO tasks`. -/
def upsertTask (task : Task) (db : Database) : Database :=
  { db with tasks := Table.upsert Task.id task db.tasks }

/-- `INSERT OR REPLACE INTO attempts`. -/
def upsertAttempt (attempt : Attempt) (db : Database) : Database :=
  { db with attempts := Table.upsert Attempt.id attempt db.attempts }

/-- `INSERT OR IGNORE INTO events`. -/
def insertEvent (event : DomainEvent) (db : Database) : Database :=
  { db with events := if db.events.any fun e => e.id = event.id then db.events
                      else db.events ++ [event] }

end Database

/-- A coroutine that `gather` created, and how it ended. -/
structure Coroutine where
  run : Run
  entry : Entry
  result : Option (Except PyExn TaskOutcome) := none

/-- The task a coroutine runs. -/
abbrev Coroutine.task (c : Coroutine) : Task := c.entry.1

/-- The calls to the outside that may raise. -/
inductive Outside | resolve | createWorktree | commitAll | integrate | split | launch
  deriving DecidableEq

/-- A call to the outside that raised: in whose code, which call, and what. -/
structure Raise where
  party : Party
  outside : Outside
  error : PyExn
  deriving DecidableEq

/-- How an attempt's runner answered, and the model it was asked for. -/
structure Heard where
  model : String
  answer : Except PyExn RunnerResult

def Heard.succeeded (h : Heard) : Bool :=
  match h.answer with
  | .ok result => result.success
  | .error _ => false

def Heard.cancelled (h : Heard) : Bool :=
  match h.answer with
  | .error .cancelledError => true
  | _ => false

/-- What has happened to one task: it holds a reservation whose attempt has not started; its first
reservation was refused; what its attempts' runners answered; whether each call of `integrate`
for it merged its branch; and whether a call to the outside raised in its coroutine. -/
structure Marks where
  reserved : Bool := false
  refused : Bool := false
  heard : List Heard := []
  integrations : List Bool := []
  raised : Bool := false

namespace Marks

/-- Some attempt succeeded. -/
def implemented (m : Marks) : Bool := m.heard.any Heard.succeeded

/-- The attempts after the first that succeeded: those of reviewers. -/
def reviews (m : Marks) : List Heard := (m.heard.dropWhile fun h => !h.succeeded).tail

/-- A reviewer's attempt was cancelled. -/
def cut (m : Marks) : Bool := m.reviews.any Heard.cancelled

end Marks

/-- What has happened to the run. A request was `accepted`; `execute` is `over` with asking whether
there is one, because its last question was answered or the request was cleared; a request came
`late` if it was accepted after that. The run was `exposed` if a request was accepted while some
task held a reservation whose attempt had not started, or a reservation was granted after it;
`startedAfter`, if an attempt was started after it. -/
structure Ledger where
  accepted : Bool := false
  isOver : Bool := false
  late : Bool := false
  exposed : Bool := false
  startedAfter : Bool := false
  raised : List Raise := []
  marks : TaskId → Marks := fun _ => {}

/-- `active` is `Harness._active_tasks`: for each runner's task that has not ended, the model and
whether it was cancelled. -/
structure World where
  db : Database
  budget : BudgetLedger := default
  requested : Dict RunId String := []
  active : Dict TaskId (String × Bool) := []
  coroutines : List Coroutine := []
  ledger : Ledger := {}

namespace Ledger

/-- Write something down about a task. -/
def mark (taskId : TaskId) (f : Marks → Marks) (L : Ledger) : Ledger :=
  { L with marks := Function.update L.marks taskId (f (L.marks taskId)) }

/-- A request was accepted, while some task held a reservation or not. -/
def accept (holding : Bool) (L : Ledger) : Ledger :=
  { L with accepted := true, late := L.late || L.isOver, exposed := L.exposed || holding }

/-- A reservation was granted to a task. -/
def reserve (taskId : TaskId) (L : Ledger) : Ledger :=
  { L.mark taskId fun m => { m with reserved := true } with exposed := L.exposed || L.accepted }

/-- A reservation was refused to a task. -/
def refuse (taskId : TaskId) (L : Ledger) : Ledger :=
  L.mark taskId fun m => { m with refused := m.refused || m.heard.isEmpty }

/-- An attempt at a task was started. -/
def start (taskId : TaskId) (L : Ledger) : Ledger :=
  { L.mark taskId fun m => { m with reserved := false } with
    startedAfter := L.startedAfter || L.accepted }

/-- A task's runner answered. -/
def hear (taskId : TaskId) (h : Heard) (L : Ledger) : Ledger :=
  L.mark taskId fun m => { m with heard := m.heard ++ [h] }

/-- `integrate` was called for a task. -/
def integrate (taskId : TaskId) (merged : Bool) (L : Ledger) : Ledger :=
  L.mark taskId fun m => { m with integrations := m.integrations ++ [merged] }

end Ledger

namespace World

/-- The task of the coroutine a call comes from. -/
def taskOf (w : World) : Party → Option TaskId
  | .coroutine n => w.coroutines[n]?.map fun c => c.task.id
  | _ => none

/-- Write something down about the task of the coroutine a call comes from. -/
def note (party : Party) (f : TaskId → Ledger → Ledger) (w : World) : World :=
  match w.taskOf party with
  | some taskId => { w with ledger := f taskId w.ledger }
  | none => w

/-- A call to the outside was answered. -/
def outside {α : Type} (party : Party) (call : Outside) (r : Except PyExn α) (w : World) : World :=
  match r with
  | .ok _ => w
  | .error error =>
    World.note party (fun taskId L => L.mark taskId fun m => { m with raised := true })
      { w with ledger := { w.ledger with raised := w.ledger.raised ++ [⟨party, call, error⟩] } }

/-- A coroutine has ended. -/
def finish (n : Nat) (result : Except PyExn TaskOutcome) (w : World) : World :=
  { w with coroutines := w.coroutines.modify n fun c => { c with result := some result } }

/-- Some task holds a reservation whose attempt has not started. -/
def holding (w : World) : Bool := w.coroutines.any fun c => (w.ledger.marks c.task.id).reserved

end World

/-! ## What every call may answer -/

/-- The rows of the result of a `gather`, or one of the exceptions that ended a coroutine of it. -/
def joined (cs : List Coroutine) : Except PyExn (List TaskOutcome) → Bool
  | .ok outcomes =>
    cs.length = outcomes.length ∧ (cs.zip outcomes).all fun c =>
      match c.1.result with
      | some (.ok outcome) => outcome = c.2
      | _ => false
  | .error error => cs.any fun c =>
      match c.result with
      | some (.error e) => e = error
      | _ => false

/-- A call to the outside may raise any exception but `CancelledError`. -/
def raises {α : Type} : Except PyExn α → Bool
  | .error .cancelledError => false
  | _ => true

/-- Whether a call of `integrate` merged the branch. -/
def merged : Except PyExn IntegrationResult → Bool
  | .ok integration => integration.integrated
  | .error _ => false

/-- What every call may answer, and what it does. -/
def exec (g : GoalRunner) : Party → (o : Op) → World → Ret o → Option World
  | _, .saveRun run, w, _ => some { w with db := w.db.upsertRun run }
  | _, .loadRun runId, w, r => if r = w.db.findRun runId then some w else none
  | _, .saveTask task, w, _ => some { w with db := w.db.upsertTask task }
  | _, .loadTasks runId, w, r => if r.Perm (w.db.tasksOf runId) then some w else none
  | _, .saveAttempt attempt, w, _ => some { w with db := w.db.upsertAttempt attempt }
  | _, .loadAttempts runId, w, r => if r.Perm (w.db.attemptsOf runId) then some w else none
  | _, .commitRun run event, w, _ => some { w with db := (w.db.upsertRun run).insertEvent event }
  | _, .commitTask task event, w, _ => some { w with db := (w.db.upsertTask task).insertEvent event }
  | party, .commitAttempt attempt event, w, _ =>
    let w := { w with db := (w.db.upsertAttempt attempt).insertEvent event }
    some (if attempt.state = .starting then w.note party Ledger.start else w)
  | _, .saveEvidence evidence, w, _ =>
    some { w with db := { w.db with evidence := w.db.evidence ++ [evidence] } }
  | _, .setBudget ledger, w, _ => some { w with budget := ledger }
  | party, .reserveAttempt, w, r =>
    let (answer, budget) := w.budget.reserveAttempt
    match answer, r with
    | .ok (), .ok () => some (World.note party Ledger.reserve { w with budget })
    | .error e, .error e' => if e' = e then some (w.note party Ledger.refuse) else none
    | _, _ => none
  | _, .recordUsage usage, w, _ => some { w with budget := w.budget.record usage }
  | _, .isRequested runId poll, w, r =>
    if r = (w.requested.get? runId).isSome then
      some (if poll = .afterLoop ∧ r = false then { w with ledger := { w.ledger with isOver := true } }
        else w)
    else none
  | _, .reason runId, w, r => if r = (w.requested.get? runId).getD "" then some w else none
  | _, .request runId, w, _ =>
    some { w with
      requested := w.requested.setDefault runId "cancelled by request"
      ledger := w.ledger.accept w.holding }
  | _, .clear runId, w, _ =>
    some { w with requested := w.requested.pop runId, ledger := { w.ledger with isOver := true } }
  | party, .resolve name, w, r =>
    if r = g.runners.contains name then
      some (w.outside party .resolve
        (if r then .ok () else .error (.valueError s!"Unknown runner: {name}")))
    else none
  | _, .startRunner taskId _ config, w, _ =>
    some { w with active := w.active.set taskId (config.model, false) }
  | _, .awaitRunner taskId, w, r =>
    match w.active.get? taskId with
    | none => none
    | some (model, cancelled) =>
      if raises r || cancelled then
        some { w with active := w.active.pop taskId, ledger := w.ledger.hear taskId ⟨model, r⟩ }
      else none
  | _, .cancelTask taskId, w, r =>
    match w.active.get? taskId with
    | some (model, _) =>
      if r then some { w with active := w.active.set taskId (model, true) } else none
    | none => if r then none else some w
  | party, .createWorktree .., w, r => if raises r then some (w.outside party .createWorktree r) else none
  | party, .commitAll .., w, r => if raises r then some (w.outside party .commitAll r) else none
  | party, .integrate .., w, r =>
    if raises r then some ((w.outside party .integrate r).note party fun taskId =>
      Ledger.integrate taskId (merged r)) else none
  | party, .split command, w, r =>
    if r = Shlex.split command then some (w.outside party .split r) else none
  | party, .launch _, w, r => if raises r then some (w.outside party .launch r) else none
  | _, .gather run batch, w, r =>
    if r = w.coroutines.length then
      some { w with coroutines := w.coroutines ++ batch.map fun entry => { run, entry } }
    else none
  | _, .join first count, w, r =>
    if joined ((w.coroutines.drop first).take count) r then some w else none
  | .coroutine n, .begin, w, r =>
    match w.coroutines[n]? with
    | some c => if c.result.isNone ∧ r = (c.run, c.entry) then some w else none
    | none => none
  | .coroutine n, .finish result, w, _ => some (w.finish n result)
  | _, .publish _, w, _ | _, .recordDecision .., w, _ | _, .recordObservation .., w, _
  | _, .newEvent, w, _ | _, .newAttempt, w, _ | _, .now, w, _ | _, .cancelRunner _, w, _
  | _, .communicate, w, _ => some w
  | _, _, _, _ => none

@[simp] theorem World.note_db (w : World) (party : Party) (f : TaskId → Ledger → Ledger) :
    (w.note party f).db = w.db := by
  unfold World.note
  split <;> rfl

@[simp] theorem World.outside_db {α : Type} (w : World) (party : Party) (call : Outside) (r : Except PyExn α) :
    (w.outside party call r).db = w.db := by
  unfold World.outside
  split <;> simp

/-- What a call makes of the stored attempts. -/
theorem exec_attempts {g : GoalRunner} {party : Party} {o : Op} {w w' : World} {r : Ret o}
    (h : exec g party o w r = some w') : w'.db.attempts = w.db.attempts ∨
      ∃ attempt, w'.db.attempts = Table.upsert Attempt.id attempt w.db.attempts := by
  unfold exec at h
  repeat' split at h
  all_goals cases h
  case h_5 => exact .inr ⟨_, rfl⟩
  case h_9.isTrue => exact .inr ⟨_, congrArg Database.attempts (World.note_db _ _ _)⟩
  case h_9.isFalse => exact .inr ⟨_, rfl⟩
  all_goals try exact .inl rfl
  all_goals left
  all_goals simp

/-! ## The system -/

/-- How a party ends. -/
inductive Result where
  | report (report : GoalRunner.Report)
  | ended
  | response (response : Response)

/-- `execute` for one plan, the coroutines it creates, and the requests to stop its run. -/
def system (g : GoalRunner) (plan : Plan) (gen : Generated) :
    System Party Op Ret PyExn GoalRunner.Point Result World where
  exec := exec g
  code
    | .execute, point => Prog.bind (g.execute plan gen point) fun
        | .inl next => .ret (.inl next)
        | .inr report => .ret (.inr (.report report))
    | .coroutine _, _ => Prog.bind g.coroutine fun _ => .ret (.inr .ended)
    | .cancelRun _, _ => Prog.bind (cancelRunRoute gen.runId) fun r => .ret (.inr (.response r))

/-- What `execute` is started in: the ids it will generate are not in use, and nobody has asked its run
to stop. -/
structure Fresh (plan : Plan) (gen : Generated) (w : World) : Prop where
  keyed : Table.Keyed Task.id w.db.tasks
  injective : gen.Injective plan
  runs : w.db.findRun gen.runId = none
  tasks : ∀ row ∈ w.db.tasks, row.runId ≠ gen.runId ∧
    ∀ id ∈ plan.byId.keys, row.id ≠ gen.taskId id
  numbered : Table.Keyed Attempt.id w.db.attempts
  attempts : ∀ a ∈ w.db.attempts, a.runId ≠ gen.runId ∧ ∀ id ∈ plan.byId.keys, a.taskId ≠ gen.taskId id
  evidence : ∀ e ∈ w.db.evidence, ∀ id ∈ plan.byId.keys, e.taskId ≠ some (gen.taskId id)
  requested : w.requested.get? gen.runId = none
  active : w.active = []
  coroutines : w.coroutines = []
  ledger : w.ledger = {}

end AtlasFlow.Reference
