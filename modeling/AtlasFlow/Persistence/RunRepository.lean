import AtlasFlow.Persistence.Database

/-!
# Runs, tasks, attempts: moving one and recording why

`RunRepository.TransitionAsync` and `CommitAsync`, `EventStore.PublishAsync`. The three
`TransitionAsync` are one procedure over three kinds of entity: check the move against the state the
caller's value has, write the whole row and the event in one transaction, publish the event.
`EntityKind` is what the procedure needs of a kind, with the laws of its table and its columns.
-/

namespace AtlasFlow

open Concurrency SqlValues

namespace EventStore

/-- `PublishAsync`: a snapshot of the listeners, then each in turn; what one throws is swallowed. -/
def publishAsync (event : DomainEvent) : Program Unit := do
  let listeners ← Prog.op .listeners
  Prog.forEach (fun listener => Prog.op (Op.notify listener event)) listeners

end EventStore

/-! ## Kinds of entities -/

/-- A kind of entity: how it is stored, and how it moves. `E` are its values, `S` its states, `κ`
its keys, `R` its rows. -/
structure EntityKind (E S κ R : Type) [DecidableEq κ] where
  name : String
  key : E → κ
  keyText : E → String
  state : E → S
  withState : E → S → E
  canTransition : S → S → Bool
  stateName : S → String
  write : E → Write
  /-- `ParametersFor`. -/
  row : E → R
  /-- What reading the row gives. -/
  persisted : E → E
  stored : Database → List E
  stored_write : ∀ e db, stored (db.apply (write e)) = Table.upsert key (persisted e) (stored db)
  stored_insertEvent : ∀ event db, stored (db.insertEvent event) = stored db
  row_persisted : ∀ e, row (persisted e) = row e
  key_persisted : ∀ e, key (persisted e) = key e
  state_persisted : ∀ e, state (persisted e) = state e
  state_withState : ∀ e s, state (withState e s) = s
  key_withState : ∀ e s, key (withState e s) = key e
  withState_withState : ∀ e s t, withState (withState e s) t = withState e t
  withState_state : ∀ e, withState e (state e) = e
  key_of_row : ∀ a b, row a = row b → key a = key b
  state_of_row : ∀ a b, row a = row b → state a = state b
  row_withState : ∀ a b s, row a = row b → row (withState a s) = row (withState b s)

def runKind : EntityKind Run RunState RunId RunRow where
  name := "run"
  key := Run.id
  keyText run := run.id.value
  state := Run.state
  withState run s := { run with state := s }
  canTransition := RunState.canTransition
  stateName := RunState.name
  write := .run
  row := RunRow.parametersFor
  persisted := Run.persisted
  stored := Database.runs
  stored_write _ _ := rfl
  stored_insertEvent := Database.insertEvent_runs
  row_persisted := RunRow.parametersFor_persisted
  key_persisted _ := rfl
  state_persisted _ := rfl
  state_withState _ _ := rfl
  key_withState _ _ := rfl
  withState_withState _ _ _ := rfl
  withState_state _ := rfl
  key_of_row a b h := congrArg RunId.mk (congrArg RunRow.id h)
  state_of_row a b h := text_injective (congrArg RunRow.state h)
  row_withState a b s h := by
    show ({ RunRow.parametersFor a with state := text s } : RunRow) =
      { RunRow.parametersFor b with state := text s }
    rw [h]

def taskKind : EntityKind RunTask TaskState TaskId TaskRow where
  name := "task"
  key := RunTask.id
  keyText task := task.id.value
  state := RunTask.state
  withState task s := { task with state := s }
  canTransition := TaskState.canTransition
  stateName := TaskState.name
  write := .task
  row := TaskRow.parametersFor
  persisted := RunTask.persisted
  stored := Database.tasks
  stored_write _ _ := rfl
  stored_insertEvent := Database.insertEvent_tasks
  row_persisted := TaskRow.parametersFor_persisted
  key_persisted _ := rfl
  state_persisted _ := rfl
  state_withState _ _ := rfl
  key_withState _ _ := rfl
  withState_withState _ _ _ := rfl
  withState_state _ := rfl
  key_of_row a b h := congrArg TaskId.mk (congrArg TaskRow.id h)
  state_of_row a b h := text_injective (congrArg TaskRow.state h)
  row_withState a b s h := by
    show ({ TaskRow.parametersFor a with state := text s } : TaskRow) =
      { TaskRow.parametersFor b with state := text s }
    rw [h]

def attemptKind : EntityKind Attempt AttemptState AttemptId AttemptRow where
  name := "attempt"
  key := Attempt.id
  keyText attempt := attempt.id.value
  state := Attempt.state
  withState attempt s := { attempt with state := s }
  canTransition := AttemptState.canTransition
  stateName := AttemptState.name
  write := .attempt
  row := AttemptRow.parametersFor
  persisted := Attempt.persisted
  stored := Database.attempts
  stored_write _ _ := rfl
  stored_insertEvent := Database.insertEvent_attempts
  row_persisted := AttemptRow.parametersFor_persisted
  key_persisted _ := rfl
  state_persisted _ := rfl
  state_withState _ _ := rfl
  key_withState _ _ := rfl
  withState_withState _ _ _ := rfl
  withState_state _ := rfl
  key_of_row a b h := congrArg AttemptId.mk (congrArg AttemptRow.id h)
  state_of_row a b h := text_injective (congrArg AttemptRow.state h)
  row_withState a b s h := by
    show ({ AttemptRow.parametersFor a with state := text s } : AttemptRow) =
      { AttemptRow.parametersFor b with state := text s }
    rw [h]

/-! ## Transitions -/

namespace RunRepository

/-- `CommitAsync`: the row and the event in one transaction, then the subscribers. -/
def commitAsync (write : Write) (event : DomainEvent) (ct : CancellationToken) : Program Unit := do
  Prog.ofExcept (← Prog.op (.executeInTransaction write event ct))
  EventStore.publishAsync event

/-- `TransitionAsync`, for any kind of entity. -/
def transition {E S κ R : Type} [DecidableEq κ] (kind : EntityKind E S κ R) (entity : E) (target : S)
    (event : DomainEvent) (ct : CancellationToken) : Program E := do
  if kind.canTransition (kind.state entity) target then
    let updated := kind.withState entity target
    commitAsync (kind.write updated) event ct
    return updated
  else
    throw (InvalidTransitionException.for kind.name (kind.keyText entity)
      (kind.stateName (kind.state entity)) (kind.stateName target))

/-- `TransitionAsync(Run, …)`. -/
def transitionRun : Run → RunState → DomainEvent → CancellationToken → Program Run :=
  transition runKind

/-- `TransitionAsync(RunTask, …)`. -/
def transitionTask : RunTask → TaskState → DomainEvent → CancellationToken → Program RunTask :=
  transition taskKind

/-- `TransitionAsync(Attempt, …)`. -/
def transitionAttempt :
    Attempt → AttemptState → DomainEvent → CancellationToken → Program Attempt :=
  transition attemptKind

/-- `FindAsync`. -/
def findAsync (id : RunId) (ct : CancellationToken) : Program (Option Run) := do
  Prog.ofExcept (← Prog.op (.selectRun id ct))

/-- `ListTasksAsync`. -/
def listTasksAsync (runId : RunId) (ct : CancellationToken) : Program (List RunTask) := do
  Prog.ofExcept (← Prog.op (.selectTasks runId ct))

/-- `ListAttemptsAsync`. -/
def listAttemptsAsync (runId : RunId) (ct : CancellationToken) : Program (List Attempt) := do
  Prog.ofExcept (← Prog.op (.selectAttempts runId ct))

end RunRepository

end AtlasFlow
