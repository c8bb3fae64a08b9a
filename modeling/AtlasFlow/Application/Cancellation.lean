import AtlasFlow.Application.Services
import AtlasFlow.Orchestration.Uncancelled

/-!
# Cancelling a run

`RunService.CancelAsync`, for a run that is in flight in this process and for one that is not, beside the
rest of a `StartAsync` that has inserted its run and has not registered its token yet.

A run that is not in flight is closed if it is planning, ready or running, and in no other state
(`closes_iff`); and a request that looks for the token before it is registered finds nothing to
cancel, so the run is executed all the same (`cancel_closes_iff`).
-/

namespace AtlasFlow

open Concurrency

/-! ## The registry -/

/-- The calls on `_inFlight`. -/
inductive RegistryOp
  | tryGetValue (id : RunId)
  | tryRemove (id : RunId)

abbrev RegistryRet : RegistryOp → Type
  | .tryGetValue _ => Bool
  | .tryRemove _ => Unit

abbrev ServiceOp := Op ⊕ RegistryOp

abbrev ServiceRet : ServiceOp → Type := Prog.RetSum Ret RegistryRet

abbrev ServiceProgram (α : Type) := Prog ServiceOp ServiceRet Exn α

namespace RunService

/-- `CancelAsync`. -/
def cancelAsync (projectId : String) (id : RunId) (ct : CancellationToken) : ServiceProgram Unit :=
  .call (.inr (.tryGetValue id)) fun found =>
    if found then .call (.inl .cancel) fun _ => .ret ()
    else (Prog.inl (RunRepository.findAsync id ct)).bind fun
      | none => .ret ()
      | some run =>
          if run.state.isTerminal then .ret ()
          else (Prog.inl (Scheduler.cancelRunAsync projectId run "cancelled by request" ct)).bind
            fun _ => .ret ()

/-- What is left of `StartAsync` once it has inserted its run. -/
def spend (run : Run) (plan : Plan) (ct : CancellationToken) : Program Run := do
  PlanRepository.saveAsync { plan with state := .consumed } ct
  Prog.op (Op.startInBackground run plan)
  return run

theorem startAsync_eq (projectId : String) (request : StartRunRequest) (ct : CancellationToken) :
    startAsync projectId request ct = (do
      let plan ← lockedPlanFor request ct
      let id ← Prog.op .newRunId
      let now ← Prog.op .utcNow
      let run : Run := {
        id, projectId, goalId := plan.goalId, goalRevision := plan.goalRevision, state := .created,
        autonomy := plan.autonomy, createdAt := now }
      Prog.ofExcept (← Prog.op (.execute (.run run) ct))
      spend run plan ct) := rfl

/-- One round of what `StartInBackground` starts: the engine, whose exceptions are swallowed; in the end
the token is taken out of the registry. -/
def background (run : Run) (engine : Program (RunEngine.Point ⊕ Run)) :
    ServiceProgram (RunEngine.Point ⊕ Unit) :=
  (((Prog.inl engine).bind fun x => .ret (some x)).handle fun _ => .ret none).bind fun
    | some (.inl point) => .ret (.inl point)
    | _ => .call (.inr (.tryRemove run.id)) fun _ => .ret (.inr ())

end RunService

namespace Cancellation

open RunService

/-! ## The requests -/

/-- The request that starts the run, with the task it leaves in the background, and the requests to
cancel it. -/
inductive Party
  | start
  | cancel (n : Nat)
  deriving DecidableEq

/-- Where `start` is: in `StartAsync`, past the insertion of the run, or in the background. -/
inductive Point
  | inserted
  | background (point : RunEngine.Point)

/-- `started`: the token was registered. `inFlight`: the registry holds it. `missed`: somebody has looked
for it before it was registered. -/
structure World where
  run : Execution.World
  started : Bool := false
  inFlight : Bool := false
  missed : Bool := false

/-- The calls a request makes besides those on the registry: statements with its own token, and calls
that leave the world as it is. -/
def requested : (o : Op) → Database → Ret o → Option Database
  | .newEventId, db, _ => some db
  | .utcNow, db, _ => some db
  | .listeners, db, _ => some db
  | .notify .., db, _ => some db
  | o, db, r => Database.answers o db r

/-- A call that only concerns the database. -/
def World.withDb (w : World) (db : Option Database) : Option World :=
  db.map fun db => { w with run := { w.run with db } }

/-- What every call may answer, and what it does. The engine's statements are made with the token of the
run, the requests' statements with tokens of their own. -/
def exec (id : RunId) : Party → (o : ServiceOp) → World → ServiceRet o → Option World
  | .start, .inl (.startInBackground ..), w, _ => some { w with started := true, inFlight := true }
  | .start, .inl o, w, r =>
      if w.started then (Execution.exec id .engine o w.run r).map fun run => { w with run }
      else w.withDb (requested o w.run.db r)
  | .start, .inr (.tryRemove _), w, _ => some { w with inFlight := false }
  | .cancel _, .inr (.tryGetValue id'), w, r =>
      if r = (w.inFlight && id' = id) then
        some { w with missed := w.missed || (!w.started && id' = id) }
      else none
  | .cancel _, .inl .cancel, w, _ => some { w with run := w.run.cancel id }
  | .cancel _, .inl o, w, r => w.withDb (requested o w.run.db r)
  | _, _, _, _ => none

/-- The rest of the `StartAsync` that has inserted `created`, with the request's token `ct`, beside any
number of `CancelAsync` with tokens of their own. -/
def system (projectId : String) (created : Run) (plan : Plan) (ct : CancellationToken)
    (tokens : Nat → CancellationToken) : System Party ServiceOp ServiceRet Exn Point Unit World where
  exec := exec created.id
  code
    | .start, .inserted => (Prog.inl (spend created plan ct)).bind fun _ => .ret (.inl (.background .start))
    | .start, .background point =>
        (background created (RunEngine.executeAsync projectId created plan .source point)).bind fun
          | .inl point => .ret (.inl (.background point))
          | .inr () => .ret (.inr ())
    | .cancel n, _ => (cancelAsync projectId created.id (tokens n)).bind fun _ => .ret (.inr ())

/-- The run has just been inserted. -/
def start (projectId : String) (created : Run) (plan : Plan) (ct : CancellationToken)
    (tokens : Nat → CancellationToken) (db : Database) :
    Conf Party ServiceOp ServiceRet Exn Point Unit World :=
  (system projectId created plan ct tokens).init (fun _ => .inserted) ⟨{ db }, false, false, false⟩

/-! ## Closing a run that is not in flight -/

/-- The stored run is in a terminal state, and none of its tasks is open. -/
structure Closed (id : RunId) (db : Database) : Prop where
  run : ∃ run, db.findRun id = some run ∧ run.state.isTerminal = true
  tasks : ∀ task ∈ db.tasksOf id, Scheduler.isOpen task.state = false

/-- The states `CancelRunAsync` moves a run out of. -/
def Closable (state : RunState) : Prop := state = .planning ∨ state = .ready ∨ state = .running

instance (state : RunState) : Decidable (Closable state) := inferInstanceAs (Decidable (_ ∨ _))

section Alone

variable {id : RunId} {n : Nat} {w : World} {projectId : String} {ct : CancellationToken}

/-- Nobody disturbs the request. -/
abbrev undisturbed (id : RunId) (n : Nat) : Contract Op Ret World :=
  alone (fun o => exec id (.cancel n) (.inl o)) fun _ _ _ _ => True

/-- The world with another database. -/
abbrev World.setDb (w : World) (db : Database) : World := { w with run := { w.run with db } }

/-- The rule for a call that leaves the world as it is. -/
theorem wp_same {α : Type} {o : Op} {k : Ret o → Program α} {Q : α → World → Prop} {F : Exn → World → Prop}
    (hsame : ∀ w r, exec id (.cancel n) (.inl o) w r = some w)
    (hrest : ∀ r, wp (undisturbed id n) (k r) Q F w) : wp (undisturbed id n) (.call o k) Q F w := by
  refine wp_alone_call fun r w' hexec => ?_
  rw [hsame] at hexec
  cases hexec
  exact ⟨trivial, hrest r⟩

theorem wp_event {runId : RunId} {type : EventType} {payload : List (String × Json)}
    {F : Exn → World → Prop} :
    wp (undisturbed id n) (Scheduler.event projectId runId type payload) (fun _ w' => w' = w) F w := by
  simp only [Scheduler.event, Prog.bind_eq, Prog.op_bind]
  exact wp_same (fun _ _ => rfl) fun _ => wp_same (fun _ _ => rfl) fun _ => rfl

theorem wp_publish {event : DomainEvent} {F : Exn → World → Prop} :
    wp (undisturbed id n) (EventStore.publishAsync event) (fun _ w' => w' = w) F w := by
  simp only [EventStore.publishAsync, Prog.bind_eq, Prog.op_bind]
  refine wp_same (fun _ _ => rfl) fun listeners => ?_
  refine wp_mono (wp_forEach (fun _ w' => w' = w) rfl ?_) (fun _ _ h => h) fun _ _ h => h
  rintro done listener rest w' hall rfl
  exact wp_same (fun _ _ => rfl) fun _ => rfl

/-- A transition: it is committed, or a statement has thrown. -/
theorem wp_transition {E S κ R : Type} [DecidableEq κ] {kind : EntityKind E S κ R} {entity : E} {target : S}
    {event : DomainEvent} (hlegal : kind.canTransition (kind.state entity) target = true) :
    wp (undisturbed id n) (RunRepository.transition kind entity target event ct)
      (fun _ w' => w' = w.setDb ((w.run.db.apply (kind.write (kind.withState entity target))).insertEvent event))
      (fun _ _ => True) w := by
  rw [RunRepository.transition, if_pos hlegal]
  simp only [RunRepository.commitAsync, Prog.bind_eq, Prog.op_bind, Prog.call_bind]
  refine wp_alone_call fun r w' hexec => ⟨trivial, ?_⟩
  cases r with
  | ok _ =>
      obtain rfl := Option.some.inj hexec
      exact wp_seq wp_publish fun _ _ hsame => hsame
  | error e => trivial

/-- The rows of the run's tasks after one of them was written. -/
theorem mem_tasksOf_written {db : Database} {task t : RunTask} {event : DomainEvent}
    (ht : t ∈ ((db.apply (.task task)).insertEvent event).tasksOf id) :
    t = task.persisted ∨ (t ∈ db.tasksOf id ∧ t.id ≠ task.id) := by
  rw [Database.tasksOf, Database.insertEvent_tasks] at ht
  obtain ⟨hmem, hid⟩ := List.mem_filter.mp ht
  rcases Table.mem_upsert.mp hmem with ⟨hold, hne⟩ | hnew
  · exact .inr ⟨List.mem_filter.mpr ⟨hold, hid⟩, hne⟩
  · exact .inl hnew

/-- Listing the tasks of the run, or throwing. -/
theorem wp_listTasks :
    wp (undisturbed id n) (RunRepository.listTasksAsync id ct)
      (fun tasks w' => w' = w ∧ tasks.Perm (w.run.db.tasksOf id)) (fun _ _ => True) w := by
  simp only [RunRepository.listTasksAsync, Prog.bind_eq, Prog.op_bind]
  refine wp_alone_call fun r w' hexec => ⟨trivial, ?_⟩
  cases r with
  | error e => trivial
  | ok tasks =>
      obtain ⟨db, hdb, rfl⟩ := Option.map_eq_some_iff.mp hexec
      have hdb : (if tasks.Perm (w.run.db.tasksOf id) then some w.run.db else none) = some db := hdb
      split at hdb
      · next hperm =>
          cases hdb
          exact ⟨rfl, hperm⟩
      · cases hdb

/-- Finding the run, or throwing. -/
theorem wp_findRun :
    wp (undisturbed id n) (RunRepository.findAsync id ct)
      (fun run w' => w' = w ∧ run = w.run.db.findRun id) (fun _ _ => True) w := by
  simp only [RunRepository.findAsync, Prog.bind_eq, Prog.op_bind]
  refine wp_alone_call fun r w' hexec => ⟨trivial, ?_⟩
  cases r with
  | error e => trivial
  | ok run =>
      obtain ⟨db, hdb, rfl⟩ := Option.map_eq_some_iff.mp hexec
      have hdb : (if run = w.run.db.findRun id then some w.run.db else none) = some db := hdb
      split at hdb
      · next hrun =>
          cases hdb
          exact ⟨rfl, hrun⟩
      · cases hdb

/-- **Closing the open tasks**: what is open is a task that was listed and has not had its turn. -/
theorem wp_closeTasks {tasks : List RunTask} {reason : String}
    (hall : ∀ task ∈ w.run.db.tasksOf id, task ∈ tasks) :
    wp (undisturbed id n)
      (Prog.forEach (fun task => do
        if Scheduler.isOpen task.state then
          let _ ← Scheduler.cancelTaskAsync projectId task reason ct) tasks)
      (fun _ w' => (∀ task ∈ w'.run.db.tasksOf id, Scheduler.isOpen task.state = false) ∧
        w'.run.db.findRun id = w.run.db.findRun id) (fun _ _ => True) w := by
  refine wp_mono (wp_forEach (fun done w' => w'.run.db.findRun id = w.run.db.findRun id ∧
    ∀ task ∈ w'.run.db.tasksOf id, Scheduler.isOpen task.state = true → task ∈ tasks ∧ task ∉ done)
    ⟨rfl, fun task htask _ => ⟨hall task htask, List.not_mem_nil⟩⟩ ?_) ?_ fun _ _ h => h
  · intro done task rest w' _ ⟨hrun, hleft⟩
    split
    · next hopen =>
        have hlegal : taskKind.canTransition (taskKind.state task) .cancelled = true :=
          Execution.canTransition_cancelled hopen
        simp only [Scheduler.cancelTaskAsync, Scheduler.moveTask, Prog.bind_eq, Prog.bind_assoc]
        refine wp_seq wp_event fun event w'' hsame => ?_
        subst hsame
        refine wp_seq (wp_transition hlegal) fun _ w'' hwritten => ?_
        subst hwritten
        refine ⟨?_, fun t ht hopent => ?_⟩
        · show Database.findRun id (Database.insertEvent event _) = _
          rw [Database.findRun, Database.insertEvent_runs]
          exact hrun
        · rcases mem_tasksOf_written ht with rfl | ⟨hold, hne⟩
          · cases hopent
          · obtain ⟨hmem, hnot⟩ := hleft t hold hopent
            refine ⟨hmem, fun hdone => ?_⟩
            rcases List.mem_append.mp hdone with hbefore | hlast
            · exact hnot hbefore
            · have hsame : t = task := List.mem_singleton.mp hlast
              exact hne (by rw [hsame]; rfl)
    · next hclosed =>
        refine ⟨hrun, fun t ht hopent => ?_⟩
        obtain ⟨hmem, hnot⟩ := hleft t ht hopent
        refine ⟨hmem, fun hdone => ?_⟩
        rcases List.mem_append.mp hdone with hbefore | hlast
        · exact hnot hbefore
        · rw [List.mem_singleton.mp hlast] at hopent
          exact hclosed hopent
  · rintro _ w' ⟨hrun, hleft⟩
    refine ⟨fun task htask => ?_, hrun⟩
    by_contra hopen
    rw [Bool.not_eq_false] at hopen
    obtain ⟨hmem, hnot⟩ := hleft task htask hopen
    exact hnot hmem

/-- **`CancelRunAsync`, undisturbed**: it closes every open task of the run, and the run if it is in one
of three states. -/
theorem wp_cancelRun {run : Run} {reason : String} (hid : run.id = id)
    (hrun : w.run.db.findRun id = some run) :
    wp (undisturbed id n) (Scheduler.cancelRunAsync projectId run reason ct)
      (fun _ w' => (∀ task ∈ w'.run.db.tasksOf id, Scheduler.isOpen task.state = false) ∧
        w'.run.db.findRun id =
          some (if Closable run.state then ({ run with state := .cancelled } : Run).persisted else run))
      (fun _ _ => True) w := by
  subst hid
  simp only [Scheduler.cancelRunAsync, Prog.bind_eq]
  refine wp_seq wp_listTasks fun tasks w' hlisted => ?_
  obtain ⟨rfl, hperm⟩ := hlisted
  refine wp_seq (wp_closeTasks fun task htask => hperm.mem_iff.mpr htask) fun _ w hclosing => ?_
  obtain ⟨hclosed, hfind⟩ := hclosing
  rw [hrun] at hfind
  refine wp_seq wp_findRun fun found w' hread => ?_
  obtain ⟨rfl, hfound⟩ := hread
  rw [hfind] at hfound
  subst hfound
  simp only [Option.getD_some]
  by_cases hclosable : Closable run.state
  · have hguard : (run.state = .planning || run.state = .ready || run.state = .running) = true := by
      simpa [Closable, or_assoc] using hclosable
    have hlegal : runKind.canTransition (runKind.state run) .cancelled = true := by
      show run.state.canTransition .cancelled = true
      rcases hclosable with hs | hs | hs <;> rw [hs] <;> rfl
    rw [if_pos hguard, if_pos hclosable]
    refine wp_seq wp_event fun event w'' hsame => ?_
    subst hsame
    refine wp_mono (wp_transition hlegal) (fun _ w'' hwritten => ?_) fun _ _ h => h
    subst hwritten
    constructor
    · intro task htask
      rw [Database.tasksOf, Database.insertEvent_tasks] at htask
      exact hclosed task htask
    · show Database.findRun run.id (Database.insertEvent event _) = _
      rw [Database.findRun, Database.insertEvent_runs]
      show Table.lookup Run.id run.id (Table.upsert Run.id ({ run with state := .cancelled } : Run).persisted _) = _
      rw [Table.lookup_upsert]
      exact if_pos rfl
  · have hguard : ¬ (run.state = .planning || run.state = .ready || run.state = .running) = true := by
      simpa [Closable, or_assoc] using hclosable
    rw [if_neg hguard, if_neg hclosable]
    exact ⟨hclosed, hfind⟩

/-- **When a request closes a run that is not in flight**: exactly when the run is planning, ready or
running. The tasks are closed in any case. -/
theorem closes_iff {run : Run} {w' : World} (hidle : w.inFlight = false)
    (hrun : w.run.db.findRun id = some run) (hopen : run.state.isTerminal = false)
    (h : Prog.Runs (exec id (.cancel n)) (cancelAsync projectId id ct) w (.ok ()) w') :
    Closed id w'.run.db ↔ Closable run.state := by
  have hid : run.id = id := (Table.mem_of_lookup hrun).2
  obtain ⟨found, w₁, hexec, h⟩ := Prog.runs_call.mp h
  have hexec : (if found = (w.inFlight && id = id) then
      some { w with missed := w.missed || (!w.started && id = id) } else none) = some w₁ := hexec
  rw [hidle] at hexec
  split at hexec
  · next hfound =>
      cases hexec
      subst hfound
      rw [Bool.false_and, if_neg (by simp)] at h
      rcases Prog.runs_bind.mp h with ⟨found, w₂, hfind, h⟩ | ⟨e, hout, _⟩
      · obtain ⟨rfl, rfl⟩ := (wp_runs wp_findRun (Prog.runs_inl.mp hfind)).1 _ rfl
        simp only [hrun, hopen] at h
        rcases Prog.runs_bind.mp h with ⟨_, w₃, hcancel, h⟩ | ⟨e, hout, _⟩
        · obtain ⟨-, rfl⟩ := Prog.runs_ret.mp h
          obtain ⟨htasks, hstored⟩ := (wp_runs (wp_cancelRun hid (by exact hrun)) (Prog.runs_inl.mp hcancel)).1 _ rfl
          by_cases hclosable : Closable run.state
          · rw [if_pos hclosable] at hstored
            exact iff_of_true ⟨⟨_, hstored, rfl⟩, htasks⟩ hclosable
          · rw [if_neg hclosable] at hstored
            refine iff_of_false (fun hclosed => ?_) hclosable
            obtain ⟨run', hrun', hterminal⟩ := hclosed.run
            rw [hstored] at hrun'
            cases hrun'
            rw [hopen] at hterminal
            cases hterminal
        · cases hout
      · cases hout
  · cases hexec

end Alone

/-! ## A request in the start-up window -/

section Window

variable {projectId : String} {created : Run} {plan : Plan} {ct : CancellationToken}
  {tokens : Nat → CancellationToken} {db : Database}

/-- A request that has looked for the token before it was registered keeps the tasks of the run from being
executed. -/
def Prevents (projectId : String) (created : Run) (plan : Plan) (ct : CancellationToken)
    (tokens : Nat → CancellationToken) (db : Database) : Prop :=
  ∀ c, (system projectId created plan ct tokens).Steps (start projectId created plan ct tokens db) c →
    c.world.missed = true → c.world.run.ledger.invoked = []

/-- The plan that `StartAsync` has read. -/
structure Locked (plan : Plan) (db : Database) : Prop where
  locked : plan.state = .locked
  stored : ∃ row, db.findPlan plan.id = some row ∧ row.read = .ok plan

/-- **A request in the window** finds no token and a run it does not move; it leaves things as they are. -/
theorem runs_cancelAsync (hdb : Execution.Started created db) (n : Nat) :
    Prog.Runs (exec created.id (.cancel n)) (cancelAsync projectId created.id ct) ⟨{ db }, false, false, false⟩
      (.ok ()) ⟨{ db }, false, false, true⟩ := by
  have hfind : ∀ w : World, w.run.db = db → Prog.Runs (fun o => exec created.id (.cancel n) (.inl o))
      (RunRepository.findAsync created.id ct) w (.ok (some created.persisted)) w := by
    intro w hw
    have hexec : exec created.id (.cancel n) (.inl (.selectRun created.id ct)) w
        (.ok (some created.persisted)) = some w := by
      show w.withDb (if some created.persisted = w.run.db.findRun created.id then some w.run.db else none) = _
      rw [hw, hdb.run, if_pos rfl, ← hw]
      rfl
    exact .call hexec .ret
  have hlist : ∀ w : World, w.run.db = db → Prog.Runs (fun o => exec created.id (.cancel n) (.inl o))
      (RunRepository.listTasksAsync created.id ct) w (.ok []) w := by
    intro w hw
    have hexec : exec created.id (.cancel n) (.inl (.selectTasks created.id ct)) w (.ok []) = some w := by
      show w.withDb (if [].Perm (w.run.db.tasksOf created.id) then some w.run.db else none) = _
      rw [hw, hdb.tasks, if_pos (List.Perm.refl _), ← hw]
      rfl
    exact .call hexec .ret
  have hstate : created.persisted.state = .created := hdb.state
  have hlooked : exec created.id (.cancel n) (.inr (.tryGetValue created.id)) ⟨{ db }, false, false, false⟩
      false = some ⟨{ db }, false, false, true⟩ := by
    simp [exec]
  refine .call hlooked ?_
  rw [if_neg (by simp)]
  refine Prog.runs_bind.mpr (.inl ⟨_, _, Prog.runs_inl.mpr (hfind _ rfl), ?_⟩)
  simp only [hstate]
  refine Prog.runs_bind.mpr (.inl ⟨created.persisted, _, Prog.runs_inl.mpr ?_, .ret⟩)
  refine Prog.runs_bind.mpr (.inl ⟨_, _, hlist _ rfl, ?_⟩)
  refine Prog.runs_bind.mpr (.inl ⟨(), _, .ret, ?_⟩)
  refine Prog.runs_bind.mpr (.inl ⟨_, _, hfind _ rfl, ?_⟩)
  simp only [Option.getD_some, hstate]
  exact .ret

/-- **The rest of `StartAsync`** stores the plan consumed and registers the token. -/
theorem runs_spend (hplan : Locked plan db) (missed : Bool) :
    Prog.Runs (exec created.id .start) (Prog.inl (spend created plan ct)) ⟨{ db }, false, false, missed⟩
      (.ok created)
      ⟨{ db := db.apply (.plan (PlanRow.parametersFor { plan with state := .consumed })) }, true, true,
        missed⟩ := by
  obtain ⟨row, hrow, hread⟩ := hplan.stored
  have hread' : exec created.id .start (.inl (.selectPlan plan.id ct)) ⟨{ db }, false, false, missed⟩
      (.ok (some row)) = some ⟨{ db }, false, false, missed⟩ := by
    show World.withDb _ (if some row = db.findPlan plan.id then some db else none) = _
    rw [hrow, if_pos rfl]
    rfl
  rw [Prog.runs_inl, spend]
  simp only [Prog.bind_eq, Prog.op_bind, Prog.pure_eq]
  refine Prog.runs_bind.mpr (.inl ⟨(), ⟨{ db := db.apply (.plan (PlanRow.parametersFor
    { plan with state := .consumed })) }, false, false, missed⟩, ?_, .call (r := ()) rfl .ret⟩)
  rw [PlanRepository.saveAsync]
  simp only [Prog.bind_eq, Prog.op_bind]
  refine Prog.runs_bind.mpr (.inl ⟨some plan, ⟨{ db }, false, false, missed⟩, .call hread' ?_, ?_⟩)
  · simp only [Prog.bind_eq, Prog.ofExcept_ok, Prog.ret_bind, hread]
    exact .ret
  · simp only [hplan.locked]
    exact .call (r := .ok ()) rfl .ret

/-- The engine in the background, with `engine` left to do. -/
def rest (created : Run) (engine : Program (RunEngine.Point ⊕ Run)) :
    Prog ServiceOp ServiceRet Exn (Point ⊕ Unit) :=
  (background created engine).bind fun
    | .inl point => .ret (.inl (.background point))
    | .inr () => .ret (.inr ())

/-- What the engine may be answered alone it may be answered here. -/
theorem exec_engine {id : RunId} {o : Op} {r : Ret o} {w : World} {run : Execution.World}
    (hstarted : w.started = true) (h : Execution.exec id .engine o w.run r = some run) :
    exec id .start (.inl o) w r = some { w with run } := by
  have hexec : (if w.started then (Execution.exec id .engine o w.run r).map fun run => { w with run }
      else w.withDb (requested o w.run.db r)) = some { w with run } := by
    rw [if_pos hstarted, h]
    rfl
  cases o <;> first | exact hexec | cases h

/-- **A run of the engine alone is a run here**, once the token is registered. -/
theorem steps_engine {outcome : TaskId → Except Exn TaskOutcome} {started : World}
    (hstarted : started.started = true)
    {c c' : Conf Execution.Party Op Ret Exn RunEngine.Point Run Execution.World}
    (hsolo : Solo (Uncancelled.system projectId created plan outcome) .engine c)
    (hsteps : (Uncancelled.system projectId created plan outcome).Steps c c')
    {d : Conf Party ServiceOp ServiceRet Exn Point Unit World}
    (hcur : d.cur .start = rest created (c.cur .engine)) (hworld : d.world = { started with run := c.world }) :
    Solo (Uncancelled.system projectId created plan outcome) .engine c' ∧
      ∃ d', (system projectId created plan ct tokens).Steps d d' ∧
        d'.cur .start = rest created (c'.cur .engine) ∧ d'.world = { started with run := c'.world } := by
  induction hsteps with
  | refl => exact ⟨hsolo, d, .refl, hcur, hworld⟩
  | @tail c₁ c₂ _ hnext ih =>
      obtain ⟨hsolo₁, d₁, hsteps, hcur₁, hworld₁⟩ := ih
      obtain ⟨hsolo₂, ⟨o, k, r, hcall, hexec, hcur₂⟩ | ⟨s, hjump, hcur₂, hsame⟩⟩ := hsolo₁.cases hnext
      · have hd : d₁.cur .start = .call (.inl o) fun r => rest created (k r) := by
          rw [hcur₁, hcall]
          rfl
        have hanswer : exec created.id .start (.inl o) d₁.world r = some { started with run := c₂.world } := by
          rw [hworld₁]
          exact exec_engine hstarted (System.exec_restrict _ |>.mp hexec).2
        refine ⟨hsolo₂, _, hsteps.tail ⟨_, .call hd hanswer⟩, ?_, rfl⟩
        show Function.update d₁.cur .start (rest created (k r)) .start = _
        rw [Function.update_self, hcur₂]
      · have hd : d₁.cur .start = .ret (.inl (.background s)) := by
          rw [hcur₁, hjump]
          rfl
        refine ⟨hsolo₂, _, hsteps.tail ⟨_, .jump hd⟩, ?_, ?_⟩
        · show Function.update d₁.cur .start _ .start = _
          rw [Function.update_self, hcur₂]
          rfl
        · rw [hsame]
          exact hworld₁

/-- A valid plan with a task has a task that depends on nothing. -/
theorem exists_independent (hvalid : TaskGraph.Valid plan.tasks) (hne : plan.tasks ≠ []) :
    ∃ node ∈ plan.tasks, node.dependencies = [] := by
  suffices hall : ∀ id, Acc (fun d n => d ∈ Execution.edges plan n) id → ∀ node ∈ plan.tasks, node.id = id →
      ∃ node ∈ plan.tasks, node.dependencies = [] by
    obtain ⟨node, hnode⟩ := List.exists_mem_of_ne_nil _ hne
    exact hall _ (hvalid.acc (List.mem_map_of_mem hnode)) node hnode rfl
  intro id hacc
  induction hacc with
  | intro id _ ih =>
      rintro node hnode rfl
      cases hdeps : node.dependencies with
      | nil => exact ⟨node, hnode, hdeps⟩
      | cons d ds =>
          have hd : d ∈ node.dependencies := by rw [hdeps]; exact List.mem_cons_self
          obtain ⟨dependency, hmem, rfl⟩ := List.mem_map.mp (hvalid.known hnode hd)
          refine ih _ ?_ dependency hmem rfl
          rw [Execution.edges, TaskGraph.edges_of_mem hvalid.nodup hnode]
          exact hd

/-- **Nothing is prevented**: whatever the plan, if it has a task, a request may look for the token too
early, return, and the run's tasks are executed. -/
theorem not_prevents (hvalid : TaskGraph.Valid plan.tasks) (hne : plan.tasks ≠ [])
    (hdb : Execution.Started created db) (hplan : Locked plan db) :
    ¬ Prevents projectId created plan ct tokens db := by
  intro hprevents
  let outcome : TaskId → Except Exn TaskOutcome := fun _ => .ok ⟨true, ""⟩
  let db' := db.apply (.plan (PlanRow.parametersFor { plan with state := .consumed }))
  have hdb' : Execution.Started created db' := ⟨hdb.run, hdb.state, hdb.tasks⟩
  obtain ⟨c', -, hengine, -, N, st, rs, hdecided⟩ :=
    (Uncancelled.outcomes_decide projectId created plan hvalid hne outcome db' hdb').exists_end
  -- The request comes and goes, the token is registered, and the engine does what it does alone.
  let S := system projectId created plan ct tokens
  let began : Party → Prog ServiceOp ServiceRet Exn (Point ⊕ Unit) :=
    Function.update (fun i => S.code i .inserted) (.cancel 0) (.ret (.inr ()))
  have hcancel : S.Steps (start projectId created plan ct tokens db) ⟨began, ⟨{ db }, false, false, true⟩⟩ :=
    S.steps_of_runs (Prog.runs_bind.mpr (.inl ⟨(), _, runs_cancelAsync hdb 0, .ret⟩)) rfl
  have hspend : S.Steps ⟨began, ⟨{ db }, false, false, true⟩⟩
      ⟨Function.update began .start (.ret (.inl (.background .start))), ⟨{ db := db' }, true, true, true⟩⟩ :=
    S.steps_of_runs (Prog.runs_bind.mpr (.inl ⟨created, _, runs_spend hplan true, .ret⟩)) rfl
  let registered : World := ⟨{ db := db' }, true, true, true⟩
  let spent := Function.update began .start (.ret (.inl (.background .start)))
  have hspent : spent .start = .ret (.inl (.background .start)) := Function.update_self ..
  have hjump : S.Steps ⟨spent, registered⟩ ⟨Function.update spent .start (S.code .start (.background .start)),
      registered⟩ := .single ⟨_, .jump hspent⟩
  have hcur : Function.update spent .start (S.code .start (.background .start)) .start =
      rest created ((Uncancelled.start projectId created plan outcome db').cur .engine) := by
    rw [Function.update_self]
    rfl
  obtain ⟨-, d, hrest, -, hworld⟩ := steps_engine (rfl : registered.started = true)
    (Uncancelled.solo_start projectId created plan outcome db') hengine
    (d := ⟨Function.update spent .start (S.code .start (.background .start)), registered⟩)
    hcur rfl
  have hnone := hprevents d (((hcancel.trans hspend).trans hjump).trans hrest) (by rw [hworld])
  obtain ⟨node, hnode, hdeps⟩ := exists_independent hvalid hne
  have hcleared : Uncancelled.Cleared plan outcome N node.id := by
    intro d hpath
    obtain ⟨d, hd, -⟩ := Relation.TransGen.head'_iff.mp hpath
    rw [Execution.edges, TaskGraph.edges_of_mem hvalid.nodup hnode, hdeps] at hd
    cases hd
  have hinvoked := (hdecided.cleared node hnode hcleared).1
  rw [hworld] at hnone
  have hnil : c'.world.ledger.invoked = [] := hnone
  rw [hnil] at hinvoked
  cases hinvoked

end Window

/-- **When a request to cancel does what it says.** Alone, and for a stored run that is not in a terminal
state and not in flight, it leaves the run in a terminal state and no task open exactly when the run is
planning, ready or running. In the window between the insertion of a run and the registration of its
token it never does: for every plan with a task, the tasks are executed all the same in some run. -/
theorem cancel_closes_iff (projectId : String) :
    (∀ (id : RunId) (n : Nat) (ct : CancellationToken) (w w' : World) (run : Run), w.inFlight = false →
        w.run.db.findRun id = some run → run.state.isTerminal = false →
        Prog.Runs (exec id (.cancel n)) (cancelAsync projectId id ct) w (.ok ()) w' →
        (Closed id w'.run.db ↔ Closable run.state)) ∧
      ∀ (created : Run) (plan : Plan) (ct : CancellationToken) (tokens : Nat → CancellationToken)
        (db : Database), TaskGraph.Valid plan.tasks → plan.tasks ≠ [] → Execution.Started created db →
        Locked plan db → ¬ Prevents projectId created plan ct tokens db :=
  ⟨fun _ _ _ _ _ _ hidle hrun hopen hruns => closes_iff hidle hrun hopen hruns,
    fun _ _ _ _ _ hvalid hne hdb hplan => not_prevents hvalid hne hdb hplan⟩

/-! ### Requests for small runs -/

def runningTask : RunTask :=
  { (default : RunTask) with id := ⟨"task-1"⟩, runId := Execution.newRun.id, state := .running }

/-- A run that was left running by a crash. -/
def leftRunning : World :=
  ⟨{ db := { runs := [{ Execution.newRun with state := .running }.persisted], tasks := [runningTask.persisted] } },
    false, false, false⟩

def answer : (o : ServiceOp) → World → ServiceRet o
  | .inl (.selectRun id _), w => .ok (w.run.db.findRun id)
  | .inl (.selectTasks id _), w => .ok (w.run.db.tasksOf id)
  | .inl (.executeInTransaction ..), _ => .ok ()
  | .inl _, _ => default
  | .inr (.tryGetValue _), w => w.inFlight
  | .inr (.tryRemove _), _ => ()

/-- What a request leaves of a run that was left running. -/
def closedWorld : World :=
  ((Prog.run (exec Execution.newRun.id (.cancel 0)) answer
    (cancelAsync "atlas" Execution.newRun.id .none) leftRunning).map Prod.snd).getD leftRunning

/-- The database of a `StartAsync` that has read its plan and inserted its run. -/
def windowDb : Database :=
  { Execution.newDb with plans := [PlanRow.parametersFor Execution.chainPlan] }

theorem cancel_closes_iff_running :
    Closed Execution.newRun.id closedWorld.run.db ∧
      ¬ Prevents "atlas" Execution.newRun Execution.chainPlan .none (fun _ => .none) windowDb := by
  constructor
  · refine ((cancel_closes_iff "atlas").1 Execution.newRun.id 0 .none leftRunning closedWorld
      ({ Execution.newRun with state := .running } : Run).persisted rfl rfl rfl ?_).mpr (by decide)
    have hrun : Prog.run (exec Execution.newRun.id (.cancel 0)) answer
        (cancelAsync "atlas" Execution.newRun.id .none) leftRunning = some (.ok (), closedWorld) := rfl
    exact Prog.runs_of_run hrun
  · refine (cancel_closes_iff "atlas").2 Execution.newRun Execution.chainPlan .none (fun _ => .none) windowDb
      Execution.chainPlan_valid (by decide) ⟨rfl, rfl, rfl⟩ ⟨rfl, _, rfl, rfl⟩

/-- **A run that stays open**: a request to cancel a run that was created and never started returns, and
the run is as it was. -/
theorem cancel_left_created :
    ∃ w', Prog.Runs (exec Execution.newRun.id (.cancel 0)) (cancelAsync "atlas" Execution.newRun.id .none)
        ⟨{ db := Execution.newDb }, false, false, false⟩ (.ok ()) w' ∧
      ¬ Closed Execution.newRun.id w'.run.db := by
  refine ⟨_, runs_cancelAsync Execution.newDb_started 0, fun hclosed => ?_⟩
  obtain ⟨run, hrun, hterminal⟩ := hclosed.run
  cases hrun
  cases hterminal

end Cancellation

end AtlasFlow
