import AtlasFlow.Persistence.RunRepository

/-!
# A transition, call by call

`RunRepository.TransitionAsync` again, with `AtlasFlowDatabase.ExecuteInTransactionAsync` and
`EventStore.PublishAsync` taken apart: the wait for the semaphore, the beginning of the transaction, each
statement, the commit, the disposal and the release may each fail, and so may every subscriber. SQLite's
transactions are atomic: statements change a copy of the database, which the commit puts in its place. Nobody
disposes the database meanwhile.

The coarse `Op.executeInTransaction` of the other modules is what `runs_executeInTransaction` says of this.
-/

namespace AtlasFlow.Transaction

open Concurrency

/-- The statements of a transition. -/
inductive Statement where
  | upsert (write : Write)
  | insertEvent (event : DomainEvent)

def Statement.apply : Statement → Database → Database
  | .upsert write, db => db.apply write
  | .insertEvent event, db => db.insertEvent event

/-- What is left of a subscriber's call: what it returned or threw, and who is subscribed now. -/
structure Called where
  outcome : Except Exn Unit
  listeners : List Nat

inductive Op where
  | require
  | wait (ct : CancellationToken)
  | beginTransaction (ct : CancellationToken)
  | executeNonQuery (statement : Statement) (ct : CancellationToken)
  | commit (ct : CancellationToken)
  | disposeTransaction
  | release
  | listeners
  | notify (listener : Nat) (event : DomainEvent) (ct : CancellationToken)

abbrev Ret : Op → Type
  | .require | .wait _ | .beginTransaction _ | .executeNonQuery .. | .commit _ | .disposeTransaction => Except Exn Unit
  | .release => Unit
  | .listeners => List Nat
  | .notify .. => Called

abbrev Program (α : Type) := Prog Op Ret Exn α

abbrev call (o : Op) : Program (Ret o) := Prog.op o

/-! ## The code -/

/-- The body of the `await using`. -/
def statementsAndCommit (statements : List Statement) (ct : CancellationToken) : Program Unit := do
  Prog.forEach (fun statement => do Prog.ofExcept (← call (.executeNonQuery statement ct))) statements
  Prog.ofExcept (← call (.commit ct))

/-- `AtlasFlowDatabase.ExecuteInTransactionAsync`. -/
def executeInTransactionAsync (statements : List Statement) (ct : CancellationToken) : Program Unit := do
  Prog.ofExcept (← call .require)
  Prog.ofExcept (← call (.wait ct))
  Prog.ensure (do
      Prog.ofExcept (← call (.beginTransaction ct))
      Prog.ensure (statementsAndCommit statements ct) (do Prog.ofExcept (← call .disposeTransaction)))
    (call .release)

/-- `EventStore.PublishAsync`: what a subscriber throws is swallowed. -/
def publishAsync (event : DomainEvent) (ct : CancellationToken) : Program Unit := do
  let listeners ← call .listeners
  Prog.forEach (fun listener =>
    Prog.handle (do
      let called ← call (.notify listener event ct)
      Prog.ofExcept called.outcome) fun _ => .ret ()) listeners

/-- `CommitAsync`. -/
def commitAsync (write : Write) (event : DomainEvent) (ct : CancellationToken) : Program Unit := do
  executeInTransactionAsync [.upsert write, .insertEvent event] ct
  publishAsync event ct

/-- `TransitionAsync`, for any kind of entity. -/
def transition {E S κ R : Type} [DecidableEq κ] (kind : EntityKind E S κ R) (entity : E) (target : S)
    (event : DomainEvent) (ct : CancellationToken) : Program E := do
  if kind.canTransition (kind.state entity) target then
    let updated := kind.withState entity target
    commitAsync (kind.write updated) event ct
    return updated
  else
    throw (InvalidTransitionException.for kind.name (kind.keyText entity)
      (kind.stateName (kind.state entity)) (kind.stateName target))

/-! ## The world -/

/-- What others see: a commit, with the database it left, and a subscriber's call. -/
inductive Effect where
  | commit (database : Database)
  | call (listener : Nat) (event : DomainEvent)
  deriving DecidableEq

/-- The store. `log` is read by nobody. -/
structure World where
  isInitialized : Bool := true
  held : Bool := false
  database : Database
  transaction : Option Database := none
  listeners : List Nat := []
  log : List Effect := []

/-- Only the repository throws this exception: neither SQLite nor a token does. -/
def isInvalidTransition : Exn → Bool
  | .invalidTransition _ => true
  | _ => false

/-- A call that fails changes nothing. -/
def failing (w : World) (r : Except Exn Unit) (done : Option World) : Option World :=
  match r with
  | .ok _ => done
  | .error e => if isInvalidTransition e then none else some w

/-- What every call may answer, and what it does; `writes` is what a subscriber does to the store. -/
def exec (writes : Nat → DomainEvent → Database → Database) : (o : Op) → World → Ret o → Option World
  | .require, w, r => failing w r (if w.isInitialized then some w else none)
  | .wait _, w, r => failing w r (if w.held then none else some { w with held := true })
  | .beginTransaction _, w, r => failing w r (some { w with transaction := some w.database })
  | .executeNonQuery statement _, w, r =>
      failing w r (w.transaction.map fun db => { w with transaction := some (statement.apply db) })
  | .commit _, w, r =>
      failing w r (w.transaction.map fun db =>
        { w with database := db, transaction := none, log := w.log ++ [.commit db] })
  | .disposeTransaction, w, r =>
      match r with
      | .ok _ => some { w with transaction := none }
      | .error e => if w.transaction = none || isInvalidTransition e then none else some { w with transaction := none }
  | .release, w, _ => some { w with held := false }
  | .listeners, w, r => if r = w.listeners then some w else none
  | .notify listener event _, w, r =>
      some { w with database := writes listener event w.database, listeners := r.listeners,
                    log := w.log ++ [.call listener event] }

/-! ## The transaction -/

section Transaction

variable {writes : Nat → DomainEvent → Database → Database} {α : Type}

abbrev working (writes : Nat → DomainEvent → Database → Database) : Contract Op Ret World :=
  alone (exec writes) fun _ _ _ _ => True

/-- The store is, to others, as it was in `w₀`. -/
structure Same (w₀ w : World) : Prop where
  database : w.database = w₀.database
  listeners : w.listeners = w₀.listeners
  log : w.log = w₀.log

/-- The transaction is open, and has made `db` of the database. -/
structure Open (w₀ : World) (db : Database) (w : World) : Prop extends Same w₀ w where
  transaction : w.transaction = some db

/-- The transaction was committed with `db`. -/
structure Committed (w₀ : World) (db : Database) (w : World) : Prop where
  database : w.database = db
  listeners : w.listeners = w₀.listeners
  log : w.log = w₀.log ++ [.commit db]

/-- It failed, and nobody notices. -/
def Failed (w₀ : World) (e : Exn) (w : World) : Prop := Same w₀ w ∧ isInvalidTransition e = false

/-- The rule for a call that may fail, and raises then. -/
theorem wp_failing {o : Op} {k : Ret o → Program α} {Q : α → World → Prop} {w₀ w : World} {done : Option World}
    (get : Ret o → Except Exn Unit) (hw : Same w₀ w)
    (hexec : ∀ r w', exec writes o w r = some w' → failing w (get r) done = some w')
    (hraise : ∀ r e, get r = .error e → k r = .raise e)
    (hk : ∀ r w', get r = .ok () → done = some w' → wp (working writes) (k r) Q (Failed w₀) w') :
    wp (working writes) (.call o k) Q (Failed w₀) w := by
  refine wp_alone_call fun r w' h => ⟨trivial, ?_⟩
  have h := hexec r w' h
  cases hr : get r with
  | ok u =>
      rw [hr] at h
      exact hk r w' hr h
  | error e =>
      rw [hr, failing] at h
      rw [hraise r e hr]
      split at h
      · cases h
      · next hother =>
          cases h
          exact ⟨hw, by simpa using hother⟩

theorem Open.same {w₀ w : World} {db : Database} (h : Open w₀ db w) : Same w₀ w := h.toSame

/-- The statements are made on the copy, which is committed. -/
theorem wp_statementsAndCommit {w₀ w : World} {db : Database} (statements : List Statement) (ct : CancellationToken)
    (h : Open w₀ db w) :
    wp (working writes) (statementsAndCommit statements ct)
      (fun _ w' => Committed w₀ (statements.foldl (fun db statement => statement.apply db) db) w' ∧ w'.transaction = none)
      (Failed w₀) w := by
  refine wp_seq (wp_forEach
    (fun done => Open w₀ (done.foldl (fun db statement => statement.apply db) db)) h
    fun done statement rest w _ h => ?_) fun _ w h => ?_
  · refine wp_failing (o := .executeNonQuery statement ct) (fun r => r) h.same (fun _ _ h => h)
      (by rintro _ e rfl; rfl) fun r w' hr hw' => ?_
    cases hr
    rw [h.transaction] at hw'
    cases hw'
    rw [List.foldl_append]
    exact ⟨⟨h.database, h.listeners, h.log⟩, rfl⟩
  · refine wp_failing (o := .commit ct) (fun r => r) h.same (fun _ _ h => h) (by rintro _ e rfl; rfl)
      fun r w' hr hw' => ?_
    cases hr
    rw [h.transaction] at hw'
    cases hw'
    exact ⟨⟨rfl, h.listeners, by rw [h.log]⟩, rfl⟩

/-- **All of the statements or none**: it returns and has committed them, or it throws and nothing is
different. -/
theorem wp_executeInTransactionAsync (statements : List Statement) (ct : CancellationToken) (w₀ : World) :
    wp (working writes) (executeInTransactionAsync statements ct)
      (fun _ => Committed w₀ (statements.foldl (fun db statement => statement.apply db) w₀.database)) (Failed w₀) w₀ := by
  have hrelease : ∀ (P : World → Prop), (∀ w, P w → P { w with held := false }) → ∀ w, P w →
      wp (working writes) (call .release) (fun _ => P) (Failed w₀) w :=
    fun P hP w hw => wp_alone_call fun r w' h => by
      cases h
      exact ⟨trivial, hP w hw⟩
  refine wp_failing (o := .require) (fun r => r) ⟨rfl, rfl, rfl⟩ (fun _ _ h => h) (by rintro _ e rfl; rfl)
    fun r w hr hw => ?_
  cases hr
  have hsame : Same w₀ w := by
    split at hw
    · cases hw
      exact ⟨rfl, rfl, rfl⟩
    · cases hw
  refine wp_failing (o := .wait ct) (fun r => r) hsame (fun _ _ h => h) (by rintro _ e rfl; rfl) fun r w' hr hw' => ?_
  cases hr
  have hsame : Same w₀ w' := by
    split at hw'
    · cases hw'
    · cases hw'
      exact ⟨hsame.database, hsame.listeners, hsame.log⟩
  refine wp_ensure.mpr (wp_mono (Q := fun _ => Committed w₀ _) (F := Failed w₀) ?_
    (fun _ w h => hrelease (Committed w₀ _) (fun _ h => ⟨h.database, h.listeners, h.log⟩) w h)
    fun e w h => hrelease (Failed w₀ e) (fun _ h => ⟨⟨h.1.database, h.1.listeners, h.1.log⟩, h.2⟩) w h)
  refine wp_failing (o := .beginTransaction ct) (fun r => r) hsame (fun _ _ h => h) (by rintro _ e rfl; rfl)
    fun r w hr hw => ?_
  cases hr
  cases hw
  have hopen : Open w₀ w₀.database { w' with transaction := some w'.database } :=
    ⟨⟨hsame.database, hsame.listeners, hsame.log⟩, by rw [hsame.database]⟩
  refine wp_ensure.mpr (wp_mono (wp_statementsAndCommit statements ct hopen) ?_ ?_)
  · -- committed: there is nothing to roll back
    rintro _ w ⟨hcommitted, hclosed⟩
    refine wp_alone_call fun r w' h => ⟨trivial, ?_⟩
    cases r with
    | ok _ =>
        cases h
        exact ⟨hcommitted.database, hcommitted.listeners, hcommitted.log⟩
    | error e => simp [exec, hclosed] at h
  · rintro e w ⟨hsame, he⟩
    refine wp_alone_call fun r w' h => ⟨trivial, ?_⟩
    cases r with
    | ok _ =>
        cases h
        exact ⟨⟨hsame.database, hsame.listeners, hsame.log⟩, he⟩
    | error e' =>
        simp only [exec] at h
        split at h
        · cases h
        · next hother =>
            cases h
            have hother : ¬ w.transaction = none ∧ isInvalidTransition e' = false := by simpa using hother
            exact ⟨⟨hsame.database, hsame.listeners, hsame.log⟩, hother.2⟩

/-- Every subscriber there is is called once, and none of them can throw. -/
theorem wp_publishAsync (event : DomainEvent) (ct : CancellationToken) (w₀ : World) :
    wp (working writes) (publishAsync event ct)
      (fun _ w => w.log = w₀.log ++ w₀.listeners.map (.call · event) ∧
        w.database = w₀.listeners.foldl (fun db listener => writes listener event db) w₀.database)
      (fun _ _ => False) w₀ := by
  refine wp_alone_call fun listeners w h => ⟨trivial, ?_⟩
  have h : (if listeners = w₀.listeners then some w₀ else none) = some w := h
  split at h
  case isFalse => cases h
  next hlisteners =>
  cases h
  rw [← hlisteners]
  refine wp_mono (wp_forEach (fun done w => w.log = w₀.log ++ done.map (.call · event) ∧
    w.database = done.foldl (fun db listener => writes listener event db) w₀.database) ⟨by simp, rfl⟩
    fun done listener rest w _ hw => ?_) (fun _ _ h => h) fun _ _ h => h
  refine wp_handle.mpr (wp_alone_call fun called w' h => ⟨trivial, ?_⟩)
  cases h
  have hcalled : w.log ++ [.call listener event] = w₀.log ++ (done ++ [listener]).map (.call · event) ∧
      writes listener event w.database =
        (done ++ [listener]).foldl (fun db listener => writes listener event db) w₀.database := by
    rw [hw.1, hw.2, List.map_append, List.foldl_append, List.append_assoc]
    exact ⟨rfl, rfl⟩
  rw [Prog.ret_bind]
  cases called.outcome <;> exact hcalled

/-- The transaction of the coarse model: answered, or called off without a trace. -/
theorem runs_executeInTransaction {write : Write} {event : DomainEvent} {ct : CancellationToken} {w w' : World}
    {out : Except Exn Unit}
    (h : Prog.Runs (exec writes) (executeInTransactionAsync [.upsert write, .insertEvent event] ct) w out w') :
    (out = .ok () → Database.answers (.executeInTransaction write event ct) w.database (.ok ()) = some w'.database) ∧
      ∀ e, out = .error e → w'.database = w.database := by
  have hends := wp_runs (wp_executeInTransactionAsync [.upsert write, .insertEvent event] ct w) h
  exact ⟨fun hok => congrArg some (hends.1 () hok).database.symm, fun e he => (hends.2 e he).1.database⟩

/-- What a transition that returns has done, in order: the commit, then a call of each subscriber. -/
structure Made (writes : Nat → DomainEvent → Database → Database) (write : Write) (event : DomainEvent)
    (w₀ w : World) : Prop where
  log : w.log = w₀.log ++
    .commit ((w₀.database.apply write).insertEvent event) :: w₀.listeners.map (.call · event)
  database : w.database = w₀.listeners.foldl (fun db listener => writes listener event db)
    ((w₀.database.apply write).insertEvent event)

theorem wp_commitAsync (write : Write) (event : DomainEvent) (ct : CancellationToken) (w₀ : World) :
    wp (working writes) (commitAsync write event ct) (fun _ => Made writes write event w₀) (Failed w₀) w₀ := by
  refine wp_seq (wp_executeInTransactionAsync _ ct w₀) fun _ w hcommitted => ?_
  refine wp_mono (wp_publishAsync event ct w) (fun _ w' hcalled => ?_) fun _ _ h => h.elim
  obtain ⟨hlog, hdatabase⟩ := hcalled
  constructor
  · rw [hlog, hcommitted.log, hcommitted.listeners, List.append_assoc]
    rfl
  · rw [hdatabase, hcommitted.database, hcommitted.listeners]
    rfl

variable {E S κ R : Type} [DecidableEq κ]

/-- **`TransitionAsync`**, of any kind of entity. -/
theorem wp_transition (kind : EntityKind E S κ R) (entity : E) (target : S) (event : DomainEvent)
    (ct : CancellationToken) (w₀ : World) :
    wp (working writes) (transition kind entity target event ct)
      (fun updated w => kind.canTransition (kind.state entity) target = true ∧
        updated = kind.withState entity target ∧ Made writes (kind.write updated) event w₀ w)
      (fun e w => Same w₀ w ∧
        (isInvalidTransition e = true ↔ kind.canTransition (kind.state entity) target = false)) w₀ := by
  unfold transition
  split
  · next hlegal =>
      refine wp_seq (wp_mono (wp_commitAsync (kind.write (kind.withState entity target)) event ct w₀)
        (fun _ _ h => h) fun e w h => ⟨h.1, ?_⟩) fun _ w h => ⟨hlegal, rfl, h⟩
      rw [h.2, hlegal]
      exact ⟨nofun, nofun⟩
  · next hillegal => exact ⟨⟨rfl, rfl, rfl⟩, ⟨fun _ => by simpa using hillegal, fun _ => rfl⟩⟩

/-- The row of an entity is replaced, and no other of its table. -/
structure Replaced (kind : EntityKind E S κ R) (e : E) (before after : Database) : Prop where
  row : Table.lookup kind.key (kind.key e) (kind.stored after) = some (kind.persisted e)
  others : ∀ k, k ≠ kind.key e → Table.lookup kind.key k (kind.stored after) = Table.lookup kind.key k (kind.stored before)

theorem replaced_apply (kind : EntityKind E S κ R) (e : E) (event : DomainEvent) (db : Database) :
    Replaced kind e db ((db.apply (kind.write e)).insertEvent event) := by
  constructor
  · rw [kind.stored_insertEvent, kind.stored_write, ← kind.key_persisted e, Table.lookup_upsert_self]
  · intro k hk
    rw [kind.stored_insertEvent, kind.stored_write, Table.lookup_upsert_of_ne (by rw [kind.key_persisted]; exact hk)]

end Transaction

/-! ## The three transitions -/

/-- What is asked of `TransitionAsync`: a snapshot, and the state to move it to. -/
inductive Move where
  | run (run : Run) (target : RunState)
  | task (task : RunTask) (target : TaskState)
  | attempt (attempt : Attempt) (target : AttemptState)

namespace Move

/-- `StateMachine.CanTransition`. -/
def allowed : Move → Bool
  | .run snapshot target => snapshot.state.canTransition target
  | .task snapshot target => snapshot.state.canTransition target
  | .attempt snapshot target => snapshot.state.canTransition target

/-- The snapshot with the target state. -/
def updated : Move → Entity
  | .run snapshot target => .run { snapshot with state := target }
  | .task snapshot target => .task { snapshot with state := target }
  | .attempt snapshot target => .attempt { snapshot with state := target }

/-- `TransitionAsync`. -/
def transitionAsync (move : Move) (event : DomainEvent) (ct : CancellationToken) : Program Entity :=
  match move with
  | .run snapshot target => do return .run (← transition runKind snapshot target event ct)
  | .task snapshot target => do return .task (← transition taskKind snapshot target event ct)
  | .attempt snapshot target => do return .attempt (← transition attemptKind snapshot target event ct)

/-- The row of the snapshot has the target state, and no other row of any table is different. -/
def Changes (move : Move) (before after : Database) : Prop :=
  after.plans = before.plans ∧
  match move with
  | .run snapshot target => Replaced runKind { snapshot with state := target } before after ∧ after.tasks = before.tasks ∧
      after.attempts = before.attempts
  | .task snapshot target => Replaced taskKind { snapshot with state := target } before after ∧ after.runs = before.runs ∧
      after.attempts = before.attempts
  | .attempt snapshot target => Replaced attemptKind { snapshot with state := target } before after ∧
      after.runs = before.runs ∧ after.tasks = before.tasks

end Move

section Changes

variable (event : DomainEvent) (db : Database)

theorem changes_run (snapshot : Run) (target : RunState) : (Move.run snapshot target).Changes db
    ((db.apply (runKind.write (runKind.withState snapshot target))).insertEvent event) :=
  ⟨Database.insertEvent_plans _ _, replaced_apply runKind (runKind.withState snapshot target) event db,
    Database.insertEvent_tasks _ _, Database.insertEvent_attempts _ _⟩

theorem changes_task (snapshot : RunTask) (target : TaskState) : (Move.task snapshot target).Changes db
    ((db.apply (taskKind.write (taskKind.withState snapshot target))).insertEvent event) :=
  ⟨Database.insertEvent_plans _ _, replaced_apply taskKind (taskKind.withState snapshot target) event db,
    Database.insertEvent_runs _ _, Database.insertEvent_attempts _ _⟩

theorem changes_attempt (snapshot : Attempt) (target : AttemptState) : (Move.attempt snapshot target).Changes db
    ((db.apply (attemptKind.write (attemptKind.withState snapshot target))).insertEvent event) :=
  ⟨Database.insertEvent_plans _ _, replaced_apply attemptKind (attemptKind.withState snapshot target) event db,
    Database.insertEvent_runs _ _, Database.insertEvent_tasks _ _⟩

end Changes

/-- An event with a new id is appended, whatever was written before it. -/
theorem events_insertEvent {event : DomainEvent} {db : Database} (hnew : ∀ e ∈ db.events, e.id ≠ event.id)
    (write : Write) :
    ((db.apply write).insertEvent event).events = db.events ++ [Database.persistedEvent event] := by
  have hevents : (db.apply write).events = db.events := by cases write <;> rfl
  unfold Database.insertEvent
  rw [if_neg, hevents]
  rw [hevents, List.any_eq_true]
  rintro ⟨e, he, heq⟩
  exact hnew e he (by simpa using heq)

section Claim

variable {writes : Nat → DomainEvent → Database → Database}

/-- What a run of `TransitionAsync` leaves, whatever fails in it. -/
structure AllOrNothing (writes : Nat → DomainEvent → Database → Database) (move : Move) (event : DomainEvent)
    (w w' : World) (out : Except Exn Entity) : Prop where
  /-- It returned: the row and the event were committed, then every subscriber was called once. -/
  all : ∀ entity, out = .ok entity → entity = move.updated ∧ ∃ db, move.Changes w.database db ∧
    db.events = w.database.events ++ [Database.persistedEvent event] ∧
    w'.log = w.log ++ .commit db :: w.listeners.map (.call · event) ∧
    w'.database = w.listeners.foldl (fun db listener => writes listener event db) db
  /-- It threw: no row and no event is different, and no subscriber was called. -/
  nothing : ∀ e, out = .error e → w'.database = w.database ∧ w'.log = w.log
  forbidden : (∃ message, out = .error (.invalidTransition message)) ↔ move.allowed = false

/-- One proof for the three of them. -/
theorem allOrNothing_of_runs {E S κ R : Type} [DecidableEq κ] (kind : EntityKind E S κ R) {entity : E} {target : S}
    {event : DomainEvent} {ct : CancellationToken} {w w' : World} {out : Except Exn Entity} (f : E → Entity)
    {move : Move} (hallowed : move.allowed = kind.canTransition (kind.state entity) target)
    (hupdated : move.updated = f (kind.withState entity target))
    (hchanges : move.Changes w.database ((w.database.apply (kind.write (kind.withState entity target))).insertEvent event))
    (hnew : ∀ e ∈ w.database.events, e.id ≠ event.id)
    (h : Prog.Runs (exec writes) ((transition kind entity target event ct).bind fun e => .ret (f e)) w out w') :
    AllOrNothing writes move event w w' out := by
  have hspec := @wp_transition writes E S κ R _ kind entity target event ct w
  rcases Prog.runs_bind.mp h with ⟨e, w₁, hruns, hret⟩ | ⟨e, rfl, hruns⟩
  · obtain ⟨rfl, rfl⟩ := Prog.runs_ret.mp hret
    obtain ⟨hlegal, rfl, hmade⟩ := (wp_runs hspec hruns).1 e rfl
    constructor
    · intro entity' hok
      cases hok
      exact ⟨hupdated.symm, _, hchanges, events_insertEvent hnew _, hmade.log, hmade.database⟩
    · intro e' hraised
      cases hraised
    · rw [hallowed, hlegal]
      constructor
      · rintro ⟨message, hraised⟩
        cases hraised
      · intro hillegal
        cases hillegal
  · obtain ⟨hsame, hiff⟩ := (wp_runs hspec hruns).2 e rfl
    constructor
    · intro entity' hok
      cases hok
    · intro e' hraised
      exact ⟨hsame.database, hsame.log⟩
    · rw [hallowed, ← hiff]
      constructor
      · rintro ⟨message, heq⟩
        cases heq
        rfl
      · intro he
        cases e with
        | invalidTransition message => exact ⟨message, rfl⟩
        | _ => cases he

/-- **Every transition is all or nothing**: for every store, entity, target and event of a new id, whatever the
subscribers do and whichever call fails. -/
theorem all_or_nothing {move : Move} {event : DomainEvent} {ct : CancellationToken} {w w' : World}
    {out : Except Exn Entity} (hnew : ∀ e ∈ w.database.events, e.id ≠ event.id)
    (h : Prog.Runs (exec writes) (move.transitionAsync event ct) w out w') :
    AllOrNothing writes move event w w' out := by
  cases move with
  | run snapshot target => exact allOrNothing_of_runs runKind .run rfl rfl (changes_run event _ snapshot target) hnew h
  | task snapshot target => exact allOrNothing_of_runs taskKind .task rfl rfl (changes_task event _ snapshot target) hnew h
  | attempt snapshot target =>
      exact allOrNothing_of_runs attemptKind .attempt rfl rfl (changes_attempt event _ snapshot target) hnew h

/-! ### A subscriber that throws -/

def moment : DateTimeOffset := ⟨0, 0⟩

def createdRun : Run where
  id := ⟨"run-1"⟩
  projectId := "project-1"
  goalId := ⟨"goal-1"⟩
  goalRevision := "1"
  state := .created
  autonomy := .agentic
  createdAt := moment

def planningEvent : DomainEvent where
  id := "event-1"
  timestamp := moment
  type := .stateChange
  projectId := "project-1"
  runId := some ⟨"run-1"⟩
  payload := .obj []

/-- Everything is granted, and every subscriber throws. -/
def throwing : (o : Op) → World → Ret o
  | .require, _ | .wait _, _ | .beginTransaction _, _ | .executeNonQuery .., _ | .commit _, _
  | .disposeTransaction, _ => .ok ()
  | .release, _ => ()
  | .listeners, w => w.listeners
  | .notify .., w => ⟨.error (.other "the window is closed"), w.listeners⟩

theorem all_or_nothing_throwing : ∃ w' out,
    Prog.Runs (exec fun _ _ db => db) ((Move.run createdRun .planning).transitionAsync planningEvent .source)
      { database := { runs := [createdRun] }, listeners := [7, 9] } out w' ∧
    w'.log.length = 3 ∧ w'.database.events = [planningEvent] ∧
    AllOrNothing (fun _ _ db => db) (.run createdRun .planning) planningEvent
      { database := { runs := [createdRun] }, listeners := [7, 9] } w' out := by
  have hrun : (Prog.run (exec fun _ _ db => db) throwing
      ((Move.run createdRun .planning).transitionAsync planningEvent .source)
      { database := { runs := [createdRun] }, listeners := [7, 9] }).any
        (fun end' => end'.2.log.length = 3 ∧ end'.2.database.events = [planningEvent]) = true := by decide +kernel
  generalize hend : Prog.run (exec fun _ _ db => db) throwing _ _ = ending at hrun
  cases ending with
  | none => cases hrun
  | some ending =>
      obtain ⟨out, w'⟩ := ending
      have hruns := Prog.runs_of_run hend
      simp only [Option.any_some, decide_eq_true_eq] at hrun
      exact ⟨w', out, hruns, hrun.1, hrun.2, all_or_nothing (by simp) hruns⟩

end Claim

end AtlasFlow.Transaction
