import AtlasFlow.Persistence.RunRepository

/-!
# Clients that move what they hold

Any number of clients read runs, tasks and attempts and move them with `TransitionAsync`, each from
a value it read or was returned at some earlier moment. A client's next request may depend on
everything it has seen: it is a strategy, the theorems hold for every one.

The guard looks at the value, the write replaces the row. Nothing connects the two: a value that
has gone stale in the meantime takes the row back to where it was (`stale_write`). Along every run in
which a transaction only commits while the row is still in the state the client's value has
(`fresh`), every change of a row is a legal move and nothing but its state changes.
-/

namespace AtlasFlow

open Concurrency
open Relation (ReflTransGen)

/-! ## Lawful changes of one table -/

namespace EntityKind

variable {E S κ R : Type} [DecidableEq κ] (K : EntityKind E S κ R)

def find (k : κ) (db : Database) : Option E := Table.lookup K.key k (K.stored db)

/-- What may happen to the row under a key: nothing, or a legal move of its state alone. -/
inductive Change (k : κ) (db db' : Database) : Prop
  | same (h : K.find k db' = K.find k db)
  | moved (old new : E) (hold : K.find k db = some old) (hnew : K.find k db' = some new)
      (hlegal : K.canTransition (K.state old) (K.state new) = true)
      (hrow : K.row new = K.row (K.withState old (K.state new)))

/-- Every row of the kind changed lawfully. -/
def Lawful (db db' : Database) : Prop := ∀ k, K.Change k db db'

/-- The value is a stored row, up to the state the row has by now. -/
def Known (e : E) (db : Database) : Prop :=
  ∃ cur, K.find (K.key e) db = some cur ∧ K.row (K.withState cur (K.state e)) = K.row e

/-- The stored row is in the state the value has. -/
def current [DecidableEq S] (e : E) (db : Database) : Bool :=
  (K.find (K.key e) db).map K.state = some (K.state e)

/-- What a run does to a row that exists: it stays, its state follows legal moves, its other columns
are untouched, and a state with no legal move is final. -/
structure Evolves (db db' : Database) : Prop where
  row : ∀ k old, K.find k db = some old → ∃ new, K.find k db' = some new ∧
    K.row new = K.row (K.withState old (K.state new)) ∧
    ReflTransGen (fun s t => K.canTransition s t = true) (K.state old) (K.state new)
  final : ∀ k old, K.find k db = some old → (∀ t, K.canTransition (K.state old) t = false) →
    K.find k db' = some old

variable {K} {e : E} {db db' db'' : Database}

theorem Lawful.of_eq (h : K.stored db' = K.stored db) : K.Lawful db db' :=
  fun k => .same (by rw [find, find, h])

theorem known_of_mem (hkeyed : Table.Keyed K.key (K.stored db)) (h : e ∈ K.stored db) :
    K.Known e db :=
  ⟨e, Table.lookup_of_mem hkeyed h, by rw [K.withState_state]⟩

/-- A lawful step leaves a known value known. -/
theorem Known.step (h : K.Known e db) (hstep : K.Lawful db db') : K.Known e db' := by
  obtain ⟨cur, hcur, hrow⟩ := h
  cases hstep (K.key e) with
  | same hsame => exact ⟨cur, by rw [hsame, hcur], hrow⟩
  | moved old new hold hnew _ hmoved =>
      have heq : old = cur := Option.some.inj (hold.symm.trans hcur)
      subst heq
      refine ⟨new, hnew, ?_⟩
      rw [K.row_withState new _ (K.state e) hmoved, K.withState_withState, hrow]

/-- **A move from a current value is lawful**, and the value it returns is known. -/
theorem lawful_of_current [DecidableEq S] {target : S} (event : DomainEvent) (h : K.Known e db)
    (hcurrent : K.current e db = true)
    (hlegal : K.canTransition (K.state e) target = true) :
    K.Lawful db ((db.apply (K.write (K.withState e target))).insertEvent event) ∧
      K.Known (K.withState e target)
        ((db.apply (K.write (K.withState e target))).insertEvent event) := by
  obtain ⟨cur, hcur, hrow⟩ := h
  have hstate : K.state cur = K.state e := by
    simpa [current, hcur] using hcurrent
  have hkey : K.key (K.persisted (K.withState e target)) = K.key e := by
    rw [K.key_persisted, K.key_withState]
  have hfind : ∀ k, K.find k ((db.apply (K.write (K.withState e target))).insertEvent event) =
      if k = K.key e then some (K.persisted (K.withState e target)) else K.find k db := by
    intro k
    rw [find, K.stored_insertEvent, K.stored_write, Table.lookup_upsert, hkey]
    rfl
  have hsame : K.row cur = K.row e := by
    rw [← hstate, K.withState_state] at hrow
    exact hrow
  constructor
  · intro k
    by_cases hk : k = K.key e
    · subst hk
      refine .moved cur _ hcur (by rw [hfind, if_pos rfl]) ?_ ?_
      · rw [hstate, K.state_persisted, K.state_withState]
        exact hlegal
      · rw [K.row_persisted, K.state_persisted, K.state_withState]
        exact K.row_withState e cur target hsame.symm
    · exact .same (by rw [hfind, if_neg hk])
  · refine ⟨_, by rw [K.key_withState, hfind, if_pos rfl], ?_⟩
    rw [K.state_withState]
    have hpersisted := K.row_withState (K.persisted (K.withState e target))
      (K.withState e target) target (K.row_persisted _)
    rw [hpersisted, K.withState_withState]

theorem Evolves.refl : K.Evolves db db :=
  ⟨fun _ old h => ⟨old, h, by rw [K.withState_state], .refl⟩, fun _ _ h _ => h⟩

/-- **What one step preserves, a run preserves.** -/
theorem Evolves.tail (h : K.Evolves db db') (hstep : K.Lawful db' db'') : K.Evolves db db'' := by
  constructor
  · intro k old hold
    obtain ⟨mid, hmid, hrow, hpath⟩ := h.row k old hold
    cases hstep k with
    | same hsame => exact ⟨mid, by rw [hsame, hmid], hrow, hpath⟩
    | moved old' new hold' hnew hlegal hmoved =>
        have heq : old' = mid := Option.some.inj (hold'.symm.trans hmid)
        subst heq
        refine ⟨new, hnew, ?_, hpath.tail hlegal⟩
        rw [hmoved, K.row_withState old' _ _ hrow, K.withState_withState]
  · intro k old hold hfinal
    have hmid := h.final k old hold hfinal
    cases hstep k with
    | same hsame => rw [hsame, hmid]
    | moved old' new hold' _ hlegal _ =>
        have heq : old' = old := Option.some.inj (hold'.symm.trans hmid)
        subst heq
        rw [hfinal] at hlegal
        cases hlegal

end EntityKind

/-! ## All three tables -/

/-- Every change of a stored run, task or attempt is lawful. -/
structure Lawful (db db' : Database) : Prop where
  run : runKind.Lawful db db'
  task : taskKind.Lawful db db'
  attempt : attemptKind.Lawful db db'

/-- Over a whole run, every stored run, task and attempt evolves. -/
structure Evolves (db db' : Database) : Prop where
  run : runKind.Evolves db db'
  task : taskKind.Evolves db db'
  attempt : attemptKind.Evolves db db'

theorem Lawful.refl (db : Database) : Lawful db db := ⟨.of_eq rfl, .of_eq rfl, .of_eq rfl⟩

theorem Evolves.tail {db db' db'' : Database} (h : Evolves db db') (hstep : Lawful db' db'') :
    Evolves db db'' :=
  ⟨h.run.tail hstep.run, h.task.tail hstep.task, h.attempt.tail hstep.attempt⟩

/-- The primary keys of the three tables. -/
structure Database.Keyed (db : Database) : Prop where
  run : Table.Keyed Run.id db.runs
  task : Table.Keyed RunTask.id db.tasks
  attempt : Table.Keyed Attempt.id db.attempts

def Entity.Known (db : Database) : Entity → Prop
  | .run r => runKind.Known r db
  | .task t => taskKind.Known t db
  | .attempt a => attemptKind.Known a db

/-- The stored row is in the state the value has. -/
def Entity.current (db : Database) : Entity → Bool
  | .run r => runKind.current r db
  | .task t => taskKind.current t db
  | .attempt a => attemptKind.current a db

theorem Entity.Known.step {db db' : Database} {e : Entity} (h : e.Known db) (hstep : Lawful db db') :
    e.Known db' := by
  cases e with
  | run r => exact EntityKind.Known.step h hstep.run
  | task t => exact EntityKind.Known.step h hstep.task
  | attempt a => exact EntityKind.Known.step h hstep.attempt

/-- A kind of entity among the three: its writes touch its own table only. -/
structure Stored {E S κ R : Type} [DecidableEq κ] (K : EntityKind E S κ R) where
  entity : E → Entity
  known : ∀ e db, (entity e).Known db ↔ K.Known e db
  lawful : ∀ e event db, K.Lawful db ((db.apply (K.write e)).insertEvent event) →
    Lawful db ((db.apply (K.write e)).insertEvent event)
  keyed : ∀ e event (db : Database), db.Keyed → ((db.apply (K.write e)).insertEvent event).Keyed

def storedRun : Stored runKind where
  entity := .run
  known _ _ := .rfl
  lawful _ event _ h := ⟨h, .of_eq (Database.insertEvent_tasks event _),
    .of_eq (Database.insertEvent_attempts event _)⟩
  keyed e event db h := by
    constructor
    · rw [Database.insertEvent_runs]; exact Table.keyed_upsert h.run e.persisted
    · rw [Database.insertEvent_tasks]; exact h.task
    · rw [Database.insertEvent_attempts]; exact h.attempt

def storedTask : Stored taskKind where
  entity := .task
  known _ _ := .rfl
  lawful _ event _ h := ⟨.of_eq (Database.insertEvent_runs event _), h,
    .of_eq (Database.insertEvent_attempts event _)⟩
  keyed e event db h := by
    constructor
    · rw [Database.insertEvent_runs]; exact h.run
    · rw [Database.insertEvent_tasks]; exact Table.keyed_upsert h.task e.persisted
    · rw [Database.insertEvent_attempts]; exact h.attempt

def storedAttempt : Stored attemptKind where
  entity := .attempt
  known _ _ := .rfl
  lawful _ event _ h := ⟨.of_eq (Database.insertEvent_runs event _),
    .of_eq (Database.insertEvent_tasks event _), h⟩
  keyed e event db h := by
    constructor
    · rw [Database.insertEvent_runs]; exact h.run
    · rw [Database.insertEvent_tasks]; exact h.task
    · rw [Database.insertEvent_attempts]; exact Table.keyed_upsert h.attempt e.persisted

/-! ## The clients -/

namespace Writers

/-- What a client does next. -/
inductive Request where
  | findRun (id : RunId) (ct : CancellationToken)
  | listTasks (runId : RunId) (ct : CancellationToken)
  | listAttempts (runId : RunId) (ct : CancellationToken)
  | moveRun (held : Run) (target : RunState) (event : DomainEvent) (ct : CancellationToken)
  | moveTask (held : RunTask) (target : TaskState) (event : DomainEvent) (ct : CancellationToken)
  | moveAttempt (held : Attempt) (target : AttemptState) (event : DomainEvent)
      (ct : CancellationToken)

/-- `TransitionAsync` of a value the client holds. -/
def move {E S κ R : Type} [DecidableEq κ] {K : EntityKind E S κ R} (stored : Stored K)
    (held : List Entity) (e : E) (target : S) (event : DomainEvent) (ct : CancellationToken) :
    Program (List Entity) := do
  if stored.entity e ∈ held then
    Prog.op (Op.invoke (stored.entity e))
    return [stored.entity (← RunRepository.transition K e target event ct)]
  else return []

/-- What one request gives the client that makes it. -/
def perform (held : List Entity) : Request → Program (List Entity)
  | .findRun id ct => do
      match ← RunRepository.findAsync id ct with
      | none => return []
      | some run => return [.run run]
  | .listTasks runId ct => do return (← RunRepository.listTasksAsync runId ct).map .task
  | .listAttempts runId ct => do return (← RunRepository.listAttemptsAsync runId ct).map .attempt
  | .moveRun run target event ct => move storedRun held run target event ct
  | .moveTask task target event ct => move storedTask held task target event ct
  | .moveAttempt attempt target event ct => move storedAttempt held attempt target event ct

/-- The database, and the value each client last called `TransitionAsync` with. -/
structure World (ι : Type) where
  db : Database
  holding : ι → Option Entity := fun _ => none

variable {ι : Type} [DecidableEq ι]

/-- What a call does to the database; subscribers do not touch it. -/
def serve : (o : Op) → Database → Ret o → Option Database
  | .invoke _, db, _ => some db
  | .listeners, db, _ => some db
  | .notify .., db, _ => some db
  | o, db, r => Database.answers o db r

def observe (i : ι) : (o : Op) → World ι → World ι
  | .invoke held, w => { w with holding := Function.update w.holding i (some held) }
  | _, w => w

/-- A client's next request, from the number of requests it has made and the values it holds. -/
abbrev Strategy := Nat → List Entity → Request

/-- The clients, each going round its loop for ever; a request that throws gives it nothing. -/
def clients (strategy : ι → Strategy) :
    System ι Op Ret Exn (Nat × List Entity) Empty (World ι) where
  exec i o w r := (serve o w.db r).map fun db => observe i o { w with db }
  code i s :=
    ((perform s.2 (strategy i s.1 s.2)).handle fun _ => .ret []).bind fun got =>
      .ret (.inl (s.1 + 1, s.2 ++ got))

/-- A transaction commits only while the row it replaces is in the state its writer's value has. -/
def fresh (i : ι) : (o : Op) → World ι → Ret o → Bool
  | .executeInTransaction .., w, .ok _ =>
    match w.holding i with
    | some held => held.current w.db
    | none => true
  | _, _, _ => true

abbrev freshClients (strategy : ι → Strategy) :
    System ι Op Ret Exn (Nat × List Entity) Empty (World ι) :=
  (clients strategy).restrict fresh

/-! ### The contract of a client -/

/-- What the others leave alone for `i`. -/
structure Rely (i : ι) (w w' : World ι) : Prop where
  holding : w'.holding i = w.holding i
  keyed : w.db.Keyed → w'.db.Keyed
  known : ∀ e : Entity, e.Known w.db → e.Known w'.db

/-- What each call of `i` does. -/
structure Guar (i : ι) (w w' : World ι) : Prop where
  holding : ∀ j, j ≠ i → w'.holding j = w.holding j
  keyed : w.db.Keyed → w'.db.Keyed
  lawful : Lawful w.db w'.db

abbrev contract (strategy : ι → Strategy) (i : ι) : Contract Op Ret (World ι) :=
  ⟨(freshClients strategy).exec i, Rely i, fun _ w _ w' => Guar i w w'⟩

/-- What a client knows: the tables have keys, the values it holds are stored. -/
structure Knows (held : List Entity) (w : World ι) : Prop where
  keyed : w.db.Keyed
  known : ∀ e ∈ held, e.Known w.db

variable {strategy : ι → Strategy} {i : ι} {held : List Entity} {w w' : World ι}

omit [DecidableEq ι] in
theorem Knows.step (h : Knows held w) (hrely : Rely i w w') : Knows held w' :=
  ⟨hrely.keyed h.keyed, fun e he => hrely.known e (h.known e he)⟩

omit [DecidableEq ι] in
theorem Guar.refl : Guar i w w := ⟨fun _ _ => rfl, fun h => h, Lawful.refl _⟩

theorem exec_fresh {o : Op} {r : Ret o}
    (h : (freshClients strategy).exec i o w r = some w') :
    fresh i o w r = true ∧ ∃ db, serve o w.db r = some db ∧ w' = observe i o { w with db } := by
  obtain ⟨hfresh, hexec⟩ := (System.exec_restrict _).mp h
  obtain ⟨db, hserve, hw'⟩ := Option.map_eq_some_iff.mp hexec
  exact ⟨hfresh, db, hserve, hw'.symm⟩

variable {α : Type}

/-- The rule for a call that leaves the database and what the clients hold alone. -/
theorem wp_quiet {o : Op} {k : Ret o → Program α} {Q : α → World ι → Prop}
    {F : Exn → World ι → Prop} (hw : Knows held w)
    (hquiet : ∀ db r db', serve o db r = some db' → db' = db)
    (hobserve : ∀ w : World ι, observe i o w = w)
    (hstep : ∀ w r, Knows held w → serve o w.db r = some w.db →
      wp (contract strategy i) (k r) Q F w) :
    wp (contract strategy i) (.call o k) Q F w := by
  refine wp_call (Knows held) hw (fun w w' hrely h => h.step hrely) ?_
  intro w r w' hknows hexec
  obtain ⟨_, db, hserve, rfl⟩ := exec_fresh hexec
  have hdb := hquiet w.db r db hserve
  subst hdb
  rw [hobserve]
  exact ⟨.refl, hstep w r hknows hserve⟩

theorem answers_run {id : RunId} {ct : CancellationToken} (db : Database)
    (r : Except Exn (Option Run)) (db' : Database)
    (h : serve (.selectRun id ct) db r = some db') :
    db' = db ∧ ∀ run, r = .ok run → run = db.findRun id := by
  cases r <;> simp only [serve, Database.answers, Database.orCanceled] at h <;> split at h <;>
    simp_all

theorem answers_tasks {runId : RunId} {ct : CancellationToken} (db : Database)
    (r : Except Exn (List RunTask)) (db' : Database)
    (h : serve (.selectTasks runId ct) db r = some db') :
    db' = db ∧ ∀ tasks, r = .ok tasks → tasks.Perm (db.tasksOf runId) := by
  cases r <;> simp only [serve, Database.answers, Database.orCanceled] at h <;> split at h <;>
    simp_all

theorem answers_attempts {runId : RunId} {ct : CancellationToken} (db : Database)
    (r : Except Exn (List Attempt)) (db' : Database)
    (h : serve (.selectAttempts runId ct) db r = some db') :
    db' = db ∧ ∀ attempts, r = .ok attempts → attempts.Perm (db.attemptsOf runId) := by
  cases r <;> simp only [serve, Database.answers, Database.orCanceled] at h <;> split at h <;>
    simp_all

/-- Telling the subscribers changes nothing. -/
theorem wp_publish {event : DomainEvent} {Q : Unit → World ι → Prop} {F : Exn → World ι → Prop}
    (hw : Knows held w) (hQ : ∀ w, Knows held w → Q () w) :
    wp (contract strategy i) (EventStore.publishAsync event) Q F w := by
  simp only [EventStore.publishAsync, Prog.bind_eq, Prog.op_bind]
  refine wp_quiet hw (fun _ _ _ h => (Option.some.inj h).symm) (fun _ => rfl) ?_
  intro w listeners hw _
  refine wp_mono (wp_forEach (fun _ w => Knows held w) hw ?_) (fun _ w h => hQ w h) fun _ _ h => h
  intro _ listener _ w _ hw
  exact wp_quiet hw (fun _ _ _ h => (Option.some.inj h).symm) (fun _ => rfl) fun _ _ hw _ => hw

/-- **A move of a held value keeps the contract**: it commits only from a current value, and what it
returns is stored. -/
theorem wp_move {E S κ R : Type} [DecidableEq κ] [DecidableEq S] {K : EntityKind E S κ R}
    (stored : Stored K)
    (hcurrent : ∀ e db, (stored.entity e).current db = K.current e db)
    {e : E} {target : S} {event : DomainEvent} {ct : CancellationToken} (hw : Knows held w) :
    wp (contract strategy i) (move stored held e target event ct)
      (fun got w => Knows (held ++ got) w) (fun _ => Knows held) w := by
  unfold move
  split
  · next hmem =>
      simp only [Prog.bind_eq, Prog.op_bind]
      refine wp_call (Knows held) hw (fun w w' hrely h => h.step hrely) ?_
      intro w r w' hw hexec
      have hexec : (freshClients strategy).exec i (.invoke (stored.entity e)) w r = some w' := hexec
      obtain ⟨_, db, hserve, rfl⟩ := exec_fresh hexec
      have hdb : w.db = db := Option.some.inj hserve
      subst hdb
      refine ⟨⟨fun j hj => Function.update_of_ne hj _ _, fun h => h, Lawful.refl _⟩, ?_⟩
      have hknows : Knows held (observe i (.invoke (stored.entity e)) w) := ⟨hw.keyed, hw.known⟩
      unfold RunRepository.transition
      split
      · next hlegal =>
          simp only [RunRepository.commitAsync, Prog.bind_eq, Prog.op_bind, Prog.call_bind]
          refine wp_call
            (fun w => Knows held w ∧ w.holding i = some (stored.entity e))
            ⟨hknows, Function.update_self ..⟩ ?_ ?_
          · rintro w w' hrely ⟨hw, hhold⟩
            exact ⟨hw.step hrely, hrely.holding.trans hhold⟩
          · rintro w r w' ⟨hw, hhold⟩ hexec
            obtain ⟨hfresh, db, hserve, rfl⟩ := exec_fresh hexec
            cases r with
            | error err =>
                have hdb : db = w.db := by
                  simp only [serve, Database.answers, Database.orCanceled] at hserve
                  split at hserve <;> simp_all
                subst hdb
                exact ⟨.refl, hw⟩
            | ok u =>
                have hdb := Option.some.inj hserve
                subst hdb
                have hcur : K.current e w.db = true := by
                  rw [← hcurrent]
                  simpa [fresh, hhold] using hfresh
                have hknown := (stored.known e w.db).mp (hw.known _ hmem)
                obtain ⟨hlaw, hnew⟩ :=
                  EntityKind.lawful_of_current event hknown hcur hlegal
                have hlawful := stored.lawful _ event w.db hlaw
                have hkeyed := stored.keyed (K.withState e target) event w.db
                refine ⟨⟨fun _ _ => rfl, hkeyed, hlawful⟩, ?_⟩
                have hafter : ∀ e' ∈ held ++ [stored.entity (K.withState e target)],
                    e'.Known ((w.db.apply (K.write (K.withState e target))).insertEvent event) := by
                  intro e' he'
                  rcases List.mem_append.mp he' with hold | hone
                  · exact (hw.known e' hold).step hlawful
                  · rw [List.mem_singleton.mp hone]
                    exact (stored.known _ _).mpr hnew
                simp only [Prog.ofExcept_ok, Prog.ret_bind]
                exact wp_bind.mpr (wp_bind.mpr
                  (wp_publish ⟨hkeyed hw.keyed, hafter⟩ fun _ h => h))
      · exact hknows
  · simpa using hw

theorem wp_perform (request : Request) (hw : Knows held w) :
    wp (contract strategy i) (perform held request) (fun got w => Knows (held ++ got) w)
      (fun _ => Knows held) w := by
  cases request with
  | findRun id ct =>
      simp only [perform, RunRepository.findAsync, Prog.bind_eq, Prog.op_bind, Prog.call_bind]
      refine wp_quiet hw (fun db r db' h => (answers_run db r db' h).1) (fun _ => rfl) ?_
      intro w r hw hserve
      have hrun := (answers_run w.db r w.db hserve).2
      cases r with
      | error e => exact hw
      | ok run? =>
          cases run? with
          | none => simpa using hw
          | some run =>
              refine ⟨hw.keyed, fun e he => ?_⟩
              rcases List.mem_append.mp he with hold | hone
              · exact hw.known e hold
              · rw [List.mem_singleton.mp hone]
                have hfind : w.db.findRun id = some run := (hrun _ rfl).symm
                exact EntityKind.known_of_mem hw.keyed.run (Table.mem_of_lookup hfind).1
  | listTasks runId ct =>
      simp only [perform, RunRepository.listTasksAsync, Prog.bind_eq, Prog.op_bind, Prog.call_bind]
      refine wp_quiet hw (fun db r db' h => (answers_tasks db r db' h).1) (fun _ => rfl) ?_
      intro w r hw hserve
      have hperm := (answers_tasks w.db r w.db hserve).2
      cases r with
      | error e => exact hw
      | ok tasks =>
          refine ⟨hw.keyed, fun e he => ?_⟩
          rcases List.mem_append.mp he with hold | hnew
          · exact hw.known e hold
          · obtain ⟨task, htask, rfl⟩ := List.mem_map.mp hnew
            have hmem := List.mem_of_mem_filter ((hperm tasks rfl).mem_iff.mp htask)
            exact EntityKind.known_of_mem hw.keyed.task hmem
  | listAttempts runId ct =>
      simp only [perform, RunRepository.listAttemptsAsync, Prog.bind_eq, Prog.op_bind,
        Prog.call_bind]
      refine wp_quiet hw (fun db r db' h => (answers_attempts db r db' h).1) (fun _ => rfl) ?_
      intro w r hw hserve
      have hperm := (answers_attempts w.db r w.db hserve).2
      cases r with
      | error e => exact hw
      | ok attempts =>
          refine ⟨hw.keyed, fun e he => ?_⟩
          rcases List.mem_append.mp he with hold | hnew
          · exact hw.known e hold
          · obtain ⟨attempt, hattempt, rfl⟩ := List.mem_map.mp hnew
            have hmem := List.mem_of_mem_filter ((hperm attempts rfl).mem_iff.mp hattempt)
            exact EntityKind.known_of_mem hw.keyed.attempt hmem
  | moveRun run target event ct => exact wp_move storedRun (fun _ _ => rfl) hw
  | moveTask task target event ct => exact wp_move storedTask (fun _ _ => rfl) hw
  | moveAttempt attempt target event ct => exact wp_move storedAttempt (fun _ _ => rfl) hw

/-- Every client keeps to its contract. -/
def outline (strategy : ι → Strategy) : Outline (freshClients strategy) where
  rely := Rely
  guar i _ w _ w' := Guar i w w'
  pre _ s w := Knows s.2 w
  post _ r _ := r.elim
  fail _ _ _ := True
  rely_refl _ _ := ⟨rfl, fun h => h, fun _ h => h⟩
  rely_trans _ _ _ _ h h' :=
    ⟨h'.holding.trans h.holding, fun hk => h'.keyed (h.keyed hk),
      fun e he => h'.known e (h.known e he)⟩
  guar_rely _ j _ _ _ _ hij h := ⟨h.holding j (Ne.symm hij), h.keyed, fun _ he => he.step h.lawful⟩
  pre_stable _ _ _ _ hrely h := h.step hrely
  post_stable _ r := r.elim
  fail_stable _ _ _ _ _ h := h
  body i s w hw := by
    refine wp_seq (M := fun got w => Knows (s.2 ++ got) w) (wp_handle.mpr ?_) fun _ _ h => h
    refine wp_mono (wp_perform (strategy i s.1 s.2) hw) (fun _ _ h => h) ?_
    intro _ w h
    simpa using h

/-- **Moves from current values keep every history legal.** In every reachable state, whatever step
comes next changes every stored run, task and attempt lawfully, and over any further run each of
them evolves: its states follow the state machine, no other column changes, and a state without a
move is final. -/
theorem lawful_of_fresh (strategy : ι → Strategy) (db : Database) (hdb : db.Keyed)
    (c c' : Conf ι Op Ret Exn (Nat × List Entity) Empty (World ι))
    (h : (freshClients strategy).Steps
      ((freshClients strategy).init (fun _ => (0, [])) { db }) c) :
    ((freshClients strategy).Next c c' → Lawful c.world.db c'.world.db) ∧
      ((freshClients strategy).Steps c c' → Evolves c.world.db c'.world.db) := by
  have hinit : (outline strategy).Holds ((freshClients strategy).init (fun _ => (0, [])) { db }) :=
    Outline.holds_init _ fun i => ⟨hdb, fun e he => absurd he List.not_mem_nil⟩
  have hstep : ∀ {c c'}, (outline strategy).Holds c → (freshClients strategy).Next c c' →
      Lawful c.world.db c'.world.db := by
    rintro c c' hholds ⟨l, hl⟩
    have hallowed := (Outline.holds_step _ hholds hl).2
    cases l with
    | call i o r => exact hallowed.lawful
    | jump i s =>
        rw [show c'.world = c.world from hallowed]
        exact Lawful.refl _
  have hholds := Outline.holds_steps _ hinit h
  refine ⟨hstep hholds, fun hsteps => ?_⟩
  induction hsteps with
  | refl => exact ⟨.refl, .refl, .refl⟩
  | tail hpre hnext ih => exact ih.tail (hstep (Outline.holds_steps _ hholds hpre) hnext)

/-! ### One move, and a stale one -/

def runningRun : Run where
  id := ⟨"run-1"⟩
  projectId := "atlas"
  goalId := ⟨"GOAL-1"⟩
  goalRevision := "r1"
  state := .running
  autonomy := .supervised
  createdAt := ⟨0, 0⟩

def moved : DomainEvent where
  id := "evt-1"
  timestamp := ⟨0, 0⟩
  type := .stateChange
  projectId := "atlas"
  runId := some runningRun.id
  payload := .obj []

/-- Read the run, then move the value that was read. -/
def readThenMove (target : RunState) : Strategy
  | 1, _ => .moveRun runningRun target moved .none
  | _, _ => .findRun runningRun.id .none

/-- A canceller and the engine that verifies, both after one running run. -/
def cancelOrVerify : Bool → Strategy
  | false => readThenMove .cancelled
  | true => readThenMove .verifying

def runningDb : Database := { runs := [runningRun] }

theorem runningDb_keyed : runningDb.Keyed :=
  ⟨List.nodup_singleton _, List.nodup_nil, List.nodup_nil⟩

def answer : (o : Op) → World Bool → Ret o
  | .selectRun id _, w => .ok (w.db.findRun id)
  | .executeInTransaction .., _ => .ok ()
  | _, _ => default

/-- The canceller reads the run and cancels it. -/
def cancelling : List (Bool × ((o : Op) → World Bool → Ret o)) := List.replicate 5 (false, answer)

/-- The engine reads the run and is about to commit before the canceller has read it. -/
def verifyPending : List (Bool × ((o : Op) → World Bool → Ret o)) := List.replicate 3 (true, answer)

theorem lawful_of_fresh_cancelling :
    let S := freshClients cancelOrVerify
    let c := S.init (fun _ => (0, [])) { db := runningDb }
    (S.play cancelling c).world.db.runs.map Run.state = [.cancelled] ∧
      Evolves c.world.db (S.play cancelling c).world.db :=
  ⟨rfl, (lawful_of_fresh cancelOrVerify runningDb runningDb_keyed _ _ .refl).2
    (System.play_steps _ cancelling _)⟩

/-- **A stale write undoes a cancellation**: the engine's value still says running, its guard lets
the move to verifying through, and the cancelled row is replaced. -/
theorem stale_write :
    let S := clients cancelOrVerify
    let c := S.play (verifyPending ++ cancelling) (S.init (fun _ => (0, [])) { db := runningDb })
    ∃ c', S.Steps (S.init (fun _ => (0, [])) { db := runningDb }) c ∧ S.Next c c' ∧
      (runKind.find runningRun.id c.world.db).map Run.state = some .cancelled ∧
      (runKind.find runningRun.id c'.world.db).map Run.state = some .verifying ∧
      ¬ Lawful c.world.db c'.world.db := by
  refine ⟨_, System.play_steps _ _ _, ⟨_, .call (i := true) (r := .ok ()) rfl rfl⟩, rfl, rfl, ?_⟩
  intro hlawful
  cases hlawful.run runningRun.id with
  | same hsame => exact absurd (congrArg (Option.map Run.state) hsame) (by decide)
  | moved old new hold hnew hlegal _ =>
      cases hold
      cases hnew
      exact absurd hlegal (by decide)

end Writers

end AtlasFlow
