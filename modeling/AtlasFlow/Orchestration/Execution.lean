import AtlasFlow.Orchestration.StoredRun

/-!
# One run in execution

The engine of one run beside somebody who may cancel the run's token at any moment. A statement made
with the token throws if the token is cancelled before it starts, and may throw if it is cancelled
while it runs; either way it has done nothing. What a task's runner does is a choice of the answer.
Nobody else writes the rows of the run, and generated task ids are new.

`Ledger` is what an observer writes down: nothing the engine does depends on it.
-/

namespace AtlasFlow

open Concurrency

namespace Execution

inductive Party | engine | canceller
  deriving DecidableEq

/-- What the engine has done: the passes it has begun, the tasks whose runner it has called with the
pass it did it in, whether every runner so far reported a success, whether the loop has seen the
cancellation, and whether a statement has thrown before the run was settled. -/
structure Ledger where
  passes : Nat := 0
  invoked : List (Nat × TaskId) := []
  succeeding : Bool := true
  stopped : Bool := false
  escaped : Bool := false
  deriving DecidableEq

/-- `early`: the token was cancelled before the run was settled. `used` are the task ids generated
so far. -/
structure World where
  db : Database
  cancelled : Bool := false
  early : Bool := false
  used : List TaskId := []
  ledger : Ledger := {}

/-- The states the engine leaves a run in. -/
def settles (state : RunState) : Bool :=
  state = .verifying || state = .failed || state = .cancelled

/-- The stored run is settled. -/
def settled (id : RunId) (db : Database) : Bool := (db.findRun id).any fun run => settles run.state

/-- Whether a runner reported a success. -/
def reported : Except Exn TaskOutcome → Bool
  | .ok outcome => outcome.isSuccess
  | .error _ => false

namespace World

/-- The run's token is cancelled. -/
def cancel (id : RunId) (w : World) : World :=
  if w.cancelled then w else { w with cancelled := true, early := !settled id w.db }

/-- A statement has thrown. -/
def escape (id : RunId) (w : World) : World :=
  { w.cancel id with ledger := { w.ledger with escaped := w.ledger.escaped || !settled id w.db } }

/-- The loop has tested the token. -/
def look (w : World) : World :=
  if w.cancelled then { w with ledger := { w.ledger with stopped := true } }
  else { w with ledger := { w.ledger with passes := w.ledger.passes + 1 } }

/-- A task's runner has been called. -/
def invoke (task : RunTask) (answer : Except Exn TaskOutcome) (w : World) : World :=
  { w with ledger :=
    { w.ledger with
      invoked := w.ledger.invoked ++ [(w.ledger.passes, task.id)]
      succeeding := w.ledger.succeeding && reported answer } }

end World

/-- A statement has been answered: with the token it is answered only while the token is not
cancelled. -/
def answered {α : Type} (id : RunId) (ct : CancellationToken) (r : Except Exn α) (w : World)
    (db : Option Database) : Option World :=
  match r with
  | .ok _ => if ct = .source ∧ w.cancelled = true then none else db.map fun db => { w with db }
  | .error _ => db.map fun _ => w.escape id

/-- What every call may answer, and what it does, in the execution of run `id`. -/
def exec (id : RunId) : Party → (o : Op) → World → Ret o → Option World
  | .engine, .selectRun id' ct, w, r =>
      answered id ct r w (Database.answers (.selectRun id' ct) w.db r)
  | .engine, .selectTasks runId ct, w, r =>
      answered id ct r w (Database.answers (.selectTasks runId ct) w.db r)
  | .engine, .execute write ct, w, r =>
      answered id ct r w (Database.answers (.execute write ct) w.db r)
  | .engine, .executeInTransaction write event ct, w, r =>
      answered id ct r w (Database.answers (.executeInTransaction write event ct) w.db r)
  | .engine, .newTaskId, w, r =>
      if r ∈ w.used then none else some { w with used := r :: w.used }
  | .engine, .isCancellationRequested, w, r => if r = w.cancelled then some w.look else none
  | .engine, .runTask task, w, r => some (w.invoke task r)
  | .engine, .newEventId, w, _ => some w
  | .engine, .utcNow, w, _ => some w
  | .engine, .listeners, w, _ => some w
  | .engine, .notify .., w, _ => some w
  | .canceller, .cancel, w, _ => some (w.cancel id)
  | _, _, _, _ => none

/-- `RunEngine.ExecuteAsync` for a run that was just created from a plan, with the token of
`RunService.StartInBackground`, and `RunService.CancelAsync`. -/
def system (projectId : String) (created : Run) (plan : Plan) :
    System Party Op Ret Exn RunEngine.Point Run World where
  exec := exec created.id
  code
    | .engine, point => RunEngine.executeAsync projectId created plan .source point
    | .canceller, _ => Prog.bind (Prog.op .cancel) fun _ => .ret (.inr created)

/-- The rows a run starts from: its own, in state created, and no task. -/
structure Started (created : Run) (db : Database) : Prop where
  run : db.findRun created.id = some created.persisted
  state : created.state = .created
  tasks : db.tasksOf created.id = []

/-! ## How an execution may end -/

/-- **The run is settled**: it is in one of the states the engine leaves runs in; and if its token was
cancelled while it was not settled yet, it is cancelled or failed, and no task is left open. -/
structure Settles (created : Run) (w : World) : Prop where
  settled : settled created.id w.db = true
  early : w.early = true →
    (∀ run, w.db.findRun created.id = some run → run.state = .cancelled ∨ run.state = .failed) ∧
      ∀ task ∈ w.db.tasksOf created.id,
        task.state ≠ .planned ∧ task.state ≠ .ready ∧ task.state ≠ .running

/-- No statement has thrown before the run was settled, and the plan has a task or the loop has seen
the cancellation. -/
def Orderly (plan : Plan) (w : World) : Prop :=
  w.ledger.escaped = false ∧ (plan.tasks ≠ [] ∨ w.ledger.stopped = true)

/-- Either of the two ways an execution ends. -/
def Ended (created : Run) (plan : Plan) (w : World) : Prop :=
  (settled created.id w.db = false ∧ ¬ Orderly plan w) ∨ (Settles created w ∧ Orderly plan w)

theorem Ended.iff {created : Run} {plan : Plan} {w : World} (h : Ended created plan w) :
    Settles created w ↔ Orderly plan w := by
  rcases h with ⟨hopen, hnot⟩ | ⟨hsettles, horderly⟩
  · constructor
    · intro hsettles
      rw [hsettles.settled] at hopen
      cases hopen
    · intro horderly
      exact absurd horderly hnot
  · exact iff_of_true hsettles horderly

/-! ## The contract of the engine -/

section Contract

variable (created : Run) (plan : Plan)

/-- What fits together in a ledger: the tasks whose runner was called are the tasks of nodes, none was
called twice, there are no more passes than the plan has nodes, and one. -/
structure Coherent (N : Naming) (nodes : List PlanTask) (rs : RunState) (L : Ledger) : Prop where
  injective : N.Injective plan.tasks
  saved : nodes <+: plan.tasks
  all : rs ≠ .created → rs ≠ .planning → nodes = plan.tasks
  invoked : ∀ entry ∈ L.invoked, ∃ node ∈ plan.tasks, entry.2 = N.id node.id
  once : (L.invoked.map Prod.snd).Nodup
  passes : L.passes ≤ plan.tasks.length + 1

/-- Everything the engine knows about the world between two calls. -/
structure At (N : Naming) (nodes : List PlanTask) (st : TaskId → TaskState) (rs : RunState)
    (L : Ledger) (w : World) : Prop where
  stored : StoredRun created N nodes st rs w.db
  ledger : w.ledger = L
  early : w.early = true → w.cancelled = true
  coherent : Coherent plan N nodes rs L

/-- The world is as the engine knows it. -/
def Sound (w : World) : Prop := ∃ N nodes st rs L, At created plan N nodes st rs L w

/-- The runner may be called for `task`: it is stored, all it depends on has succeeded, and its runner
has not been called yet. -/
structure Invocable (task : RunTask) (w : World) : Prop where
  stored : task.persisted ∈ w.db.tasksOf created.id
  dependencies : ∀ d ∈ task.dependencies,
    Scheduler.stateOf (w.db.tasksOf created.id) d = some .succeeded
  fresh : task.id ∉ w.ledger.invoked.map Prod.snd

def rely : Party → World → World → Prop
  | .engine, w, w' => w' = w ∨ w' = w.cancel created.id
  | .canceller, _, _ => True

def guar : Party → (o : Op) → World → Ret o → World → Prop
  | .engine, o, w, _, w' =>
      Sound created plan w' ∧ ∀ task, o = .runTask task → Invocable created task w
  | .canceller, _, w, _, w' => w' = w.cancel created.id

abbrev contract (i : Party) : Contract Op Ret World :=
  ⟨exec created.id i, rely created i, guar created plan i⟩

/-- An assertion the engine may hold between two of its calls. -/
structure Kept (A : World → Prop) : Prop where
  sound : ∀ w, A w → Sound created plan w
  cancel : ∀ w, A w → A (w.cancel created.id)

end Contract

variable {created : Run} {plan : Plan} {N : Naming} {nodes : List PlanTask}
  {st : TaskId → TaskState} {rs : RunState} {L : Ledger} {w : World}

section Cancel

variable (id : RunId)

@[simp] theorem cancel_db (w : World) : (w.cancel id).db = w.db := by
  unfold World.cancel
  split <;> rfl

@[simp] theorem cancel_ledger (w : World) : (w.cancel id).ledger = w.ledger := by
  unfold World.cancel
  split <;> rfl

@[simp] theorem cancel_used (w : World) : (w.cancel id).used = w.used := by
  unfold World.cancel
  split <;> rfl

@[simp] theorem cancel_cancelled (w : World) : (w.cancel id).cancelled = true := by
  unfold World.cancel
  split
  · assumption
  · rfl

@[simp] theorem cancel_cancel (w : World) : (w.cancel id).cancel id = w.cancel id := by
  rw [World.cancel, if_pos (cancel_cancelled id w)]

variable {id}

/-- Cancelling the token of a settled run is not early. -/
theorem cancel_early_of_settled (h : settled id w.db = true) :
    (w.cancel id).early = true → w.early = true := by
  unfold World.cancel
  split
  · exact fun h => h
  · simp [h]

end Cancel

theorem At.settled (h : At created plan N nodes st rs L w) :
    settled created.id w.db = settles rs := by
  rw [Execution.settled, h.stored.run]
  rfl

theorem At.cancel (h : At created plan N nodes st rs L w) :
    At created plan N nodes st rs L (w.cancel created.id) := by
  refine ⟨?_, ?_, fun _ => cancel_cancelled .., h.coherent⟩
  · rw [cancel_db]
    exact h.stored
  · rw [cancel_ledger]
    exact h.ledger

theorem At.kept : Kept created plan (At created plan N nodes st rs L) :=
  ⟨fun _ h => ⟨N, nodes, st, rs, L, h⟩, fun _ h => h.cancel⟩

theorem Kept.and {A B : World → Prop} (hA : Kept created plan A)
    (hB : ∀ w, A w → B w → B (w.cancel created.id)) : Kept created plan fun w => A w ∧ B w :=
  ⟨fun w h => hA.sound w h.1, fun w h => ⟨hA.cancel w h.1, hB w h.1 h.2⟩⟩

theorem Settles.cancel (h : Settles created w) : Settles created (w.cancel created.id) := by
  refine ⟨?_, fun hearly => ?_⟩
  · rw [cancel_db]
    exact h.settled
  · rw [cancel_db]
    exact h.early (cancel_early_of_settled h.settled hearly)

theorem Ended.cancel (h : Ended created plan w) : Ended created plan (w.cancel created.id) := by
  rcases h with ⟨hopen, hnot⟩ | ⟨hsettles, horderly⟩
  · refine .inl ⟨?_, ?_⟩
    · rw [cancel_db]
      exact hopen
    · rw [Orderly, cancel_ledger]
      exact hnot
  · refine .inr ⟨hsettles.cancel, ?_⟩
    rw [Orderly, cancel_ledger]
    exact horderly

/-- A statement that throws before the run is settled ends the execution badly. -/
theorem At.escape (h : At created plan N nodes st rs L w) (hrs : settles rs = false) :
    Ended created plan (w.escape created.id) ∧ Sound created plan (w.escape created.id) := by
  have hopen : Execution.settled created.id w.db = false := h.settled.trans hrs
  have hcancel := h.cancel
  constructor
  · refine .inl ⟨?_, fun horderly => ?_⟩
    · rw [World.escape, cancel_db]
      exact hopen
    · have hescaped : (w.ledger.escaped || !Execution.settled created.id w.db) = false := horderly.1
      rw [hopen] at hescaped
      simp at hescaped
  · obtain ⟨_, rfl, _, hc⟩ := h
    exact ⟨N, nodes, st, rs, _, hcancel.stored, rfl, hcancel.early,
      hc.injective, hc.saved, hc.all, hc.invoked, hc.once, hc.passes⟩

/-- A statement that throws after the run is settled changes nothing. -/
theorem Settles.escape (h : Settles created w) (horderly : Orderly plan w)
    (hsound : Sound created plan w) :
    Ended created plan (w.escape created.id) ∧ Sound created plan (w.escape created.id) := by
  have hsame : w.escape created.id = w.cancel created.id := by
    have hescaped : (w.ledger.escaped || !Execution.settled created.id w.db) = w.ledger.escaped := by
      rw [h.settled]
      simp
    rw [World.escape, hescaped]
    conv_rhs => rw [← show { w.cancel created.id with ledger := (w.cancel created.id).ledger } =
      w.cancel created.id from rfl, cancel_ledger]
  rw [hsame]
  obtain ⟨N, nodes, st, rs, L, hat⟩ := hsound
  exact ⟨Ended.cancel (.inr ⟨h, horderly⟩), N, nodes, st, rs, L, hat.cancel⟩

/-! ## The engine's calls -/

section Calls

variable {α : Type} {A B : World → Prop} {Q : α → World → Prop} {F : Exn → World → Prop}

/-- The rule for a call of the engine that is not a call of a runner. -/
theorem wp_op {o : Op} {k : Ret o → Program α} (hA : Kept created plan A) (hw : A w)
    (hrunner : ∀ task, o ≠ .runTask task)
    (hstep : ∀ w r w', A w → exec created.id .engine o w r = some w' →
      Sound created plan w' ∧ wp (contract created plan .engine) (k r) Q F w') :
    wp (contract created plan .engine) (.call o k) Q F w := by
  refine wp_call A hw ?_ ?_
  · rintro w w' (rfl | rfl) hw
    · exact hw
    · exact hA.cancel w hw
  · intro w r w' hw hexec
    obtain ⟨hsound, hk⟩ := hstep w r w' hw hexec
    exact ⟨⟨hsound, fun task htask => absurd htask (hrunner task)⟩, hk⟩

/-- The rule for a call that changes nothing. -/
theorem wp_quiet {o : Op} {k : Ret o → Program α} (hA : Kept created plan A) (hw : A w)
    (hrunner : ∀ task, o ≠ .runTask task)
    (hquiet : ∀ w r, exec created.id .engine o w r = some w)
    (hstep : ∀ w r, A w → wp (contract created plan .engine) (k r) Q F w) :
    wp (contract created plan .engine) (.call o k) Q F w := by
  refine wp_op hA hw hrunner fun w r w' hw hexec => ?_
  obtain rfl : w = w' := Option.some.inj ((hquiet w r).symm.trans hexec)
  exact ⟨hA.sound w hw, hstep w r hw⟩

theorem wp_publish {event : DomainEvent} {F : Exn → World → Prop} (hA : Kept created plan A)
    (hw : A w) :
    wp (contract created plan .engine) (EventStore.publishAsync event) (fun _ => A) F w := by
  simp only [EventStore.publishAsync, Prog.bind_eq, Prog.op_bind]
  refine wp_quiet hA hw (fun _ h => by cases h) (fun _ _ => rfl) fun w listeners hw => ?_
  refine wp_mono (wp_forEach (fun _ => A) hw ?_) (fun _ _ h => h) fun _ _ h => h
  intro _ listener _ w _ hw
  exact wp_quiet hA hw (fun _ h => by cases h) (fun _ _ => rfl) fun _ _ hw => hw

theorem wp_event {projectId : String} {runId : RunId} {type : EventType}
    {payload : List (String × Json)} {F : Exn → World → Prop} (hA : Kept created plan A) (hw : A w) :
    wp (contract created plan .engine) (Scheduler.event projectId runId type payload)
      (fun _ => A) F w := by
  simp only [Scheduler.event, Prog.bind_eq, Prog.op_bind]
  refine wp_quiet hA hw (fun _ h => by cases h) (fun _ _ => rfl) fun w _ hw => ?_
  exact wp_quiet hA hw (fun _ h => by cases h) (fun _ _ => rfl) fun _ _ hw => hw

/-- An answered statement: it did its work on the database while the token was not cancelled, or it
threw. -/
theorem answered_cases {β : Type} {ct : CancellationToken} {r : Except Exn β} {w w' : World}
    {db : Option Database} (h : answered created.id ct r w db = some w') :
    (∃ a db', r = .ok a ∧ db = some db' ∧ (ct = .source → w.cancelled = false) ∧
      w' = { w with db := db' }) ∨
      ∃ e db', r = .error e ∧ db = some db' ∧ w' = w.escape created.id := by
  cases r with
  | ok a =>
      by_cases hct : ct = .source ∧ w.cancelled = true
      · rw [answered, if_pos hct] at h
        cases h
      · rw [answered, if_neg hct] at h
        obtain ⟨db', hdb, rfl⟩ := Option.map_eq_some_iff.mp h
        refine .inl ⟨a, db', rfl, hdb, fun hsource => ?_, rfl⟩
        simpa [hsource] using hct
  | error e =>
      obtain ⟨db', hdb, rfl⟩ := Option.map_eq_some_iff.mp h
      exact .inr ⟨e, db', rfl, hdb, rfl⟩

/-- Only a statement with the token throws. -/
theorem orCanceled_error {ct : CancellationToken} {db db' : Database} {e : Exn}
    (h : (if ct = .source ∧ e = .operationCanceled then some db else none) = some db') :
    ct = .source := by
  split at h
  · next hct => exact hct.1
  · cases h

/-- What a thrown statement leaves behind is an end of the execution. -/
def Escapes (created : Run) (plan : Plan) (ct : CancellationToken) (A : World → Prop) : Prop :=
  ct = .source → ∀ w, A w →
    Ended created plan (w.escape created.id) ∧ Sound created plan (w.escape created.id)

theorem At.escapes {ct : CancellationToken} (hrs : ct = .source → settles rs = false) :
    Escapes created plan ct (At created plan N nodes st rs L) :=
  fun hct _ hw => hw.escape (hrs hct)

/-- The rule for a transaction and its publication. -/
theorem wp_commit {write : Write} {event : DomainEvent} {ct : CancellationToken}
    (hA : Kept created plan A) (hB : Kept created plan B) (hw : A w)
    (hok : ∀ w, A w → (ct = .source → w.cancelled = false) →
      B { w with db := (w.db.apply write).insertEvent event })
    (hescape : Escapes created plan ct A) :
    wp (contract created plan .engine) (RunRepository.commitAsync write event ct) (fun _ => B)
      (fun _ => Ended created plan) w := by
  simp only [RunRepository.commitAsync, Prog.bind_eq, Prog.op_bind]
  refine wp_op hA hw (fun _ h => by cases h) fun w r w' hw hexec => ?_
  rcases answered_cases hexec with ⟨a, db, rfl, hdb, hct, rfl⟩ | ⟨e, db, rfl, hdb, rfl⟩
  · obtain rfl := Option.some.inj hdb
    have hB' := hok w hw hct
    refine ⟨hB.sound _ hB', ?_⟩
    simp only [Prog.ofExcept_ok, Prog.ret_bind]
    exact wp_publish hB hB'
  · have hended := hescape (orCanceled_error hdb) w hw
    exact ⟨hended.2, hended.1⟩

/-- Listing the tasks of the run gives its rows, in some order. -/
theorem wp_listTasks {ct : CancellationToken} (hA : Kept created plan A) (hw : A w)
    (hescape : Escapes created plan ct A) :
    wp (contract created plan .engine) (RunRepository.listTasksAsync created.id ct)
      (fun tasks w => A w ∧ tasks.Perm (w.db.tasksOf created.id)) (fun _ => Ended created plan) w := by
  simp only [RunRepository.listTasksAsync, Prog.bind_eq, Prog.op_bind]
  refine wp_op hA hw (fun _ h => by cases h) fun w r w' hw hexec => ?_
  rcases answered_cases hexec with ⟨tasks, db, rfl, hdb, hct, rfl⟩ | ⟨e, db, rfl, hdb, rfl⟩
  · have hdb : (if tasks.Perm (w.db.tasksOf created.id) then some w.db else none) = some db := hdb
    split at hdb
    · next hperm =>
        obtain rfl := Option.some.inj hdb
        exact ⟨hA.sound _ hw, hw, hperm⟩
    · cases hdb
  · have hended := hescape (orCanceled_error hdb) w hw
    exact ⟨hended.2, hended.1⟩

/-- Finding the run gives its row. -/
theorem wp_findRun {ct : CancellationToken} (hA : Kept created plan A) (hw : A w)
    (hescape : Escapes created plan ct A) :
    wp (contract created plan .engine) (RunRepository.findAsync created.id ct)
      (fun run w => A w ∧ run = w.db.findRun created.id) (fun _ => Ended created plan) w := by
  simp only [RunRepository.findAsync, Prog.bind_eq, Prog.op_bind]
  refine wp_op hA hw (fun _ h => by cases h) fun w r w' hw hexec => ?_
  rcases answered_cases hexec with ⟨run, db, rfl, hdb, hct, rfl⟩ | ⟨e, db, rfl, hdb, rfl⟩
  · have hdb : (if run = w.db.findRun created.id then some w.db else none) = some db := hdb
    split at hdb
    · next hrun =>
        obtain rfl := Option.some.inj hdb
        exact ⟨hA.sound _ hw, hw, hrun⟩
    · cases hdb
  · have hended := hescape (orCanceled_error hdb) w hw
    exact ⟨hended.2, hended.1⟩

end Calls

end Execution

end AtlasFlow
