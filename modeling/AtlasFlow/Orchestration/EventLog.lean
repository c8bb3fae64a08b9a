import AtlasFlow.Orchestration.Passes

/-!
# The log of an execution

Every transition writes an event beside the row it moves, and the event of a run's transition names
the state the run was in and the state it went to. In every state of every execution those events,
read in order, lead from `Created` to the stored state of the run by moves the state machine allows,
and the log has one event for every transition that was committed (`log_explains`).
-/

namespace AtlasFlow

open Concurrency

/-! ## Payloads -/

section Payload

variable {key : String}

/-- A member that is replaced is not found under another key, before or after. -/
theorem find?_replace {m : String × Json} (hne : key ≠ m.1) (members : List (String × Json)) :
    (members.map fun old => if old.1 = m.1 then m else old).find? (fun old => old.1 = key) =
      members.find? fun old => old.1 = key := by
  induction members with
  | nil => rfl
  | cons old members ih =>
      rw [List.map_cons, List.find?_cons, List.find?_cons, ih]
      by_cases hold : old.1 = m.1
      · simp [hold, Ne.symm hne]
      · rw [if_neg hold]

/-- `Merge` leaves the keys alone that the extra members do not have. -/
theorem get?_merge {extra : List (String × Json)} (hkey : key ∉ extra.map Prod.fst)
    (target : List (String × Json)) :
    (Json.obj (Scheduler.merge target extra)).get? key = (Json.obj target).get? key := by
  induction extra generalizing target with
  | nil => rfl
  | cons m extra ih =>
      rw [List.map_cons, List.mem_cons, not_or] at hkey
      show (Json.obj (Scheduler.merge _ extra)).get? key = _
      rw [ih hkey.2]
      show Option.map _ (List.find? _ (List.reverse _)) = Option.map _ (List.find? _ (List.reverse _))
      beta_reduce
      split
      · rw [← List.map_reverse, find?_replace hkey.1]
      · rw [List.reverse_append, List.reverse_singleton, List.singleton_append, List.find?_cons_of_neg]
        simpa using Ne.symm hkey.1

end Payload

namespace EventLog

/-! ## What the log says about the run -/

/-- What an event with a `next` says: the state before, and the state after. -/
def link (event : DomainEvent) : Option (Json × Json) :=
  (event.payload.get? "next").map fun next => ((event.payload.get? "previous").getD .null, next)

/-- The links lead from one state to another, each starts where the one before it ended, and each is a
move of the state machine. -/
inductive Chain : RunState → List (Json × Json) → RunState → Prop
  | nil (s : RunState) : Chain s [] s
  | snoc {s t u : RunState} {links : List (Json × Json)} (before : Chain s links t)
      (legal : t.canTransition u = true) : Chain s (links ++ [(.str t.name, .str u.name)]) u

/-- The links of the events of a run. -/
def links (id : RunId) (db : Database) : List (Json × Json) := (db.eventsOf id).filterMap link

/-- The stored run is in state `rs`, and the log leads there. -/
structure Logged (created : Run) (rs : RunState) (db : Database) : Prop where
  run : db.findRun created.id = some { created with state := rs }.persisted
  chain : Chain .created (links created.id db) rs

/-- The event does not overwrite an event of the log, and is one of run `id`. -/
structure New (id : RunId) (event : DomainEvent) (db : Database) : Prop where
  run : event.runId = some id
  fresh : (db.events.any fun e => e.id = event.id) = false

@[simp] theorem apply_events (write : Write) (db : Database) : (db.apply write).events = db.events := by
  cases write <;> rfl

@[simp] theorem link_persistedEvent (event : DomainEvent) :
    link (Database.persistedEvent event) = link event := rfl

section New

variable {id : RunId} {event : DomainEvent} {db : Database} (hnew : New id event db) (write : Write)
include hnew

theorem New.eventsOf :
    ((db.apply write).insertEvent event).eventsOf id =
      db.eventsOf id ++ [Database.persistedEvent event] := by
  have hfresh := hnew.fresh
  have hrun : (Database.persistedEvent event).runId = some id := hnew.run
  rw [Database.insertEvent, apply_events, hfresh]
  show List.filter _ (db.events ++ [_]) = _
  rw [List.filter_append, List.filter_cons_of_pos (by simpa using hrun), List.filter_nil]
  rfl

theorem New.links :
    links id ((db.apply write).insertEvent event) = links id db ++ (link event).toList := by
  rw [EventLog.links, hnew.eventsOf, List.filterMap_append]
  cases hlink : link event <;> simp [EventLog.links, List.filterMap, hlink]

end New

variable {created : Run} {rs rs' : RunState} {db : Database}

/-- The run has moved, and its event says so. -/
theorem Logged.moved (h : Logged created rs db) {run : Run} {event : DomainEvent}
    (hnew : New created.id event db) (hrun : run.persisted = { created with state := rs' }.persisted)
    (hlink : link event = some (.str rs.name, .str rs'.name)) (hlegal : rs.canTransition rs' = true) :
    Logged created rs' ((db.apply (.run run)).insertEvent event) := by
  constructor
  · rw [Database.findRun, Database.insertEvent_runs]
    show Table.lookup Run.id created.id (Table.upsert Run.id run.persisted db.runs) = _
    rw [hrun, Table.lookup_upsert]
    exact if_pos rfl
  · rw [hnew.links, hlink]
    exact .snoc h.chain hlegal

/-- A task has moved; its event says nothing about the run. -/
theorem Logged.taskMoved (h : Logged created rs db) {task : RunTask} {event : DomainEvent}
    (hnew : New created.id event db) (hlink : link event = none) :
    Logged created rs ((db.apply (.task task)).insertEvent event) := by
  constructor
  · rw [Database.findRun, Database.insertEvent_runs]
    exact h.run
  · rw [hnew.links, hlink]
    show Chain .created (EventLog.links created.id db ++ []) rs
    rw [List.append_nil]
    exact h.chain

/-- Saving a task is nothing the log tells. -/
theorem Logged.taskSaved (h : Logged created rs db) (task : RunTask) :
    Logged created rs (db.apply (.task task)) := ⟨h.run, h.chain⟩

/-! ## The contract of the engine -/

open Execution

/-- A generated event id is not the id of an event of the log. -/
def freshEvents : Party → (o : Op) → World → Ret o → Bool
  | _, .newEventId, w, r => !w.db.events.any fun e => e.id = r
  | _, _, _, _ => true

/-- The execution of `Execution.system`, with event ids that are new. -/
def system (projectId : String) (created : Run) (plan : Plan) :
    System Party Op Ret Exn RunEngine.Point Run World :=
  (Execution.system projectId created plan).restrict freshEvents

/-- Whether a call has committed a transition of the run or of a task. -/
def commits : (o : Op) → Ret o → Bool
  | .executeInTransaction (.run _) _ _, .ok _ => true
  | .executeInTransaction (.task _) _ _, .ok _ => true
  | _, _ => false

/-- Whether a step was such a call of the engine. -/
def committed : Label Party Op Ret RunEngine.Point → Bool
  | .call .engine o r => commits o r
  | _ => false

section Contract

variable (created : Run)

def exec : Party → (o : Op) → World → Ret o → Option World := fun i o w r =>
  if freshEvents i o w r then Execution.exec created.id i o w r else none

/-- Nobody but the engine writes. -/
def rely : Party → World → World → Prop
  | .engine, w, w' => w'.db = w.db
  | .canceller, _, _ => True

/-- The engine leaves a database whose log leads to the state of the run, and the log is longer by
one event if it has committed a transition. -/
def guar : Party → (o : Op) → World → Ret o → World → Prop
  | .engine, o, w, r, w' =>
      (∃ rs, Logged created rs w'.db) ∧
        (w'.db.eventsOf created.id).length =
          (w.db.eventsOf created.id).length + (commits o r).toNat
  | .canceller, _, w, _, w' => w'.db = w.db

abbrev contract : Contract Op Ret World := ⟨exec created .engine, rely .engine, guar created .engine⟩

end Contract

section Calls

variable {projectId : String} {w : World} {α : Type} {A B : Database → Prop}
  {Q : α → World → Prop} {F : Exn → World → Prop}

variable (created) in
/-- In every database of the assertion the log leads to the state of the run. -/
def Known (A : Database → Prop) : Prop := ∀ db, A db → ∃ rs, Logged created rs db

theorem Logged.known : Known created (Logged created rs) := fun _ h => ⟨rs, h⟩

theorem wp_op {o : Op} {k : Ret o → Program α} (hw : A w.db)
    (hstep : ∀ w r w', A w.db → exec created .engine o w r = some w' →
      guar created .engine o w r w' ∧ wp (contract created) (k r) Q F w') :
    wp (contract created) (.call o k) Q F w :=
  wp_call (fun w => A w.db) hw (fun w w' hrely hw => by rw [show w'.db = w.db from hrely]; exact hw) hstep

/-- An answer of the execution, and if it is an event id a new one. -/
theorem exec_cases {i : Party} {o : Op} {r : Ret o} {w w' : World}
    (h : exec created i o w r = some w') :
    freshEvents i o w r = true ∧ Execution.exec created.id i o w r = some w' := by
  unfold exec at h
  split at h
  · next hfresh => exact ⟨hfresh, h⟩
  · cases h

/-- The rule for a call that does not write. -/
theorem wp_quiet {o : Op} {k : Ret o → Program α} (hA : Known created A) (hw : A w.db)
    (hquiet : ∀ w r w', Execution.exec created.id .engine o w r = some w' → w'.db = w.db)
    (hcommits : ∀ r, commits o r = false)
    (hstep : ∀ w r w', A w.db → w'.db = w.db → exec created .engine o w r = some w' →
      wp (contract created) (k r) Q F w') :
    wp (contract created) (.call o k) Q F w := by
  refine wp_op hw fun w r w' hw hexec => ?_
  have hdb := hquiet w r w' (exec_cases hexec).2
  refine ⟨⟨?_, ?_⟩, hstep w r w' hw hdb hexec⟩
  · rw [hdb]
    exact hA _ hw
  · rw [hdb, hcommits]
    rfl

/-- A call whose answer is recorded nowhere. -/
theorem exec_same {o : Op} (hsame : ∀ w r, Execution.exec created.id .engine o w r = some w)
    (w : World) (r : Ret o) (w' : World)
    (h : Execution.exec created.id .engine o w r = some w') : w'.db = w.db := by
  rw [hsame] at h
  cases h
  rfl

theorem wp_publish {event : DomainEvent} (hA : Known created A) (hw : A w.db) :
    wp (contract created) (EventStore.publishAsync event) (fun _ w => A w.db) F w := by
  simp only [EventStore.publishAsync, Prog.bind_eq, Prog.op_bind]
  refine wp_quiet hA hw (exec_same fun _ _ => rfl) (fun _ => rfl) fun w listeners w' hw hdb _ => ?_
  refine wp_mono (wp_forEach (fun _ w => A w.db) (hdb ▸ hw) ?_) (fun _ _ h => h) fun _ _ h => h
  intro _ listener _ w _ hw
  exact wp_quiet hA hw (exec_same fun _ _ => rfl) (fun _ => rfl) fun _ _ _ hw hdb _ => by
    rw [wp_ret, hdb]
    exact hw

/-- An event of the run, with a new id. -/
theorem wp_event {runId : RunId} {type : EventType} {payload : List (String × Json)}
    (hrun : runId = created.id) (hA : Known created A) (hw : A w.db) :
    wp (contract created) (Scheduler.event projectId runId type payload)
      (fun event w => (A w.db ∧ New created.id event w.db) ∧ event.payload = .obj payload) F w := by
  subst hrun
  simp only [Scheduler.event, Prog.bind_eq, Prog.op_bind]
  refine wp_quiet hA hw (exec_same fun _ _ => rfl) (fun _ => rfl) fun w id w' hw hdb hexec => ?_
  have hfresh : (!w.db.events.any fun e => e.id = id) = true := (exec_cases hexec).1
  rw [Bool.not_eq_true'] at hfresh
  refine wp_quiet (A := fun db => A db ∧ (db.events.any fun e => e.id = id) = false)
    (fun db h => hA db h.1) (hdb ▸ ⟨hw, hfresh⟩) (exec_same fun _ _ => rfl) (fun _ => rfl)
    fun w _ w' hw hdb _ => ?_
  refine ⟨?_, rfl⟩
  rw [hdb]
  exact ⟨hw.1, rfl, hw.2⟩

/-- A statement that throws writes nothing. -/
theorem guar_escape {o : Op} {r : Ret o} (hA : Known created A) (hw : A w.db)
    (hcommits : commits o r = false) : guar created .engine o w r (w.escape created.id) := by
  have hescape : (w.escape created.id).db = w.db := cancel_db created.id w
  constructor
  · rw [hescape]
    exact hA _ hw
  · rw [hescape, hcommits]
    rfl

/-- The rule for a transaction and its publication. -/
theorem wp_commit {write : Write} {event : DomainEvent} {ct : CancellationToken}
    (hA : Known created A) (hB : Known created B)
    (hcommits : commits (.executeInTransaction write event ct) (.ok ()) = true)
    (hw : A w.db ∧ New created.id event w.db)
    (hok : ∀ db, A db → New created.id event db → B ((db.apply write).insertEvent event)) :
    wp (contract created) (RunRepository.commitAsync write event ct) (fun _ w => B w.db)
      (fun _ _ => True) w := by
  simp only [RunRepository.commitAsync, Prog.bind_eq, Prog.op_bind]
  refine wp_op (A := fun db => A db ∧ New created.id event db) hw fun w r w' hboth hexec => ?_
  obtain ⟨hw, hnew⟩ := hboth
  rcases answered_cases (exec_cases hexec).2 with ⟨a, db, rfl, hdb, _, rfl⟩ | ⟨e, db, rfl, hdb, rfl⟩
  · obtain rfl := Option.some.inj hdb
    have hB' := hok w.db hw hnew
    refine ⟨⟨hB _ hB', ?_⟩, wp_publish hB hB'⟩
    rw [hcommits, hnew.eventsOf, List.length_append]
    rfl
  · refine ⟨guar_escape hA hw ?_, trivial⟩
    cases write <;> rfl

/-- Listing the tasks of the run gives tasks of the run. -/
theorem wp_listTasks {ct : CancellationToken} (hA : Known created A) (hw : A w.db) :
    wp (contract created) (RunRepository.listTasksAsync created.id ct)
      (fun tasks w => A w.db ∧ ∀ task ∈ tasks, task.runId = created.id) (fun _ _ => True) w := by
  simp only [RunRepository.listTasksAsync, Prog.bind_eq, Prog.op_bind]
  refine wp_op hw fun w r w' hw hexec => ?_
  rcases answered_cases (exec_cases hexec).2 with ⟨tasks, db, rfl, hdb, _, rfl⟩ | ⟨e, db, rfl, hdb, rfl⟩
  · have hdb : (if tasks.Perm (w.db.tasksOf created.id) then some w.db else none) = some db := hdb
    split at hdb
    · next hperm =>
        obtain rfl := Option.some.inj hdb
        refine ⟨⟨hA _ hw, rfl⟩, hw, fun task htask => ?_⟩
        have hmem := List.mem_filter.mp (hperm.mem_iff.mp htask)
        exact of_decide_eq_true hmem.2
    · cases hdb
  · exact ⟨guar_escape hA hw rfl, trivial⟩

/-- Finding the run gives its row. -/
theorem wp_findRun {ct : CancellationToken} (hw : Logged created rs w.db) :
    wp (contract created) (RunRepository.findAsync created.id ct)
      (fun run w => Logged created rs w.db ∧ run = some { created with state := rs }.persisted)
      (fun _ _ => True) w := by
  simp only [RunRepository.findAsync, Prog.bind_eq, Prog.op_bind]
  refine wp_op hw fun w r w' hw hexec => ?_
  rcases answered_cases (exec_cases hexec).2 with ⟨run, db, rfl, hdb, _, rfl⟩ | ⟨e, db, rfl, hdb, rfl⟩
  · have hdb : (if run = w.db.findRun created.id then some w.db else none) = some db := hdb
    split at hdb
    · next hrun =>
        obtain rfl := Option.some.inj hdb
        exact ⟨⟨⟨rs, hw⟩, rfl⟩, hw, hrun.trans hw.run⟩
    · cases hdb
  · exact ⟨guar_escape Logged.known hw rfl, trivial⟩

end Calls

/-! ## Transitions -/

section Transitions

variable {projectId : String} {w : World} {type : EventType} {extra : List (String × Json)}
  {ct : CancellationToken}

/-- Moving a task of the run. -/
theorem wp_moveTask {task : RunTask} {s : TaskState} (htask : task.runId = created.id)
    (hextra : "next" ∉ extra.map Prod.fst) (hw : Logged created rs w.db) :
    wp (contract created) (Scheduler.moveTask projectId task s type extra ct)
      (fun task' w => Logged created rs w.db ∧ task'.runId = created.id) (fun _ _ => True) w := by
  refine wp_seq (wp_event htask Logged.known hw) fun event w ⟨⟨hw, hnew⟩, hpayload⟩ => ?_
  show wp _ (RunRepository.transition taskKind task s event ct) _ _ w
  rw [RunRepository.transition]
  split
  · have hlink : link event = none := by
      rw [link, hpayload, get?_merge hextra]
      rfl
    refine wp_seq (wp_commit (A := Logged created rs) Logged.known Logged.known rfl ⟨hw, hnew⟩
      fun db hw hnew => hw.taskMoved hnew hlink) fun _ w hw => ⟨hw, htask⟩
  · trivial

/-- Moving the run, from the state it is stored in. -/
theorem wp_moveRun {run : Run} (hrun : run.persisted = { created with state := rs }.persisted)
    (hextra : "next" ∉ extra.map Prod.fst ∧ "previous" ∉ extra.map Prod.fst)
    (hw : Logged created rs w.db) :
    wp (contract created) (Scheduler.moveRun projectId run rs' type extra ct)
      (fun run' w => Logged created rs' w.db ∧
        run'.persisted = { created with state := rs' }.persisted) (fun _ _ => True) w := by
  have hid : run.id = created.id := by
    show run.persisted.id = created.id
    rw [hrun]
    rfl
  have hstate : run.state = rs := congrArg Run.state hrun
  have hupdated : ({ run with state := rs' } : Run).persisted =
      { created with state := rs' }.persisted := by
    show ({ run.persisted with state := rs' } : Run) = _
    rw [hrun]
    rfl
  refine wp_seq (wp_event hid Logged.known hw) fun event w ⟨⟨hw, hnew⟩, hpayload⟩ => ?_
  show wp _ (RunRepository.transition runKind run rs' event ct) _ _ w
  rw [RunRepository.transition]
  split
  · next hlegal =>
      have hlink : link event = some (.str rs.name, .str rs'.name) := by
        rw [link, hpayload, get?_merge hextra.1, get?_merge hextra.2, hstate]
        rfl
      have hlegal : rs.canTransition rs' = true := hstate ▸ hlegal
      refine wp_seq (wp_commit (A := Logged created rs) (B := Logged created rs') Logged.known
        Logged.known rfl ⟨hw, hnew⟩ fun db hw hnew => hw.moved hnew hupdated hlink hlegal)
        fun _ w hw => ⟨hw, hupdated⟩
  · trivial

end Transitions

/-! ## The engine's programs -/

theorem mem_of_readyTasks {tasks ready : List RunTask} {task : RunTask}
    (hready : Scheduler.readyTasks tasks = .ok ready) (htask : task ∈ ready) : task ∈ tasks := by
  unfold Scheduler.readyTasks at hready
  split at hready
  · cases hready
    exact (List.mem_filter.mp htask).1
  · cases hready

section Programs

variable {projectId : String} {plan : Plan} {w : World}

theorem ofExcept_safe {α : Type} {x : Except Exn α} {A : Database → Prop} (hw : A w.db) :
    wp (contract created) (Prog.ofExcept x) (fun _ w => A w.db) (fun _ _ => True) w := by
  cases x with
  | ok a => exact hw
  | error e => trivial

/-- **One task**: none of its moves concerns the run. -/
theorem wp_runOne {planned : RunTask} {ct : CancellationToken} (hplanned : planned.runId = created.id)
    (hw : Logged created rs w.db) :
    wp (contract created) (RunEngine.runOneAsync projectId planned ct)
      (fun _ w => Logged created rs w.db) (fun _ _ => True) w := by
  refine wp_seq (wp_moveTask hplanned List.not_mem_nil hw) fun task w ⟨hw, htask⟩ => ?_
  refine wp_seq (wp_moveTask htask List.not_mem_nil hw) fun task w ⟨hw, htask⟩ => ?_
  refine wp_quiet Logged.known hw (fun w r w' h => ?_) (fun _ => rfl) fun w answer w' hw hdb _ => ?_
  · obtain rfl : w.invoke task r = w' := Option.some.inj h
    rfl
  have hw' : Logged created rs w'.db := by
    rw [hdb]
    exact hw
  have hfinish : ∀ {s : TaskState} {type : EventType} {extra : List (String × Json)}
      {ct : CancellationToken}, "next" ∉ extra.map Prod.fst →
      wp (contract created)
        ((Scheduler.moveTask projectId task s type extra ct).bind fun _ => .ret ())
        (fun _ w => Logged created rs w.db) (fun _ _ => True) w' :=
    fun hextra => wp_seq (wp_moveTask htask hextra hw') fun _ _ hw => hw.1
  have hreason : ∀ reason : String, "next" ∉ [("reason", Json.str reason)].map Prod.fst := by simp
  cases answer with
  | ok outcome =>
      show wp _ (if outcome.isSuccess then _ else _) _ _ _
      split
      · exact hfinish List.not_mem_nil
      · exact hfinish (hreason _)
  | error e =>
      cases e <;> exact hfinish (hreason _)

/-- **Cancelling the run** moves the row it has read again. -/
theorem wp_cancelRun {run : Run} {reason : String} {ct : CancellationToken}
    (hid : run.id = created.id) (hw : Logged created rs w.db) :
    wp (contract created) (Scheduler.cancelRunAsync projectId run reason ct)
      (fun _ w => ∃ rs, Logged created rs w.db) (fun _ _ => True) w := by
  have hreason : "next" ∉ [("reason", Json.str reason)].map Prod.fst ∧
      "previous" ∉ [("reason", Json.str reason)].map Prod.fst := by simp
  simp only [Scheduler.cancelRunAsync, Prog.bind_eq]
  rw [hid]
  refine wp_seq (wp_listTasks Logged.known hw) fun tasks w hlisted => ?_
  obtain ⟨hw, hmine⟩ := hlisted
  refine wp_seq (wp_forEach (fun _ w => Logged created rs w.db) hw ?_) fun _ w hw => ?_
  · rintro done task rest w hall hw
    have htask : task.runId = created.id := hmine task (by rw [hall]; simp)
    split
    · exact wp_seq (wp_moveTask htask hreason.1 hw) fun _ _ hw => hw.1
    · exact hw
  · refine wp_seq (wp_findRun hw) fun current w hread => ?_
    obtain ⟨hw, rfl⟩ := hread
    simp only [Option.getD_some]
    split
    · exact wp_mono (wp_moveRun (Run.persisted_persisted _) hreason hw) (fun _ _ hw => ⟨_, hw.1⟩) fun _ _ h => h
    · exact ⟨rs, hw⟩

/-- **Evaluating the run** moves it from the state the engine last gave it. -/
theorem wp_evaluate {run : Run} {ct : CancellationToken}
    (hrun : run.persisted = { created with state := rs }.persisted) (hw : Logged created rs w.db) :
    wp (contract created) (Scheduler.evaluateCompletionAsync projectId run ct)
      (fun _ w => ∃ rs, Logged created rs w.db) (fun _ _ => True) w := by
  have hid : run.id = created.id := by
    show run.persisted.id = created.id
    rw [hrun]
    rfl
  have hmove : ∀ {target : RunState} {w : World} (b : Bool), Logged created rs w.db →
      wp (contract created)
        ((Scheduler.advanceAsync projectId run target ct).bind fun _ => .ret b)
        (fun _ w => ∃ rs, Logged created rs w.db) (fun _ _ => True) w :=
    fun _ hw => wp_seq (wp_moveRun hrun ⟨List.not_mem_nil, List.not_mem_nil⟩ hw)
      fun _ _ hw => ⟨_, hw.1⟩
  simp only [Scheduler.evaluateCompletionAsync, Prog.bind_eq]
  rw [hid]
  refine wp_seq (wp_listTasks Logged.known hw) fun tasks w hlisted => ?_
  have hw := hlisted.1
  repeat' split
  · exact ⟨rs, hw⟩
  · exact hmove false hw
  · exact hmove false hw
  · exact hmove true hw
  · exact ⟨rs, hw⟩

/-- Where the engine goes round: with the run it has moved, as it is stored. -/
def Rounds (created : Run) : RunEngine.Point → Database → Prop
  | .start, db => Logged created .created db
  | .pass run, db => ∃ rs, run.persisted = { created with state := rs }.persisted ∧ Logged created rs db

/-- Where a round ends. -/
def Exit (created : Run) : RunEngine.Point ⊕ Run → World → Prop
  | .inl point => fun w => Rounds created point w.db
  | .inr _ => fun _ => True

/-- **One round of the loop.** -/
theorem wp_pass {run : Run} {ct : CancellationToken}
    (hrun : run.persisted = { created with state := rs }.persisted) (hw : Logged created rs w.db) :
    wp (contract created) (RunEngine.pass projectId run ct) (Exit created) (fun _ _ => True) w := by
  have hid : run.id = created.id := by
    show run.persisted.id = created.id
    rw [hrun]
    rfl
  simp only [RunEngine.pass, Prog.bind_eq, Prog.op_bind]
  refine wp_quiet Logged.known hw (fun w r w' h => ?_) (fun _ => rfl) fun w r w' hw hdb _ => ?_
  · have h : (if r = w.cancelled then some w.look else none) = some w' := h
    split at h
    · obtain rfl := Option.some.inj h
      rw [World.look]
      split <;> rfl
    · cases h
  have hw' : Logged created rs w'.db := by
    rw [hdb]
    exact hw
  cases hr : r with
  | true =>
      exact wp_seq (wp_cancelRun hid hw') fun _ _ _ => trivial
  | false =>
      show wp _ (Prog.bind (RunRepository.listTasksAsync run.id ct) _) _ _ _
      rw [hid]
      refine wp_seq (wp_listTasks Logged.known hw') fun tasks w hlisted => ?_
      obtain ⟨hw, hmine⟩ := hlisted
      cases hready : Scheduler.readyTasks tasks with
      | error e => trivial
      | ok ready =>
          simp only [Prog.ofExcept_ok, Prog.ret_bind]
          split
          · refine wp_seq (wp_evaluate hrun hw) fun _ w hevaluated => ?_
            obtain ⟨_, hw⟩ := hevaluated
            rw [hid]
            exact wp_seq (wp_findRun hw) fun _ _ _ => trivial
          · refine wp_seq (wp_forEach (fun _ w => Logged created rs w.db) hw ?_)
              fun _ w hw => ⟨rs, hrun, hw⟩
            intro done planned rest w hall hw
            have hplanned : planned ∈ ready := by rw [hall]; simp
            exact wp_runOne (hmine planned (mem_of_readyTasks hready hplanned)) hw

theorem wp_rewrite {nodes : List PlanTask} {rewritten : List (TaskId × TaskId)}
    (hw : Logged created rs w.db) :
    wp (contract created) (RunEngine.rewrite nodes rewritten)
      (fun _ w => Logged created rs w.db) (fun _ _ => True) w := by
  induction nodes generalizing rewritten w with
  | nil => exact hw
  | cons node nodes ih =>
      simp only [RunEngine.rewrite, Prog.bind_eq, Prog.op_bind]
      refine wp_quiet Logged.known hw (fun w r w' h => ?_) (fun _ => rfl) fun w id w' hw hdb _ => ?_
      · have h : (if r ∈ w.used then none else some { w with used := r :: w.used }) = some w' := h
        split at h
        · cases h
        · obtain rfl := Option.some.inj h
          rfl
      split
      · trivial
      · refine ih ?_
        rw [hdb]
        exact hw

/-- **Before the loop.** -/
theorem wp_schedule {ct : CancellationToken} (hcreated : created.state = .created)
    (hw : Logged created .created w.db) :
    wp (contract created) (RunEngine.schedule projectId created plan ct) (Exit created)
      (fun _ _ => True) w := by
  have hrun : created.persisted = { created with state := .created }.persisted := by
    rw [← hcreated]
  have hnone : "next" ∉ ([] : List (String × Json)).map Prod.fst ∧
      "previous" ∉ ([] : List (String × Json)).map Prod.fst := by simp
  simp only [RunEngine.schedule, Prog.bind_eq]
  refine wp_seq (wp_moveRun hrun hnone hw) fun run w hplanned => ?_
  obtain ⟨hw, hrun⟩ := hplanned
  refine wp_seq (M := fun _ w => Logged created .planning w.db) ?_ fun tasks w hw => ?_
  · simp only [RunEngine.materialize, Prog.bind_eq, Prog.op_bind]
    refine wp_quiet Logged.known hw (exec_same fun _ _ => rfl) (fun _ => rfl) fun w _ w' hw hdb _ => ?_
    refine wp_seq (wp_rewrite (by rw [hdb]; exact hw)) fun _ w hw => ofExcept_safe hw
  · simp only [Scheduler.scheduleAsync, Prog.bind_eq, Prog.bind_assoc]
    refine wp_seq (wp_forEach (fun _ w => Logged created .planning w.db) hw ?_) fun _ w hw => ?_
    · intro done task rest w hall hw
      simp only [Prog.op_bind]
      refine wp_op hw fun w r w' hw hexec => ?_
      rcases answered_cases (exec_cases hexec).2 with ⟨_, db, rfl, hdb, _, rfl⟩ | ⟨e, db, rfl, hdb, rfl⟩
      · obtain rfl := Option.some.inj hdb
        exact ⟨⟨⟨_, hw.taskSaved task⟩, rfl⟩, hw.taskSaved task⟩
      · exact ⟨guar_escape Logged.known hw rfl, trivial⟩
    · refine wp_seq (wp_moveRun hrun (by simp) hw) fun run w hready => ?_
      obtain ⟨hw, hrun⟩ := hready
      exact wp_seq (wp_moveRun hrun hnone hw) fun run w hrunning => ⟨_, hrunning.2, hrunning.1⟩

end Programs

/-! ## Every execution -/

/-- The engine keeps to its contract, beside the canceller. -/
def outline (projectId : String) (created : Run) (plan : Plan) (hcreated : created.state = .created) :
    Outline (system projectId created plan) where
  rely := rely
  guar := guar created
  pre
    | .engine, point => fun w => Rounds created point w.db
    | .canceller, _ => fun _ => True
  post _ _ _ := True
  fail _ _ _ := True
  rely_refl i w := by cases i <;> trivial
  rely_trans i a b c := by
    cases i with
    | engine => exact fun hab hbc => Eq.trans hbc hab
    | canceller => exact fun _ _ => trivial
  guar_rely i j o w r w' hij h := by
    cases i with
    | engine =>
        cases j with
        | engine => exact absurd rfl hij
        | canceller => trivial
    | canceller =>
        cases j with
        | engine => exact h
        | canceller => trivial
  pre_stable i s w w' hrely h := by
    cases i with
    | engine =>
        show Rounds created s w'.db
        rw [show w'.db = w.db from hrely]
        exact h
    | canceller => trivial
  post_stable _ _ _ _ _ _ := trivial
  fail_stable _ _ _ _ _ _ := trivial
  body i s w hw := by
    cases i with
    | engine =>
        refine wp_mono (Q := Exit created) ?_ (fun x w h => ?_) fun _ _ h => h
        · cases s with
          | start => exact wp_schedule hcreated hw
          | pass run =>
              obtain ⟨rs, hrun, hw⟩ := hw
              exact wp_pass hrun hw
        · rcases x with point | run <;> exact h
    | canceller =>
        refine wp_call (fun _ => True) trivial (fun _ _ _ _ => trivial) fun w r w' _ hexec => ?_
        have hexec : exec created .canceller .cancel w r = some w' := hexec
        have hexec : some (w.cancel created.id) = some w' := (exec_cases hexec).2
        obtain rfl := Option.some.inj hexec
        exact ⟨cancel_db created.id w, trivial⟩

/-- An execution about to start. -/
def start (projectId : String) (created : Run) (plan : Plan) (db : Database) :
    Conf Party Op Ret Exn RunEngine.Point Run World :=
  (system projectId created plan).init (fun _ => .start) { db }

/-- **The log explains the run.** In every state of every execution of a run that was just created, the
events with a `next` lead from `Created` to the stored state of the run, each starting where the one
before it ended and each a move the state machine allows; and there is one event for every
transition of the run or of a task that was committed. -/
theorem log_explains (projectId : String) (created : Run) (plan : Plan) (db : Database)
    (hdb : Started created db) (hempty : db.eventsOf created.id = [])
    (ls : List (Label Party Op Ret RunEngine.Point)) (c : Conf Party Op Ret Exn RunEngine.Point Run World)
    (h : (system projectId created plan).Path (start projectId created plan db) ls c) :
    (∃ run, c.world.db.findRun created.id = some run ∧
        Chain .created ((c.world.db.eventsOf created.id).filterMap link) run.state) ∧
      (c.world.db.eventsOf created.id).length = (ls.filter committed).length := by
  have hlogged : Logged created .created db := by
    refine ⟨?_, ?_⟩
    · rw [hdb.run, ← hdb.state]
    · rw [links, hempty]
      exact .nil _
  have hholds : (outline projectId created plan hdb.state).Holds (start projectId created plan db) := by
    refine Outline.holds_init _ fun i => ?_
    cases i with
    | engine => exact hlogged
    | canceller => trivial
  have hinv := Outline.world_path (P := fun ls w => (∃ rs, Logged created rs w.db) ∧
    (w.db.eventsOf created.id).length = (ls.filter committed).length) _ ?_ ?_ hholds ?_ h
  · obtain ⟨⟨rs, hlogged⟩, hlength⟩ := hinv
    exact ⟨⟨_, hlogged.run, hlogged.chain⟩, hlength⟩
  · intro ls i o w r w' hguar ⟨hlogged, hlength⟩
    rw [List.filter_append, List.length_append]
    cases i with
    | engine =>
        refine ⟨hguar.1, ?_⟩
        rw [hguar.2, hlength]
        congr 1
        cases hcommits : commits o r <;> simp [committed, hcommits]
    | canceller =>
        have hsame : w'.db = w.db := hguar
        rw [hsame]
        exact ⟨hlogged, hlength⟩
  · intro ls i s w ⟨hlogged, hlength⟩
    rw [List.filter_append]
    exact ⟨hlogged, by simpa [committed] using hlength⟩
  · refine ⟨⟨_, hlogged⟩, ?_⟩
    show (db.eventsOf created.id).length = 0
    rw [hempty]
    rfl

/-! ### An execution of two tasks -/

/-- As `Execution.answer`, with a new event id every time, and with statements that only a cancelled
token of their own calls off. -/
def answer : (o : Op) → World → Ret o
  | .newEventId, w => String.ofList (List.replicate w.db.events.length '+')
  | .executeInTransaction _ _ .none, _ => .ok ()
  | o, w => Execution.answer o w

/-- What a schedule leads to. -/
abbrev after (schedule : List (Party × ((o : Op) → World → Ret o))) :
    Conf Party Op Ret Exn RunEngine.Point Run World :=
  (system "atlas" newRun chainPlan).play schedule (start "atlas" newRun chainPlan newDb)

def cancelledBetweenTasks : List (Party × ((o : Op) → World → Ret o)) :=
  List.replicate 34 (.engine, answer) ++ [(.canceller, answer)] ++ List.replicate 20 (.engine, answer)

/-- Called off between its two tasks: four moves of the run, four of the tasks. -/
theorem log_explains_cancelled :
    links newRun.id (after cancelledBetweenTasks).world.db =
        [(.str "Created", .str "Planning"), (.str "Planning", .str "Ready"),
          (.str "Ready", .str "Running"), (.str "Running", .str "Cancelled")] ∧
      ∃ ls, (system "atlas" newRun chainPlan).Path (start "atlas" newRun chainPlan newDb) ls
          (after cancelledBetweenTasks) ∧
        (∃ run, (after cancelledBetweenTasks).world.db.findRun newRun.id = some run ∧
          Chain .created (links newRun.id (after cancelledBetweenTasks).world.db) run.state) ∧
        (ls.filter committed).length = 8 := by
  obtain ⟨ls, hpath⟩ := System.Steps.path _ (System.play_steps (system "atlas" newRun chainPlan)
    cancelledBetweenTasks (start "atlas" newRun chainPlan newDb))
  have hlog := log_explains "atlas" newRun chainPlan newDb newDb_started rfl ls _ hpath
  refine ⟨by decide +kernel, ls, hpath, hlog.1, ?_⟩
  rw [← hlog.2]
  decide +kernel

end EventLog

end AtlasFlow
