import AtlasFlow.Orchestration.RunEngine

/-!
# The rows of one run

The rows of a run are determined by the plan and by what `Materialize` chose: the id of each node's
task and the moment. `StoredRun` says which nodes have a row, in which state each of them is, and in
which state the run is; every write of the engine is a step from one such description to the next.
-/

namespace AtlasFlow

open Concurrency

/-- What `Materialize` chose: a task id for every node, and the moment. -/
structure Naming where
  id : TaskId → TaskId
  now : DateTimeOffset

namespace Naming

/-- Distinct nodes have distinct tasks. -/
def Injective (N : Naming) (nodes : List PlanTask) : Prop :=
  ∀ a ∈ nodes, ∀ b ∈ nodes, N.id a.id = N.id b.id → a = b

/-- The task of a node, in a state. -/
def task (N : Naming) (runId : RunId) (node : PlanTask) (state : TaskState) : RunTask where
  id := N.id node.id
  runId := runId
  objective := node.objective
  role := some (node.capabilities.headD "core-implementer")
  risk := node.risk
  writeScope := node.writeScope
  state := state
  dependencies := node.dependencies.map N.id
  createdAt := N.now

/-- The rows of the nodes' tasks, each in its state. -/
def rows (N : Naming) (runId : RunId) (nodes : List PlanTask) (st : TaskId → TaskState) :
    List RunTask :=
  nodes.map fun node => (N.task runId node (st node.id)).persisted

variable {N : Naming} {runId : RunId} {nodes : List PlanTask} {st : TaskId → TaskState}

theorem mem_rows {row : RunTask} :
    row ∈ N.rows runId nodes st ↔
      ∃ node ∈ nodes, (N.task runId node (st node.id)).persisted = row := List.mem_map

theorem ids_nodup (hinj : N.Injective nodes) (hnodup : (nodes.map PlanTask.id).Nodup) :
    ((N.rows runId nodes st).map RunTask.id).Nodup := by
  rw [rows, List.map_map]
  refine List.Nodup.map_on (fun a ha b hb h => hinj a ha b hb h) hnodup.of_map

/-- In a list of the rows, in any order, a node's task is found in its state. -/
theorem stateOf_rows {tasks : List RunTask} (hinj : N.Injective nodes)
    (hnodup : (nodes.map PlanTask.id).Nodup) (hperm : tasks.Perm (N.rows runId nodes st))
    {node : PlanTask} (hnode : node ∈ nodes) :
    Scheduler.stateOf tasks (N.id node.id) = some (st node.id) := by
  have hkeyed : Table.Keyed RunTask.id tasks :=
    (hperm.map RunTask.id).nodup_iff.mpr (ids_nodup hinj hnodup)
  have hmem : (N.task runId node (st node.id)).persisted ∈ tasks :=
    hperm.mem_iff.mpr (mem_rows.mpr ⟨node, hnode, rfl⟩)
  have hlookup := Table.lookup_of_mem hkeyed hmem
  have hid : (N.task runId node (st node.id)).persisted.id = N.id node.id := rfl
  rw [Scheduler.stateOf, ← hid, hlookup]
  rfl

end Naming

/-- The rows of run `created`: the run in state `rs`, and a task for each of `nodes` in the state `st`
gives its node. -/
structure StoredRun (created : Run) (N : Naming) (nodes : List PlanTask) (st : TaskId → TaskState)
    (rs : RunState) (db : Database) : Prop where
  run : db.findRun created.id = some { created with state := rs }.persisted
  tasks : (db.tasksOf created.id).Perm (N.rows created.id nodes st)

namespace StoredRun

variable {created : Run} {N : Naming} {nodes : List PlanTask} {st : TaskId → TaskState}
  {rs : RunState} {db : Database}

theorem insertEvent (h : StoredRun created N nodes st rs db) (event : DomainEvent) :
    StoredRun created N nodes st rs (db.insertEvent event) := by
  constructor
  · rw [Database.findRun, Database.insertEvent_runs]
    exact h.run
  · rw [Database.tasksOf, Database.insertEvent_tasks]
    exact h.tasks

/-- The run has moved. -/
theorem run_written (h : StoredRun created N nodes st rs db) {run : Run} {rs' : RunState}
    (hrun : run.persisted = { created with state := rs' }.persisted) :
    StoredRun created N nodes st rs' (db.apply (.run run)) := by
  refine ⟨?_, h.tasks⟩
  show Table.lookup Run.id created.id (Table.upsert Run.id run.persisted db.runs) = _
  rw [hrun, Table.lookup_upsert]
  exact if_pos rfl

/-- The tasks of the run after a task was written. -/
theorem tasksOf_written {task : RunTask} (hrun : task.runId = created.id) :
    (db.apply (.task task)).tasksOf created.id =
      (db.tasksOf created.id).filter (fun t => t.id ≠ task.id) ++ [task.persisted] := by
  show List.filter _ (Table.upsert RunTask.id task.persisted db.tasks) = _
  have hmine : task.persisted.runId = created.id := hrun
  rw [Table.upsert, List.filter_append, List.filter_cons_of_pos (by simpa using hmine),
    List.filter_nil, List.filter_comm]
  rfl

/-- One more node has its task. -/
theorem task_saved (h : StoredRun created N nodes st rs db) {node : PlanTask}
    (hnew : ∀ n ∈ nodes, N.id n.id ≠ N.id node.id) :
    StoredRun created N (nodes ++ [node]) st rs
      (db.apply (.task (N.task created.id node (st node.id)))) := by
  refine ⟨h.run, ?_⟩
  rw [tasksOf_written rfl, Naming.rows, List.map_append]
  refine List.Perm.append ?_ (List.Perm.refl _)
  rw [List.filter_eq_self.mpr]
  · exact h.tasks
  · intro t ht
    obtain ⟨n, hn, rfl⟩ := Naming.mem_rows.mp (h.tasks.mem_iff.mp ht)
    exact decide_eq_true (hnew n hn)

/-- One node's task has moved. -/
theorem task_written (h : StoredRun created N nodes st rs db) (hinj : N.Injective nodes)
    (hnodup : (nodes.map PlanTask.id).Nodup) {node : PlanTask} (hnode : node ∈ nodes)
    {task : RunTask} {s : TaskState}
    (htask : task.persisted = (N.task created.id node s).persisted) :
    StoredRun created N nodes (Function.update st node.id s) rs (db.apply (.task task)) := by
  refine ⟨h.run, ?_⟩
  have hrun : task.runId = created.id := congrArg RunTask.runId htask
  have hid : task.id = N.id node.id := congrArg RunTask.id htask
  rw [tasksOf_written hrun, htask, hid]
  obtain ⟨before, after, rfl⟩ := List.append_of_mem hnode
  have hne : ∀ n ∈ before ++ after, n.id ≠ node.id := by
    intro n hn heq
    rw [List.map_append, List.map_cons] at hnodup
    have hmiddle := List.nodup_middle.mp hnodup
    refine (List.nodup_cons.mp hmiddle).1 ?_
    rw [← List.map_append, ← heq]
    exact List.mem_map_of_mem hn
  have hkeep : ∀ l, (∀ n ∈ l, n ∈ before ++ after) →
      N.rows created.id l (Function.update st node.id s) = N.rows created.id l st := by
    intro l hl
    refine List.map_congr_left fun n hn => ?_
    rw [Function.update_of_ne (hne n (hl n hn))]
  have hothers : ((N.rows created.id (before ++ node :: after) st).filter
      fun t => t.id ≠ N.id node.id) = N.rows created.id (before ++ after) st := by
    have hkept : ∀ l, (∀ n ∈ l, n ∈ before ++ after) →
        ((N.rows created.id l st).filter fun t => t.id ≠ N.id node.id) =
          N.rows created.id l st := by
      intro l hl
      rw [List.filter_eq_self]
      intro t ht
      obtain ⟨n, hn, rfl⟩ := Naming.mem_rows.mp ht
      refine decide_eq_true fun heq => hne n (hl n hn) ?_
      have hmem : n ∈ before ++ node :: after :=
        List.perm_middle.mem_iff.mpr (List.mem_cons_of_mem node (hl n hn))
      rw [hinj n hmem node hnode heq]
    have hself : (N.task created.id node (st node.id)).persisted.id = N.id node.id := rfl
    rw [Naming.rows, List.map_append, List.map_cons, List.filter_append,
      List.filter_cons_of_neg (by simp [hself]), Naming.rows, List.map_append]
    exact congrArg₂ _ (hkept before fun n hn => List.mem_append_left _ hn)
      (hkept after fun n hn => List.mem_append_right _ hn)
  have hnew : N.rows created.id (before ++ node :: after) (Function.update st node.id s) =
      N.rows created.id before st ++
        (N.task created.id node s).persisted :: N.rows created.id after st := by
    rw [← hkeep before fun n hn => List.mem_append_left _ hn,
      ← hkeep after fun n hn => List.mem_append_right _ hn, Naming.rows, List.map_append,
      List.map_cons, Function.update_self]
    rfl
  have hfiltered := h.tasks.filter fun t => t.id ≠ N.id node.id
  rw [hothers, Naming.rows, List.map_append] at hfiltered
  rw [hnew]
  refine (hfiltered.append_right _).trans ?_
  rw [List.append_assoc]
  exact (List.perm_append_singleton _ _).append_left _

end StoredRun

end AtlasFlow
