import Mathlib.Data.List.DropRight
import AtlasFlow.Domain.Exceptions
import AtlasFlow.Graph.Search

/-!
# Checking a plan's task graph

`TaskGraph`: every reason the graph is unusable, and the pairs of concurrent tasks whose write
scopes overlap. `ToDictionary` throws on a repeated id, so `validate` answers only for plans whose
ids are distinct; for those, an empty answer means that every dependency is a task of the plan and
that the dependency relation is well founded (`Valid.acc`).
-/

namespace AtlasFlow

namespace TaskGraph

/-! ## Validation -/

/-- The task under an id; with distinct ids, the dictionary `ToDictionary` builds. -/
def findTask (tasks : List PlanTask) (id : TaskId) : Option PlanTask :=
  tasks.find? fun task => task.id = id

/-- `edges.GetValueOrDefault(node, [])`. -/
def edges (tasks : List PlanTask) (id : TaskId) : List TaskId :=
  match findTask tasks id with
  | some task => task.dependencies
  | none => []

/-- The marks before the search: every task is unvisited. -/
def unvisited (tasks : List PlanTask) : Graph.Marks TaskId := fun id =>
  if id ∈ tasks.map PlanTask.id then some .unvisited else none

/-- `FindCycle`. The recursion goes no deeper than there are tasks to mark. -/
def findCycle (tasks : List PlanTask) : Option TaskId :=
  Graph.findFrom (edges tasks) tasks.length (tasks.map PlanTask.id) (unvisited tasks)

def unknownTask (task : PlanTask) (dependency : TaskId) : String :=
  s!"Task '{task.id.value}' depends on unknown task '{dependency.value}'"

/-- The dependencies no task of the plan answers to, as errors. -/
def unknownDependencies (tasks : List PlanTask) : List String :=
  tasks.flatMap fun task =>
    (task.dependencies.filter fun d => d ∉ tasks.map PlanTask.id).map (unknownTask task)

/-- `Validate`. -/
def validate (tasks : List PlanTask) : Except Exn (List String) :=
  if (tasks.map PlanTask.id).Nodup then
    match findCycle tasks with
    | some cycle =>
      .ok (unknownDependencies tasks ++ [s!"Cycle detected involving task '{cycle.value}'"])
    | none => .ok (unknownDependencies tasks)
  else .error (.argument "An item with the same key has already been added.")

/-- The plan's graph was accepted. -/
def Valid (tasks : List PlanTask) : Prop := validate tasks = .ok []

instance (tasks : List PlanTask) : Decidable (Valid tasks) :=
  match h : validate tasks with
  | .ok [] => .isTrue h
  | .ok (e :: es) => .isFalse fun hv => by rw [Valid, h] at hv; cases hv
  | .error e => .isFalse fun hv => by rw [Valid, h] at hv; cases hv

theorem Valid.nodup {tasks : List PlanTask} (h : Valid tasks) :
    (tasks.map PlanTask.id).Nodup := by
  unfold Valid validate at h
  split at h
  · assumption
  · cases h

theorem Valid.findCycle_eq_none {tasks : List PlanTask} (h : Valid tasks) :
    findCycle tasks = none := by
  unfold Valid validate at h
  rw [if_pos (Valid.nodup h)] at h
  split at h
  · simp at h
  · assumption

theorem Valid.known {tasks : List PlanTask} (h : Valid tasks) {task : PlanTask} {d : TaskId}
    (htask : task ∈ tasks) (hd : d ∈ task.dependencies) : d ∈ tasks.map PlanTask.id := by
  have herrors : unknownDependencies tasks = [] := by
    unfold Valid validate at h
    rw [if_pos (Valid.nodup h)] at h
    split at h
    · simp at h
    · exact Except.ok.inj h
  by_contra hunknown
  have hmem : unknownTask task d ∈ unknownDependencies tasks := by
    refine List.mem_flatMap.mpr ⟨task, htask, List.mem_map.mpr ⟨d, ?_, rfl⟩⟩
    exact List.mem_filter.mpr ⟨hd, by simpa using hunknown⟩
  rw [herrors] at hmem
  exact List.not_mem_nil hmem

theorem findTask_of_mem {tasks : List PlanTask} (h : (tasks.map PlanTask.id).Nodup)
    {task : PlanTask} (htask : task ∈ tasks) : findTask tasks task.id = some task := by
  induction tasks with
  | nil => cases htask
  | cons t ts ih =>
      have hnodup := List.nodup_cons.mp (show (t.id :: ts.map PlanTask.id).Nodup from h)
      rcases List.mem_cons.mp htask with rfl | hmem
      · simp [findTask]
      · have hne : t.id ≠ task.id := fun heq =>
          hnodup.1 (heq ▸ List.mem_map_of_mem (f := PlanTask.id) hmem)
        rw [findTask, List.find?_cons_of_neg (by simpa using hne)]
        exact ih hnodup.2 hmem

theorem edges_of_mem {tasks : List PlanTask} (h : (tasks.map PlanTask.id).Nodup)
    {task : PlanTask} (htask : task ∈ tasks) : edges tasks task.id = task.dependencies := by
  rw [edges, findTask_of_mem h htask]

/-- The dependencies of a known task are known. -/
theorem Valid.closed {tasks : List PlanTask} (h : Valid tasks) {id : TaskId} :
    id ∈ tasks.map PlanTask.id → ∀ d ∈ edges tasks id, d ∈ tasks.map PlanTask.id := by
  intro hid d hd
  obtain ⟨task, htask, rfl⟩ := List.mem_map.mp hid
  rw [edges_of_mem h.nodup htask] at hd
  exact h.known htask hd

/-- **An accepted graph has no cycle**: its dependency relation is well founded. -/
theorem Valid.acc {tasks : List PlanTask} (h : Valid tasks) {id : TaskId}
    (hid : id ∈ tasks.map PlanTask.id) : Acc (fun d n => d ∈ edges tasks n) id := by
  have hbelow := Graph.findFrom_sound (.fresh fun _ => rfl) (Graph.fresh_ne_inProgress fun _ => rfl)
    (fun n hn => hn) h.findCycle_eq_none id hid
  exact Graph.acc_of_closed (fun n hn => h.closed hn) hid hbelow

/-! ## Write scopes -/

/-- Two tasks that may run at once would write the same place. -/
structure WriteScopeConflict where
  first : TaskId
  second : TaskId
  sharedPath : String
  deriving DecidableEq, Repr

/-- `Trim('/')`. -/
def trim (path : List Char) : List Char :=
  (path.dropWhile (· = '/')).rdropWhile (· = '/')

/-- `path.Trim('/').Split('/')`. -/
def components (path : String) : List (List Char) := (trim path.toList).splitOn '/'

/-- The leading components two lists share. -/
def common : List (List Char) → List (List Char) → List (List Char)
  | l :: left, r :: right => if l = r then l :: common left right else []
  | _, _ => []

/-- The longest directory prefix two paths share. -/
def sharedPrefix (a b : String) : String :=
  String.ofList (['/'].intercalate (common (components a) (components b)))

def firstOverlap (first second : PlanTask) : Option String :=
  first.writeScope.findSome? fun a =>
    second.writeScope.findSome? fun b =>
      let shared := sharedPrefix a.value b.value
      if shared.length > 0 then some shared else none

/-- What one pair of tasks adds to the list of conflicts. -/
def conflict (first second : PlanTask) : Option WriteScopeConflict :=
  if first.dependencies.contains second.id || second.dependencies.contains first.id then none
  else (firstOverlap first second).map fun shared => ⟨first.id, second.id, shared⟩

/-- `FindWriteScopeConflicts`: each pair of tasks once, in list order. -/
def findWriteScopeConflicts : List PlanTask → List WriteScopeConflict
  | [] => []
  | first :: rest => rest.filterMap (conflict first) ++ findWriteScopeConflicts rest

end TaskGraph

end AtlasFlow
