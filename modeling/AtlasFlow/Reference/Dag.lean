import AtlasFlow.Data.Dict
import AtlasFlow.Graph.Search
import AtlasFlow.Reference.Models

/-!
# Plans, and the tasks made of them

`planner/dag.py` and `_materialize`. A plan may repeat an id: every dictionary over the plan's nodes
then keeps the last node of that id, so the tasks of a run are those of `byId`.
-/

namespace AtlasFlow.Reference

structure TaskNode where
  id : String
  objective : String
  dependencies : List String := []
  writeScope : List String := []
  gates : List String := []
  risk : RiskLevel := .medium
  capabilities : List String := []
  deriving DecidableEq, Repr

structure Plan where
  goalId : String
  tasks : List TaskNode
  deriving DecidableEq, Repr

namespace Plan

variable (plan : Plan)

/-- `{t.id: t for t in plan.tasks}`. -/
def byId : Dict String TaskNode := Dict.ofItems (plan.tasks.map fun t => (t.id, t))

/-- `adj.get(u, [])`. -/
def adj (u : String) : List String :=
  match plan.byId.get? u with
  | some t => t.dependencies
  | none => []

/-- `color` before the search. -/
def color : Graph.Marks String := fun u => if u ∈ plan.byId.keys then some .unvisited else none

def unknownTask (t : TaskNode) (dep : String) : String :=
  s!"Task '{t.id}' depends on unknown task '{dep}'"

/-- `validate_dag`. The search starts from the elements of a set; their order only decides which task
the last message names. -/
def validateDag : List String :=
  let taskIds := plan.byId.keys
  let unknown := plan.tasks.flatMap fun t =>
    (t.dependencies.filter fun dep => dep ∉ taskIds).map (unknownTask t)
  match Graph.findFrom plan.adj taskIds.length taskIds plan.color with
  | some taskId => unknown ++ [s!"Cycle detected involving task '{taskId}'"]
  | none => unknown

/-- The plan was accepted. -/
def Valid : Prop := plan.validateDag = []

instance : Decidable plan.Valid := inferInstanceAs (Decidable (_ = _))

variable {plan}

theorem mem_keys_byId {id : String} : id ∈ plan.byId.keys ↔ id ∈ plan.tasks.map TaskNode.id := by
  rw [byId, Dict.mem_keys_ofItems, List.map_map]
  rfl

/-- A node of the dictionary is a node of the plan, under its own id. -/
theorem of_byId {id : String} {node : TaskNode} (h : plan.byId.get? id = some node) :
    node ∈ plan.tasks ∧ node.id = id := by
  obtain ⟨n, hn, heq⟩ := List.mem_map.mp (Dict.mem_of_get?_ofItems h)
  cases heq
  exact ⟨hn, rfl⟩

theorem byId_of_mem (hnodup : (plan.tasks.map TaskNode.id).Nodup) {node : TaskNode}
    (h : node ∈ plan.tasks) : plan.byId.get? node.id = some node := by
  refine Dict.get?_ofItems ?_ (List.mem_map.mpr ⟨node, h, rfl⟩)
  rw [List.map_map]
  exact hnodup

theorem exists_byId {id : String} (h : id ∈ plan.byId.keys) :
    ∃ node, plan.byId.get? id = some node := by
  by_contra hnone
  have hget : plan.byId.get? id = none := by
    cases hget : plan.byId.get? id with
    | none => rfl
    | some node => exact absurd ⟨node, hget⟩ hnone
  exact Dict.get?_eq_none.mp hget h

theorem adj_of_byId {id : String} {node : TaskNode} (h : plan.byId.get? id = some node) :
    plan.adj id = node.dependencies := by
  rw [adj, h]

section Valid

variable (hvalid : plan.Valid)
include hvalid

theorem Valid.findFrom_eq_none :
    Graph.findFrom plan.adj plan.byId.keys.length plan.byId.keys plan.color = none := by
  have h := hvalid
  unfold Valid validateDag at h
  cases hfind : Graph.findFrom plan.adj plan.byId.keys.length plan.byId.keys plan.color with
  | none => rfl
  | some taskId => simp [hfind] at h

/-- Every dependency names a task of the plan. -/
theorem Valid.known {node : TaskNode} (hnode : node ∈ plan.tasks) {dep : String}
    (hdep : dep ∈ node.dependencies) : dep ∈ plan.byId.keys := by
  have h := hvalid
  unfold Valid validateDag at h
  simp only [hvalid.findFrom_eq_none] at h
  by_contra hunknown
  have hmessage := List.flatMap_eq_nil_iff.mp h node hnode
  rw [List.map_eq_nil_iff] at hmessage
  have hmem : dep ∈ node.dependencies.filter fun dep => dep ∉ plan.byId.keys :=
    List.mem_filter.mpr ⟨hdep, decide_eq_true hunknown⟩
  rw [hmessage] at hmem
  exact List.not_mem_nil hmem

theorem Valid.closed {id dep : String} (hdep : dep ∈ plan.adj id) : dep ∈ plan.byId.keys := by
  unfold adj at hdep
  split at hdep
  · next node hnode => exact hvalid.known (of_byId hnode).1 hdep
  · exact absurd hdep List.not_mem_nil

/-- **An accepted plan has no cycle**: its dependency relation is well founded. -/
theorem Valid.acc {id : String} (hid : id ∈ plan.byId.keys) :
    Acc (fun dep id => dep ∈ plan.adj id) id := by
  have hbelow := Graph.findFrom_sound (.fresh fun _ => rfl) (Graph.fresh_ne_inProgress fun _ => rfl)
    (fun n hn => hn) hvalid.findFrom_eq_none id hid
  exact Graph.acc_of_closed (fun n _ d hd => hvalid.closed hd) hid hbelow

end Valid

end Plan

/-! ## Materialising a plan -/

/-- What the constructors of a run and its tasks generate: ids, and the moments they are created at.
A task is overwritten in the dictionary when its node's id comes again, so one id for each node id
is all that is ever seen. -/
structure Generated where
  runId : RunId
  runCreatedAt : String
  taskId : String → TaskId
  taskCreatedAt : String → String

/-- `_role_for`. -/
def roleFor (node : TaskNode) : String := node.capabilities.headD "core-implementer"

namespace Generated

variable (gen : Generated)

/-- The task of a node before its dependencies are written. -/
def newTask (node : TaskNode) : Task where
  id := gen.taskId node.id
  runId := gen.runId
  objective := node.objective
  role := some (roleFor node)
  risk := SqlValues.text node.risk
  scope := node.writeScope
  createdAt := gen.taskCreatedAt node.id

/-- `tasks[id]`. -/
def item {ν : Type} (d : Dict String ν) (id : String) : Except PyExn ν :=
  match d.get? id with
  | some v => .ok v
  | none => .error (.keyError id)

/-- `tasks[node.id].dependencies = [tasks[dependency].id for dependency in node.dependencies]`. -/
def setDependencies (tasks : Dict String Task) (node : TaskNode) : Except PyExn (Dict String Task) := do
  let dependencies ← node.dependencies.mapM fun dependency => do
    return (← item tasks dependency).id
  let task ← item tasks node.id
  return tasks.set node.id { task with dependencies }

/-- `tasks[node.id].id: node`. -/
def taskItem (tasks : Dict String Task) (node : TaskNode) : Except PyExn (TaskId × TaskNode) := do
  return ((← item tasks node.id).id, node)

/-- `_materialize`. -/
def materialize (plan : Plan) : Except PyExn (List Task × Dict TaskId TaskNode) := do
  let tasks := Dict.ofItems (plan.tasks.map fun node => (node.id, gen.newTask node))
  let tasks ← plan.tasks.foldlM setDependencies tasks
  let items ← plan.tasks.mapM (taskItem tasks)
  return (tasks.values, Dict.ofItems items)

/-- The task of a node. -/
def task (node : TaskNode) : Task :=
  { gen.newTask node with dependencies := node.dependencies.map gen.taskId }

/-- Distinct nodes are given distinct task ids. -/
def Injective (plan : Plan) : Prop :=
  ∀ a ∈ plan.byId.keys, ∀ b ∈ plan.byId.keys, gen.taskId a = gen.taskId b → a = b

/-- What a run is made of: a task for every node of `byId`, and the way back. -/
structure Materialized (plan : Plan) (tasks : List Task) (nodes : Dict TaskId TaskNode) : Prop where
  mem : ∀ t, t ∈ tasks ↔ ∃ id node, plan.byId.get? id = some node ∧ t = gen.task node
  nodup : (tasks.map Task.id).Nodup
  nodes : ∀ id node, plan.byId.get? id = some node → nodes.get? (gen.taskId id) = some node

variable {gen} {plan : Plan}

/-- The dictionary while dependencies are being written, those of `done` so far. -/
structure Writing (gen : Generated) (plan : Plan) (done : List TaskNode) (tasks : Dict String Task) :
    Prop where
  nodup : tasks.keys.Nodup
  get : ∀ id, tasks.get? id = (plan.byId.get? id).map fun node =>
    { gen.newTask node with
      dependencies := match Dict.get? (Dict.ofItems (done.map fun n => (n.id, n))) id with
        | some n => n.dependencies.map gen.taskId
        | none => [] }

/-- Whatever has been written, a node's task has its id. -/
theorem Writing.item_eq {done : List TaskNode} {tasks : Dict String Task}
    (h : Writing gen plan done tasks) {id : String} (hid : id ∈ plan.byId.keys) :
    ∃ task, item tasks id = .ok task ∧ task.id = gen.taskId id := by
  obtain ⟨node, hnode⟩ := Plan.exists_byId hid
  have hget := h.get id
  rw [hnode] at hget
  refine ⟨_, by rw [item, hget]; rfl, ?_⟩
  show gen.taskId node.id = gen.taskId id
  rw [(Plan.of_byId hnode).2]

/-- Writing one node's dependencies. -/
theorem Writing.next (hvalid : plan.Valid) {done : List TaskNode} {tasks : Dict String Task}
    (h : Writing gen plan done tasks) {node : TaskNode} (hnode : node ∈ plan.tasks) :
    ∃ tasks', setDependencies tasks node = .ok tasks' ∧ Writing gen plan (done ++ [node]) tasks' := by
  have hid : node.id ∈ plan.byId.keys := Plan.mem_keys_byId.mpr (List.mem_map_of_mem hnode)
  have hdeps : (node.dependencies.mapM fun dependency => do
      return (← item tasks dependency).id : Except PyExn (List TaskId)) =
        .ok (node.dependencies.map gen.taskId) := by
    refine Attempts.mapM_ok fun dependency hdependency => ?_
    obtain ⟨task, htask, htaskId⟩ := h.item_eq (hvalid.known hnode hdependency)
    rw [htask, ← htaskId]
    rfl
  obtain ⟨last, hlast⟩ := Plan.exists_byId hid
  have hget := h.get node.id
  rw [hlast] at hget
  refine ⟨_, by rw [setDependencies, hdeps, item, hget]; rfl,
    Dict.keys_set_nodup h.nodup _ _, fun id => ?_⟩
  rw [Dict.get?_set, h.get, List.map_append, List.map_singleton, Dict.ofItems_append, Dict.get?_set]
  by_cases heq : node.id = id
  · subst heq
    simp [hlast]
  · rw [if_neg heq, if_neg heq]

theorem writing_all (gen : Generated) (hvalid : plan.Valid) {done : List TaskNode} (hdone : ∀ n ∈ done, n ∈ plan.tasks) :
    ∃ tasks, done.foldlM setDependencies
        (Dict.ofItems (plan.tasks.map fun node => (node.id, gen.newTask node))) = .ok tasks ∧
      Writing gen plan done tasks := by
  induction done using List.reverseRecOn with
  | nil =>
      refine ⟨_, rfl, Dict.keys_ofItems_nodup _, fun id => ?_⟩
      have h := Dict.get?_ofItems_map gen.newTask (plan.tasks.map fun t => (t.id, t)) id
      rw [List.map_map] at h
      exact h
  | append_singleton done node ih =>
      obtain ⟨tasks, hrun, hwriting⟩ := ih fun n hn => hdone n (List.mem_append_left _ hn)
      obtain ⟨tasks', hnext, hwriting'⟩ := hwriting.next hvalid
        (hdone node (List.mem_append_right _ (List.mem_singleton_self node)))
      refine ⟨tasks', ?_, hwriting'⟩
      rw [List.foldlM_append, hrun]
      show setDependencies tasks node >>= _ = _
      rw [hnext]
      rfl

/-- What `_materialize` returns for an accepted plan: the dictionary it has written, and a node for each
task id. -/
theorem materialize_eq (gen : Generated) (hvalid : plan.Valid) :
    ∃ tasks, Writing gen plan plan.tasks tasks ∧ gen.materialize plan =
      .ok (tasks.values, Dict.ofItems (plan.tasks.map fun node => (gen.taskId node.id, node))) := by
  obtain ⟨tasks, hrun, hwriting⟩ := writing_all gen hvalid fun _ h => h
  have hitems : plan.tasks.mapM (taskItem tasks) =
      .ok (plan.tasks.map fun node => (gen.taskId node.id, node)) := by
    refine Attempts.mapM_ok fun node hnode => ?_
    obtain ⟨task, htask, htaskId⟩ :=
      hwriting.item_eq (Plan.mem_keys_byId.mpr (List.mem_map_of_mem hnode))
    rw [taskItem, htask, ← htaskId]
    rfl
  refine ⟨tasks, hwriting, ?_⟩
  rw [materialize, hrun]
  show (plan.tasks.mapM (taskItem tasks) >>= fun items =>
    pure (tasks.values, Dict.ofItems items)) = _
  rw [hitems]
  rfl

/-- **An accepted plan is materialised**, one task for every node id. -/
theorem materialize_ok (hvalid : plan.Valid) (hinj : gen.Injective plan) :
    ∃ tasks nodes, gen.materialize plan = .ok (tasks, nodes) ∧ gen.Materialized plan tasks nodes := by
  obtain ⟨tasks, hwriting, hrun⟩ := materialize_eq gen hvalid
  have hget : ∀ id, tasks.get? id = (plan.byId.get? id).map gen.task := by
    intro id
    rw [hwriting.get]
    show _ = Option.map _ (Dict.get? plan.byId id)
    rw [← Plan.byId]
    cases plan.byId.get? id <;> rfl
  refine ⟨tasks.values, Dict.ofItems (plan.tasks.map fun node => (gen.taskId node.id, node)), hrun, ?_⟩
  have hvalue : ∀ entry ∈ tasks, ∃ node, plan.byId.get? entry.1 = some node ∧
      entry.2 = gen.task node := by
    intro entry hentry
    have hread := Dict.get?_of_mem hwriting.nodup hentry
    rw [hget, Option.map_eq_some_iff] at hread
    obtain ⟨node, hnode, heq⟩ := hread
    exact ⟨node, hnode, heq.symm⟩
  refine ⟨fun t => ⟨fun ht => ?_, ?_⟩, ?_, fun id node hnode => ?_⟩
  · obtain ⟨entry, hentry, rfl⟩ := List.mem_map.mp ht
    exact ⟨entry.1, hvalue entry hentry⟩
  · rintro ⟨id, node, hnode, rfl⟩
    have hread : tasks.get? id = some (gen.task node) := by rw [hget, hnode]; rfl
    exact List.mem_map.mpr ⟨_, Dict.mem_of_get? hread, rfl⟩
  · rw [Dict.values, List.map_map]
    refine List.Nodup.map_on (fun a ha b hb heq => ?_) hwriting.nodup.of_map
    obtain ⟨m, hm, ham⟩ := hvalue a ha
    obtain ⟨n, hn, hbn⟩ := hvalue b hb
    have hkey : a.1 = b.1 := by
      refine hinj a.1 ?_ b.1 ?_ ?_
      · exact Dict.mem_keys.mpr ⟨m, Dict.mem_of_get? hm⟩
      · exact Dict.mem_keys.mpr ⟨n, Dict.mem_of_get? hn⟩
      · have hids : a.2.id = b.2.id := heq
        rw [ham, hbn] at hids
        show gen.taskId a.1 = gen.taskId b.1
        rw [← (Plan.of_byId hm).2, ← (Plan.of_byId hn).2]
        exact hids
    rw [hkey, hn] at hm
    cases hm
    exact Prod.ext hkey (ham.trans hbn.symm)
  · have hrename := Dict.get?_ofItems_rename gen.taskId (plan.tasks.map fun t => (t.id, t)) id ?_
    · rw [List.map_map] at hrename
      exact hrename.trans hnode
    · intro item hitem heq
      obtain ⟨t, ht, rfl⟩ := List.mem_map.mp hitem
      exact hinj t.id (Plan.mem_keys_byId.mpr (List.mem_map_of_mem ht)) id
        (Dict.mem_keys.mpr ⟨node, Dict.mem_of_get? hnode⟩) heq

end Generated

end AtlasFlow.Reference
