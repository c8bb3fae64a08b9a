import AtlasFlow.Reference.Dag

/-!
# What a run keeps of its plan

`_materialize` makes a run's tasks from a plan's nodes through dictionaries over the node ids. A plan that
repeats an id passes `validate_dag`, and loses a node here: the correspondence between nodes and
tasks is one to one for exactly the accepted plans whose ids are distinct (`materialize_faithful_iff`).
-/

namespace AtlasFlow.Reference

namespace Generated

/-- What a task has of its node. -/
structure Preserves (node : TaskNode) (task : Task) : Prop where
  objective : task.objective = node.objective
  risk : task.risk = SqlValues.text node.risk
  scope : task.scope = node.writeScope
  role : task.role = some (roleFor node)

/-- The tasks correspond to the plan's nodes one to one, in the order `matched`; a task depends on
another exactly when their nodes do, and the dictionary of nodes is the way back. -/
structure Faithful (plan : Plan) (tasks : List Task) (nodes : Dict TaskId TaskNode)
    (matched : List Task) : Prop where
  perm : matched.Perm tasks
  ids : (tasks.map Task.id).Nodup
  preserved : List.Forall₂ Preserves plan.tasks matched
  dependencies : ∀ p ∈ plan.tasks.zip matched, ∀ q ∈ plan.tasks.zip matched,
    q.2.id ∈ p.2.dependencies ↔ q.1.id ∈ p.1.dependencies
  back : ∀ p ∈ plan.tasks.zip matched, nodes.get? p.2.id = some p.1
  only : ∀ id node, nodes.get? id = some node →
    ∃ p ∈ plan.tasks.zip matched, p.2.id = id ∧ p.1 = node

variable {gen : Generated} {plan : Plan}

theorem preserves_task (node : TaskNode) : Preserves node (gen.task node) := ⟨rfl, rfl, rfl, rfl⟩

/-- The pairs of the correspondence that `materialize` makes. -/
theorem mem_zip_map {p : TaskNode × Task}
    (h : p ∈ plan.tasks.zip (plan.tasks.map gen.task)) : p.1 ∈ plan.tasks ∧ p.2 = gen.task p.1 := by
  rw [List.zip_map_right, List.mem_map] at h
  obtain ⟨q, hq, rfl⟩ := h
  have hsame : q.1 = q.2 := by
    obtain ⟨i, hi, rfl⟩ := List.mem_iff_getElem.mp hq
    simp
  exact ⟨(List.of_mem_zip hq).1, by rw [Prod.map_fst, Prod.map_snd, id, hsame]⟩

theorem zip_map_mem {node : TaskNode} (h : node ∈ plan.tasks) :
    (node, gen.task node) ∈ plan.tasks.zip (plan.tasks.map gen.task) := by
  rw [List.zip_map_right, List.mem_map]
  refine ⟨(node, node), ?_, rfl⟩
  obtain ⟨i, hi, rfl⟩ := List.mem_iff_getElem.mp h
  exact List.mem_iff_getElem.mpr ⟨i, by simpa using hi, by simp⟩

theorem id_mem_keys {node : TaskNode} (h : node ∈ plan.tasks) : node.id ∈ plan.byId.keys :=
  Plan.mem_keys_byId.mpr (List.mem_map_of_mem h)

section Accepted

variable (hvalid : plan.Valid) (hinj : gen.Injective plan)
include hvalid hinj

/-- With distinct ids nothing is lost. -/
theorem faithful_of_nodup (hnodup : (plan.tasks.map TaskNode.id).Nodup) :
    ∃ tasks nodes, gen.materialize plan = .ok (tasks, nodes) ∧
      Faithful plan tasks nodes (plan.tasks.map gen.task) := by
  obtain ⟨tasks, nodes, hrun, hmaterialized⟩ := materialize_ok hvalid hinj
  obtain ⟨written, _, hrun'⟩ := materialize_eq gen hvalid
  rw [hrun, Except.ok.injEq, Prod.mk.injEq] at hrun'
  refine ⟨tasks, nodes, hrun, ?_, hmaterialized.nodup, ?_, ?_, ?_, ?_⟩
  case refine_1 =>
    have hids : ((plan.tasks.map gen.task).map Task.id).Nodup := by
      have hmap : (plan.tasks.map gen.task).map Task.id =
          (plan.tasks.map TaskNode.id).map gen.taskId := by
        rw [List.map_map, List.map_map]
        rfl
      rw [hmap]
      refine hnodup.map_on fun a ha b hb heq => ?_
      exact hinj a (Plan.mem_keys_byId.mpr ha) b (Plan.mem_keys_byId.mpr hb) heq
    refine (List.perm_ext_iff_of_nodup hids.of_map hmaterialized.nodup.of_map).mpr fun t => ?_
    rw [hmaterialized.mem, List.mem_map]
    constructor
    · rintro ⟨node, hnode, rfl⟩
      exact ⟨node.id, node, Plan.byId_of_mem hnodup hnode, rfl⟩
    · rintro ⟨id, node, hget, rfl⟩
      exact ⟨node, (Plan.of_byId hget).1, rfl⟩
  case refine_2 =>
    rw [List.forall₂_map_right_iff]
    exact List.forall₂_same.mpr fun node _ => preserves_task node
  case refine_3 =>
    intro p hp q hq
    obtain ⟨hp₁, hp₂⟩ := mem_zip_map hp
    obtain ⟨hq₁, hq₂⟩ := mem_zip_map hq
    rw [hp₂, hq₂]
    show gen.taskId q.1.id ∈ p.1.dependencies.map gen.taskId ↔ q.1.id ∈ p.1.dependencies
    constructor
    · intro hmem
      obtain ⟨d, hd, heq⟩ := List.mem_map.mp hmem
      rwa [hinj d (hvalid.known hp₁ hd) q.1.id (id_mem_keys hq₁) heq] at hd
    · exact fun hmem => List.mem_map_of_mem hmem
  case refine_4 =>
    intro p hp
    obtain ⟨hp₁, hp₂⟩ := mem_zip_map hp
    rw [hp₂]
    exact hmaterialized.nodes p.1.id p.1 (Plan.byId_of_mem hnodup hp₁)
  case refine_5 =>
    intro id node hget
    rw [hrun'.2] at hget
    obtain ⟨n, hn, heq⟩ := List.mem_map.mp (Dict.mem_of_get?_ofItems hget)
    cases heq
    exact ⟨_, zip_map_mem hn, rfl, rfl⟩

/-- A matched node is the one that the dictionary over the plan keeps for its id. -/
theorem byId_of_faithful {tasks : List Task} {nodes : Dict TaskId TaskNode} {matched : List Task}
    (hrun : gen.materialize plan = .ok (tasks, nodes)) (h : Faithful plan tasks nodes matched)
    {p : TaskNode × Task} (hp : p ∈ plan.tasks.zip matched) :
    plan.byId.get? p.1.id = some p.1 ∧ p.2 = gen.task p.1 := by
  obtain ⟨tasks', nodes', hrun', hmaterialized⟩ := materialize_ok hvalid hinj
  rw [hrun, Except.ok.injEq, Prod.mk.injEq] at hrun'
  obtain ⟨rfl, rfl⟩ := hrun'
  have hmem : p.2 ∈ tasks := h.perm.mem_iff.mp (List.of_mem_zip hp).2
  obtain ⟨id, node, hget, htask⟩ := (hmaterialized.mem p.2).mp hmem
  have hback := h.back p hp
  have hnode := hmaterialized.nodes id node hget
  obtain rfl := (Plan.of_byId hget).2
  rw [htask] at hback
  have heq : node = p.1 := Option.some.inj (hnode.symm.trans hback)
  rw [← heq]
  exact ⟨hget, htask⟩

/-- A correspondence tells the nodes apart by their ids. -/
theorem nodup_of_faithful {tasks : List Task} {nodes : Dict TaskId TaskNode} {matched : List Task}
    (hrun : gen.materialize plan = .ok (tasks, nodes)) (h : Faithful plan tasks nodes matched) :
    (plan.tasks.map TaskNode.id).Nodup := by
  have hids : (matched.map Task.id).Nodup := (h.perm.map Task.id).nodup_iff.mpr h.ids
  have hlength : plan.tasks.length = matched.length := h.preserved.length_eq
  have hpair : ∀ i (hi : i < plan.tasks.length), (plan.tasks[i], matched[i]) ∈ plan.tasks.zip matched :=
    fun i hi => List.mem_iff_getElem.mpr ⟨i, by simp; omega, by simp⟩
  refine List.pairwise_iff_getElem.mpr fun i j hi hj hij heq => ?_
  simp only [List.length_map] at hi hj
  simp only [List.getElem_map] at heq
  obtain ⟨hget, htask⟩ := byId_of_faithful hvalid hinj hrun h (hpair i hi)
  obtain ⟨hget', htask'⟩ := byId_of_faithful hvalid hinj hrun h (hpair j hj)
  -- one id, one node, one task: but the tasks have distinct ids
  have hnode : plan.tasks[i] = plan.tasks[j] := by
    simp only at hget hget'
    rw [heq, hget'] at hget
    exact (Option.some.inj hget).symm
  have hsame : matched[i] = matched[j] := by
    simp only at htask htask'
    rw [htask, htask', hnode]
  have hne := List.pairwise_iff_getElem.mp hids i j (by simp; omega) (by simp; omega) hij
  simp only [List.getElem_map] at hne
  exact hne (by rw [hsame])

/-- **Nothing is lost exactly when no id is repeated**: an accepted plan's tasks and nodes correspond
one to one if and only if the nodes have distinct ids. -/
theorem materialize_faithful_iff :
    (∃ tasks nodes matched, gen.materialize plan = .ok (tasks, nodes) ∧
        Faithful plan tasks nodes matched) ↔
      (plan.tasks.map TaskNode.id).Nodup := by
  constructor
  · rintro ⟨tasks, nodes, matched, hrun, h⟩
    exact nodup_of_faithful hvalid hinj hrun h
  · intro hnodup
    obtain ⟨tasks, nodes, hrun, h⟩ := faithful_of_nodup hvalid hinj hnodup
    exact ⟨tasks, nodes, _, hrun, h⟩

end Accepted

/-- Two nodes under one id. -/
def twinPlan : Plan where
  goalId := "g"
  tasks := [{ id := "a", objective := "one" }, { id := "a", objective := "two" }]

/-- Task ids after the node ids. -/
def plainIds : Generated where
  runId := ⟨"r"⟩
  runCreatedAt := ""
  taskId := TaskId.mk
  taskCreatedAt _ := ""

theorem plainIds_injective (plan : Plan) : plainIds.Injective plan :=
  fun _ _ _ _ h => TaskId.mk.inj h

theorem materialize_faithful_twin :
    (∃ tasks nodes matched, plainIds.materialize twinPlan = .ok (tasks, nodes) ∧
        Faithful twinPlan tasks nodes matched) ↔
      (twinPlan.tasks.map TaskNode.id).Nodup :=
  materialize_faithful_iff (by decide) (plainIds_injective _)

/-- The plan is accepted, and one of its nodes is lost. -/
theorem twinPlan_loses_a_node :
    twinPlan.Valid ∧ ¬ ∃ tasks nodes matched, plainIds.materialize twinPlan = .ok (tasks, nodes) ∧
      Faithful twinPlan tasks nodes matched := by
  have hvalid : twinPlan.Valid := by decide
  refine ⟨hvalid, fun ⟨_, _, _, hrun, h⟩ => ?_⟩
  exact absurd (nodup_of_faithful hvalid (plainIds_injective _) hrun h) (by decide)

end Generated

end AtlasFlow.Reference
