import AtlasFlow.Orchestration.TaskOrder
import AtlasFlow.Reference.Dag

/-!
# The plan algorithms of `dag.py`, and their port

`detect_write_scope_conflicts` and `dependency_aware_order`, and that the three algorithms of `dag.py`
agree with those of `TaskGraph` on every list of tasks with distinct ids (`SamePlan.validateDag_iff`,
`SamePlan.conflicts_eq`, `SamePlan.order_rel`). The loops of the conflict scan break on what the list
of conflicts holds already; with distinct ids that is a conflict of the same pair, so one overlap is
reported for each pair, the first.
-/

namespace AtlasFlow.Reference

/-- `DAGError`. -/
structure DAGError where
  message : String
  deriving DecidableEq, Repr

namespace Plan

/-! ## Write scopes -/

/-- `_shared_prefix`. -/
def sharedPrefix (a b : String) : String :=
  let common := ((TaskGraph.components a).zip (TaskGraph.components b)).takeWhile fun (pa, pb) => pa = pb
  String.ofList (['/'].intercalate (common.map Prod.fst))

/-- `_are_concurrent`. -/
def areConcurrent (a b : TaskNode) : Bool := !b.dependencies.contains a.id && !a.dependencies.contains b.id

abbrev Conflict := String × String × String

/-- The loop over the other task's paths, for one path: the first that shares something. -/
def pathShared (b : TaskNode) (pathA : String) : Option String :=
  b.writeScope.findSome? fun pathB =>
    let shared := sharedPrefix pathA pathB
    if shared ≠ "" then some shared else none

/-- The loop over one task's paths; it breaks once the list holds a conflict of the pair. -/
def scanPaths (a b : TaskNode) : List String → List Conflict → List Conflict
  | [], conflicts => conflicts
  | pathA :: rest, conflicts =>
    let conflicts := match pathShared b pathA with
      | some shared => conflicts ++ [(a.id, b.id, shared)]
      | none => conflicts
    if conflicts.any fun c => c.1 = a.id && c.2.1 = b.id then conflicts
    else scanPaths a b rest conflicts

/-- One task against those after it. -/
def scanRest (a : TaskNode) (rest : List TaskNode) (conflicts : List Conflict) : List Conflict :=
  rest.foldl (fun conflicts b =>
    if areConcurrent a b then scanPaths a b a.writeScope conflicts else conflicts) conflicts

def scanFrom : List TaskNode → List Conflict → List Conflict
  | [], conflicts => conflicts
  | a :: rest, conflicts => scanFrom rest (scanRest a rest conflicts)

/-- `detect_write_scope_conflicts`. -/
def detectWriteScopeConflicts (plan : Plan) : List Conflict := scanFrom plan.tasks []

/-- What one pair adds when the list holds no conflict of it yet. -/
def pair (a b : TaskNode) : Option Conflict :=
  if areConcurrent a b then
    (a.writeScope.findSome? (pathShared b)).map fun shared => (a.id, b.id, shared)
  else none

/-- No conflict of this pair is in the list. -/
def Unseen (a b : TaskNode) (conflicts : List Conflict) : Prop :=
  ∀ c ∈ conflicts, ¬ (c.1 = a.id ∧ c.2.1 = b.id)

theorem Unseen.any {a b : TaskNode} {conflicts : List Conflict} (h : Unseen a b conflicts) :
    (conflicts.any fun c => c.1 = a.id && c.2.1 = b.id) = false := by
  rw [List.any_eq_false]
  intro c hc hseen
  rw [Bool.and_eq_true, decide_eq_true_eq, decide_eq_true_eq] at hseen
  exact h c hc hseen

/-- **One pair is reported once**, with its first overlap. -/
theorem scanPaths_eq {a b : TaskNode} {conflicts : List Conflict} (h : Unseen a b conflicts)
    (paths : List String) :
    scanPaths a b paths conflicts = conflicts ++
      ((paths.findSome? (pathShared b)).map fun shared => (a.id, b.id, shared)).toList := by
  induction paths with
  | nil => simp [scanPaths]
  | cons pathA rest ih =>
      rw [scanPaths, List.findSome?_cons]
      cases pathShared b pathA with
      | some shared => simp
      | none =>
          simp only [h.any, Bool.false_eq_true, if_false]
          exact ih

theorem scanStep_eq {a b : TaskNode} {conflicts : List Conflict} (h : Unseen a b conflicts) :
    (if areConcurrent a b then scanPaths a b a.writeScope conflicts else conflicts) =
      conflicts ++ (pair a b).toList := by
  rw [pair]
  split
  · exact scanPaths_eq h a.writeScope
  · simp

theorem of_mem_pair {a b : TaskNode} {c : Conflict} (h : c ∈ (pair a b).toList) :
    c.1 = a.id ∧ c.2.1 = b.id := by
  rw [Option.mem_toList, pair] at h
  split at h
  · obtain ⟨shared, _, rfl⟩ := Option.map_eq_some_iff.mp h
    exact ⟨rfl, rfl⟩
  · cases h

theorem scanRest_eq {a : TaskNode} {rest : List TaskNode} (hnodup : (rest.map TaskNode.id).Nodup)
    {conflicts : List Conflict} (h : ∀ b ∈ rest, Unseen a b conflicts) :
    scanRest a rest conflicts = conflicts ++ rest.filterMap (pair a) := by
  rw [scanRest]
  induction rest generalizing conflicts with
  | nil => simp
  | cons b rest ih =>
      obtain ⟨hb, hnodup⟩ := List.nodup_cons.mp hnodup
      rw [List.foldl_cons, scanStep_eq (h b List.mem_cons_self), ih hnodup]
      · rw [List.append_assoc]
        cases hpair : pair a b <;> simp [hpair]
      · -- what the pair with `b` added is no conflict with a later task: their ids differ
        intro c hc x hx hseen
        rcases List.mem_append.mp hx with hold | hnew
        · exact h c (List.mem_cons_of_mem b hc) x hold hseen
        · refine hb (List.mem_map.mpr ⟨c, hc, ?_⟩)
          rw [← hseen.2, (of_mem_pair hnew).2]

/-- What every pair adds, in list order. -/
def pairs : List TaskNode → List Conflict
  | [] => []
  | a :: rest => rest.filterMap (pair a) ++ pairs rest

theorem scanFrom_eq {tasks : List TaskNode} (hnodup : (tasks.map TaskNode.id).Nodup)
    {conflicts : List Conflict} (h : ∀ a ∈ tasks, ∀ c ∈ conflicts, c.1 ≠ a.id) :
    scanFrom tasks conflicts = conflicts ++ pairs tasks := by
  induction tasks generalizing conflicts with
  | nil => simp [scanFrom, pairs]
  | cons a rest ih =>
      obtain ⟨ha, hnodup⟩ := List.nodup_cons.mp hnodup
      have hrest : scanRest a rest conflicts = conflicts ++ rest.filterMap (pair a) :=
        scanRest_eq hnodup fun b _ c hc hseen => h a List.mem_cons_self c hc hseen.1
      rw [scanFrom, hrest, ih hnodup, pairs, List.append_assoc]
      -- the conflicts added begin with `a`, and no later task has its id
      intro b hb c hc heq
      rcases List.mem_append.mp hc with hold | hnew
      · exact h b (List.mem_cons_of_mem a hb) c hold heq
      · obtain ⟨d, hd, hpair⟩ := List.mem_filterMap.mp hnew
        refine ha (List.mem_map.mpr ⟨b, hb, ?_⟩)
        rw [← heq, (of_mem_pair (Option.mem_toList.mpr hpair)).1]

/-! ## Order -/

/-- `dependency_aware_order`. -/
def dependencyAwareOrder (plan : Plan) : Except DAGError (List TaskNode) :=
  match Graph.order TaskNode.id TaskNode.dependencies plan.tasks with
  | some result => .ok result
  | none => .error ⟨"Cannot resolve execution order: cycle or missing dependency"⟩

variable {plan : Plan}

/-- With distinct ids, the edges of the search are the dependencies. -/
theorem adj_of_mem (hnodup : (plan.tasks.map TaskNode.id).Nodup) :
    ∀ node ∈ plan.tasks, plan.adj node.id = node.dependencies :=
  fun _ hnode => adj_of_byId (byId_of_mem hnodup hnode)

/-- **An order exists for exactly the plans that pass validation**. -/
theorem dependencyAwareOrder_isSome_iff (hnodup : (plan.tasks.map TaskNode.id).Nodup) :
    (∃ result, Graph.order TaskNode.id TaskNode.dependencies plan.tasks = some result) ↔
      plan.Valid := by
  rw [Graph.order_isSome_iff (adj_of_mem hnodup)]
  constructor
  · rintro ⟨hclosed, hacc⟩
    have hfind : Graph.findFrom plan.adj plan.byId.keys.length plan.byId.keys plan.color = none := by
      refine (Graph.findFrom_eq_none_iff_acc (.fresh fun _ => rfl)
        (Graph.fresh_ne_inProgress fun _ => rfl) (fun _ => .rfl) (Nat.le_refl _)
        fun id hid d hd => ?_).mpr fun id hid => ?_
      · obtain ⟨node, hnode, rfl⟩ := List.mem_map.mp (mem_keys_byId.mp hid)
        rw [adj_of_mem hnodup node hnode] at hd
        exact mem_keys_byId.mpr (hclosed node hnode d hd)
      · obtain ⟨node, hnode, rfl⟩ := List.mem_map.mp (mem_keys_byId.mp hid)
        exact hacc node hnode
    rw [Valid, validateDag, hfind]
    refine List.flatMap_eq_nil_iff.mpr fun node hnode => ?_
    rw [List.map_eq_nil_iff, List.filter_eq_nil_iff]
    intro d hd
    simpa using mem_keys_byId.mpr (hclosed node hnode d hd)
  · intro h
    exact ⟨fun node hnode d hd => mem_keys_byId.mp (h.known hnode hd),
      fun node hnode => h.acc (mem_keys_byId.mpr (List.mem_map_of_mem hnode))⟩

end Plan

/-! ## The port -/

/-- The two descriptions of a task have the same texts. -/
structure SameTask (node : TaskNode) (task : PlanTask) : Prop where
  id : task.id = ⟨node.id⟩
  dependencies : task.dependencies = node.dependencies.map TaskId.mk
  writeScope : task.writeScope = node.writeScope.map ProjectPath.mk

/-- The two plans have the same tasks, in the same order. -/
abbrev SamePlan (plan : Plan) (tasks : List PlanTask) : Prop := List.Forall₂ SameTask plan.tasks tasks

theorem taskId_injective : Function.Injective TaskId.mk := fun _ _ h => TaskId.mk.inj h

/-- The two loops over the components stop at the same place. -/
theorem takeWhile_zip_eq_common (l r : List (List Char)) :
    ((l.zip r).takeWhile fun (pa, pb) => pa = pb).map Prod.fst = TaskGraph.common l r := by
  induction l generalizing r with
  | nil => simp [TaskGraph.common]
  | cons pa l ih =>
      cases r with
      | nil => simp [TaskGraph.common]
      | cons pb r =>
          rw [List.zip_cons_cons, List.takeWhile_cons, TaskGraph.common]
          by_cases h : pa = pb
          · simp [h, ih]
          · simp [h]

theorem sharedPrefix_eq (a b : String) : Plan.sharedPrefix a b = TaskGraph.sharedPrefix a b := by
  rw [TaskGraph.sharedPrefix, ← takeWhile_zip_eq_common]
  rfl

/-- A conflict as the Python code reports it. -/
def conflictTexts (c : TaskGraph.WriteScopeConflict) : Plan.Conflict :=
  (c.first.value, c.second.value, c.sharedPath)

section Pair

variable {a b : TaskNode} {a' b' : PlanTask} (ha : SameTask a a') (hb : SameTask b b')
include ha hb

omit ha in
theorem SameTask.pathShared_eq (pathA : String) :
    Plan.pathShared b pathA = b'.writeScope.findSome? fun p =>
      let shared := TaskGraph.sharedPrefix pathA p.value
      if shared.length > 0 then some shared else none := by
  rw [Plan.pathShared, hb.writeScope, List.findSome?_map]
  refine congrArg (fun f => List.findSome? f _) (funext fun pathB => ?_)
  simp only [Function.comp_apply, sharedPrefix_eq, GT.gt, Nat.pos_iff_ne_zero, ne_eq,
    String.length_eq_zero_iff]

theorem SameTask.firstOverlap_eq :
    a.writeScope.findSome? (Plan.pathShared b) = TaskGraph.firstOverlap a' b' := by
  rw [TaskGraph.firstOverlap, ha.writeScope, List.findSome?_map]
  exact congrArg (fun f => List.findSome? f _) (funext fun pathA => hb.pathShared_eq pathA)

theorem SameTask.pair_eq : Plan.pair a b = (TaskGraph.conflict a' b').map conflictTexts := by
  have hdepends : Plan.areConcurrent a b =
      !(a'.dependencies.contains b'.id || b'.dependencies.contains a'.id) := by
    rw [Plan.areConcurrent, Bool.not_or, Bool.and_comm, ha.dependencies, hb.dependencies, ha.id, hb.id]
    simp [List.contains_eq_mem, List.mem_map_of_injective taskId_injective]
  rw [Plan.pair, TaskGraph.conflict, hdepends, ha.firstOverlap_eq hb]
  cases a'.dependencies.contains b'.id || b'.dependencies.contains a'.id with
  | true => rfl
  | false =>
      simp only [Bool.not_false, if_true, Bool.false_eq_true, if_false, Option.map_map, ha.id, hb.id]
      rfl

end Pair

theorem SamePlan.pairs_eq {nodes : List TaskNode} {tasks : List PlanTask}
    (h : List.Forall₂ SameTask nodes tasks) :
    Plan.pairs nodes = (TaskGraph.findWriteScopeConflicts tasks).map conflictTexts := by
  induction h with
  | nil => rfl
  | @cons a a' rest rest' ha hrest ih =>
      have hfirst : rest.filterMap (Plan.pair a) =
          (rest'.filterMap (TaskGraph.conflict a')).map conflictTexts := by
        clear ih
        induction hrest with
        | nil => rfl
        | cons hb _ ih =>
            rw [List.filterMap_cons, List.filterMap_cons, ha.pair_eq hb, ih]
            cases TaskGraph.conflict a' _ <;> rfl
      rw [Plan.pairs, TaskGraph.findWriteScopeConflicts, List.map_append, hfirst, ih]

section SamePlan

variable {plan : Plan} {tasks : List PlanTask} (h : SamePlan plan tasks)
  (hnodup : (plan.tasks.map TaskNode.id).Nodup)
include h

theorem SamePlan.ids : tasks.map PlanTask.id = (plan.tasks.map TaskNode.id).map TaskId.mk :=
  Graph.map_key_rel (fun _ _ hst => ⟨hst.id, hst.dependencies⟩) h

include hnodup

theorem SamePlan.nodup : (tasks.map PlanTask.id).Nodup := by
  rw [h.ids]
  exact hnodup.map taskId_injective

theorem SamePlan.conflicts_eq : plan.detectWriteScopeConflicts =
    (TaskGraph.findWriteScopeConflicts tasks).map conflictTexts := by
  rw [Plan.detectWriteScopeConflicts, Plan.scanFrom_eq hnodup (by simp), List.nil_append]
  exact SamePlan.pairs_eq h

theorem SamePlan.order_rel :
    Option.Rel (List.Forall₂ SameTask)
      (Graph.order TaskNode.id TaskNode.dependencies plan.tasks)
      (Graph.order PlanTask.id PlanTask.dependencies tasks) :=
  Graph.order_rel taskId_injective (fun _ _ hst => ⟨hst.id, hst.dependencies⟩) h hnodup.of_map
    (h.nodup hnodup).of_map

/-- Both validations accept the plan or neither does: each accepts what can be ordered. -/
theorem SamePlan.validateDag_iff : plan.validateDag = [] ↔ TaskGraph.validate tasks = .ok [] := by
  have hpython := Plan.dependencyAwareOrder_isSome_iff hnodup
  have hcsharp := TaskGraph.inDependencyOrder_isOk_iff (h.nodup hnodup)
  simp only [TaskGraph.inDependencyOrder_eq_ok] at hcsharp
  have horder := h.order_rel hnodup
  show plan.Valid ↔ TaskGraph.Valid tasks
  rw [← hpython, ← hcsharp]
  generalize Graph.order TaskNode.id TaskNode.dependencies plan.tasks = result at horder
  generalize Graph.order PlanTask.id PlanTask.dependencies tasks = ordered at horder
  cases horder <;> simp

end SamePlan

/-- A plan with a conflict and a dependency, in both programs' terms. -/
def smallPlan : Plan where
  goalId := "g"
  tasks :=
    [{ id := "b", objective := "two", dependencies := ["a"], writeScope := ["src/x"] },
     { id := "a", objective := "one", writeScope := ["docs"] },
     { id := "c", objective := "three", writeScope := ["/docs/api"] }]

def smallTasks : List PlanTask :=
  [{ id := ⟨"b"⟩, objective := "two", risk := .low, isParallelizable := true,
     dependencies := [⟨"a"⟩], writeScope := [⟨"src/x"⟩] },
   { id := ⟨"a"⟩, objective := "one", risk := .low, isParallelizable := true,
     writeScope := [⟨"docs"⟩] },
   { id := ⟨"c"⟩, objective := "three", risk := .low, isParallelizable := true,
     writeScope := [⟨"/docs/api"⟩] }]

theorem smallPlan_same : SamePlan smallPlan smallTasks :=
  .cons ⟨rfl, rfl, rfl⟩ (.cons ⟨rfl, rfl, rfl⟩ (.cons ⟨rfl, rfl, rfl⟩ .nil))

end AtlasFlow.Reference
