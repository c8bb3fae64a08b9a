import Mathlib.Data.Set.Finite.List
import AtlasFlow.Data.Dict
import AtlasFlow.Graph.Depth
import AtlasFlow.Graph.Unfold
import AtlasFlow.Orchestration.TaskOrder

/-!
# The plan screen

`layerTasks` draws the tasks of a plan in stages: a task stands one stage after the latest of the tasks it depends on,
and dependencies on tasks that are not in the list are skipped. The stages hold every task once, cycles or not. Without
cycles stage `k` holds the tasks with a longest chain of `k` dependencies below them; when no task names one outside the
list these are the tasks that `InDependencyOrder` takes out in pass `k` (`layerTasks_waves`). Of a plan with such a task
`InDependencyOrder` takes out less and then gives up, while the screen draws it (`layerTasks_stray`).
-/

namespace AtlasFlow

open Graph

structure TaskView where
  id : String
  objective : String
  state : String
  role : Option String
  risk : String
  scope : List String
  dependencies : List String
  deriving DecidableEq, Repr

namespace PlanScreen

/-! ## Stages -/

section Stages

variable {α : Type}

/-- `(layers[level] ??= []).push(task)`: what lies between becomes a hole. -/
def pushAt : List (Option (List α)) → Nat → α → List (Option (List α))
  | [], 0, a => [some [a]]
  | [], level + 1, a => none :: pushAt [] level a
  | layer :: layers, 0, a => some (layer.getD [] ++ [a]) :: layers
  | layer :: layers, level + 1, a => layer :: pushAt layers level a

/-- What stands at a level. -/
def row (layers : List (Option (List α))) (k : Nat) : List α := (layers[k]?.join).getD []

theorem row_pushAt (layers : List (Option (List α))) (level : Nat) (a : α) (k : Nat) :
    row (pushAt layers level a) k = if k = level then row layers k ++ [a] else row layers k := by
  fun_induction pushAt layers level a generalizing k <;> cases k <;> simp_all [row]

theorem length_pushAt (layers : List (Option (List α))) (level : Nat) (a : α) :
    (pushAt layers level a).length = max layers.length (level + 1) := by
  fun_induction pushAt layers level a <;> simp_all

theorem pushAt_perm (layers : List (Option (List α))) (level : Nat) (a : α) :
    ((pushAt layers level a).filterMap id).flatten.Perm ((layers.filterMap id).flatten ++ [a]) := by
  fun_induction pushAt layers level a with
  | case1 => exact .refl _
  | case2 level a ih => exact ih
  | case3 layer layers a =>
      cases layer with
      | none => exact List.perm_append_singleton a _ |>.symm
      | some as =>
          show ((as ++ [a]) ++ (layers.filterMap id).flatten).Perm (as ++ (layers.filterMap id).flatten ++ [a])
          rw [List.append_assoc, List.append_assoc]
          exact List.perm_append_comm.append_left as
  | case4 layer layers level a ih =>
      cases layer with
      | none => exact ih
      | some as =>
          show (as ++ ((pushAt layers level a).filterMap id).flatten).Perm (as ++ (layers.filterMap id).flatten ++ [a])
          rw [List.append_assoc]
          exact ih.append_left as

theorem pushAt_ne_nil {layers : List (Option (List α))} (h : some [] ∉ layers) (level : Nat) (a : α) :
    some [] ∉ pushAt layers level a := by
  fun_induction pushAt layers level a <;> simp_all

/-- The items as `pushAt` arranges them. -/
def arrange (level : α → Nat) (items : List α) : List (Option (List α)) :=
  items.foldl (fun layers a => pushAt layers (level a) a) []

variable (level : α → Nat) (items : List α)

theorem arrange_append (a : α) : arrange level (items ++ [a]) = pushAt (arrange level items) (level a) a :=
  List.foldl_concat ..

/-- **Each level has its items**. -/
theorem row_arrange (k : Nat) : row (arrange level items) k = items.filter (level · = k) := by
  induction items using List.reverseRecOn with
  | nil => rfl
  | append_singleton items a ih =>
      rw [arrange_append, row_pushAt, ih, List.filter_append]
      split
      · next heq => simp [heq]
      · next hne => simp [Ne.symm hne]

/-- **Every item is in one place**. -/
theorem arrange_perm : ((arrange level items).filterMap id).flatten.Perm items := by
  induction items using List.reverseRecOn with
  | nil => exact .refl _
  | append_singleton items a ih =>
      rw [arrange_append]
      exact (pushAt_perm ..).trans (ih.append_right [a])

theorem arrange_ne_nil : some [] ∉ arrange level items := by
  induction items using List.reverseRecOn with
  | nil => exact List.not_mem_nil
  | append_singleton items a ih =>
      rw [arrange_append]
      exact pushAt_ne_nil ih _ _

/-- There are as many levels as the deepest item needs. -/
theorem exists_of_lt_arrange {k : Nat} (hk : k < (arrange level items).length) : ∃ a ∈ items, k ≤ level a := by
  induction items using List.reverseRecOn with
  | nil => exact absurd hk (Nat.not_lt_zero k)
  | append_singleton items a ih =>
      rw [arrange_append, length_pushAt] at hk
      rcases Nat.lt_or_ge k (arrange level items).length with hlt | hge
      · obtain ⟨b, hb, hle⟩ := ih hlt
        exact ⟨b, List.mem_append_left _ hb, hle⟩
      · exact ⟨a, by simp, by omega⟩

theorem filterMap_of_full {layers : List (Option (List α))} (h : none ∉ layers) (k : Nat) :
    (layers.filterMap id).getD k [] = row layers k := by
  induction layers generalizing k with
  | nil => rfl
  | cons layer layers ih =>
      obtain ⟨hlayer, hlayers⟩ := not_or.mp (mt List.mem_cons.mpr h)
      obtain ⟨as, rfl⟩ := Option.ne_none_iff_exists'.mp (Ne.symm hlayer)
      cases k with
      | zero => rfl
      | succ k => exact ih hlayers k

/-- Where no level is skipped, the levels stand at their numbers. -/
theorem getD_arrange (h : ∀ a ∈ items, ∀ k ≤ level a, ∃ b ∈ items, level b = k) (k : Nat) :
    ((arrange level items).filterMap id).getD k [] = items.filter (level · = k) := by
  rw [filterMap_of_full, row_arrange]
  intro hnone
  obtain ⟨j, hj, hget⟩ := List.mem_iff_getElem.mp hnone
  obtain ⟨a, ha, hle⟩ := exists_of_lt_arrange level items hj
  obtain ⟨b, hb, hlevel⟩ := h a ha j hle
  have hrow := row_arrange level items j
  rw [row, List.getElem?_eq_getElem hj, hget] at hrow
  have hmem : b ∈ items.filter (level · = j) := List.mem_filter.mpr ⟨hb, decide_eq_true hlevel⟩
  rw [← hrow] at hmem
  exact List.not_mem_nil hmem

end Stages

/-! ## Layers -/

/-- `new Map(tasks.map((task) => [task.id, task]))`. -/
def byId (tasks : List TaskView) : Dict String TaskView := Dict.ofItems (tasks.map fun task => (task.id, task))

/-- `parents`. -/
def parents (tasks : List TaskView) (task : TaskView) : List TaskView := task.dependencies.filterMap (byId tasks).get?

/-- `resolve`. -/
def resolve (tasks : List TaskView) (fuel : Nat) (task : TaskView) (s : Depths String) : Option (Nat × Depths String) :=
  depthOf TaskView.id (parents tasks) fuel task s

/-- The table after each task was resolved, with an empty set of its own; nothing when the fuel is out. -/
def depths (tasks : List TaskView) (fuel : Nat) : List TaskView → (String → Option Nat) → Option (String → Option Nat)
  | [], depth => some depth
  | task :: rest, depth =>
    match resolve tasks fuel task { depth := depth } with
    | none => none
    | some (_, s) => depths tasks fuel rest s.depth

/-- `layerTasks`; nothing when the fuel is out. -/
def layerTasks (fuel : Nat) (tasks : List TaskView) : Option (List (List TaskView)) :=
  (depths tasks fuel tasks fun _ => none).map fun depth =>
    (arrange (fun task => (depth task.id).getD 0) tasks).filterMap id

/-- The dependencies of a task that are in the list. -/
def edges (tasks : List TaskView) (id : String) : List String :=
  match (byId tasks).get? id with
  | some task => task.dependencies.filter (· ∈ tasks.map TaskView.id)
  | none => []

/-- No task is below itself. -/
def Acyclic (tasks : List TaskView) : Prop := ∀ id, ¬ Relation.TransGen (fun d n => d ∈ edges tasks n) id id

section Layers

variable {tasks : List TaskView}

theorem mem_of_byId {id : String} {task : TaskView} (h : (byId tasks).get? id = some task) :
    task ∈ tasks ∧ task.id = id := by
  obtain ⟨t, ht, heq⟩ := List.mem_map.mp (Dict.mem_of_get?_ofItems h)
  cases heq
  exact ⟨ht, rfl⟩

theorem parents_closed : ∀ a ∈ tasks, ∀ b ∈ parents tasks a, b ∈ tasks := by
  intro a _ b hb
  obtain ⟨id, _, hid⟩ := List.mem_filterMap.mp hb
  exact (mem_of_byId hid).1

/-- **It answers**, and with more fuel it answers the same. -/
theorem exists_depths (rest : List TaskView) (hrest : ∀ t ∈ rest, t ∈ tasks) (depth : String → Option Nat) :
    ∃ depth', ∀ fuel, tasks.length < fuel → depths tasks fuel rest depth = some depth' := by
  induction rest generalizing depth with
  | nil => exact ⟨depth, fun _ _ => rfl⟩
  | cons task rest ih =>
      have hfuel : (unseenOf (tasks.map TaskView.id) { depth := depth }).length < tasks.length + 1 := by
        refine Nat.lt_succ_of_le (Nat.le_trans (List.length_filter_le ..) ?_)
        rw [List.length_map]
      obtain ⟨value, s, hresolve, _⟩ :=
        exists_depthOf parents_closed (hrest task List.mem_cons_self) hfuel
      obtain ⟨depth', hdepth'⟩ := ih (fun t ht => hrest t (List.mem_cons_of_mem task ht)) s.depth
      refine ⟨depth', fun fuel hlt => ?_⟩
      unfold depths resolve
      rw [depthOf_le hlt hresolve]
      exact hdepth' fuel hlt

variable (hnodup : (tasks.map TaskView.id).Nodup)
include hnodup

theorem byId_of_mem {task : TaskView} (h : task ∈ tasks) : (byId tasks).get? task.id = some task := by
  refine Dict.get?_ofItems ?_ (List.mem_map.mpr ⟨task, h, rfl⟩)
  rw [List.map_map]
  exact hnodup

theorem edges_of_mem : ∀ task ∈ tasks, edges tasks task.id = (parents tasks task).map TaskView.id := by
  intro task htask
  rw [edges, byId_of_mem hnodup htask, parents, List.map_filterMap]
  show task.dependencies.filter _ = _
  rw [← List.filterMap_eq_filter]
  refine List.filterMap_congr fun d _ => ?_
  cases hd : (byId tasks).get? d with
  | none =>
      refine if_neg fun hmem => ?_
      obtain ⟨t, ht, rfl⟩ := List.mem_map.mp (of_decide_eq_true hmem)
      rw [byId_of_mem hnodup ht] at hd
      cases hd
  | some t =>
      obtain ⟨ht, rfl⟩ := mem_of_byId hd
      exact if_pos (decide_eq_true (List.mem_map_of_mem ht))

/-- Without cycles every task has the length of the longest chain below it in the table. -/
theorem depths_layer (hacyclic : Acyclic tasks) {fuel : Nat} {rest : List TaskView} (hrest : ∀ t ∈ rest, t ∈ tasks)
    {depth depth' : String → Option Nat}
    (hright : ∀ k value, depth k = some value → Layer (edges tasks) (value + 1) k)
    (h : depths tasks fuel rest depth = some depth') :
    (∀ k value, depth' k = some value → Layer (edges tasks) (value + 1) k) ∧
      (∀ k, depth k ≠ none → depth' k ≠ none) ∧ ∀ t ∈ rest, depth' t.id ≠ none := by
  induction rest generalizing depth with
  | nil =>
      cases h
      exact ⟨hright, fun _ hk => hk, fun t ht => absurd ht List.not_mem_nil⟩
  | cons task rest ih =>
      unfold depths at h
      split at h
      · cases h
      · next value s hresolve =>
          obtain ⟨hs, htask, _⟩ := depthOf_layer parents_closed (edges_of_mem hnodup) hacyclic
            (hrest task List.mem_cons_self) hright (fun k hk => absurd hk List.not_mem_nil) hresolve
          obtain ⟨hright', hkept, hfound⟩ := ih (fun t ht => hrest t (List.mem_cons_of_mem task ht)) hs.right h
          refine ⟨hright', fun k hk => hkept k (hs.kept k hk), fun t ht => ?_⟩
          rcases List.mem_cons.mp ht with rfl | ht
          · exact hkept _ htask
          · exact hfound t ht

end Layers

/-! ## Waves -/

/-- The screen shows these tasks of a plan. -/
def Shows (tasks : List TaskView) (plan : List PlanTask) : Prop :=
  List.Forall₂ (fun view task => view.id = task.id.value ∧ view.dependencies = task.dependencies.map TaskId.value)
    tasks plan

/-- Each layer has the tasks that `InDependencyOrder` takes out in the pass of its number. -/
def AreWaves (layers : List (List TaskView)) (plan : List PlanTask) : Prop :=
  ∀ k id, id ∈ (layers.getD k []).map TaskView.id ↔
    id ∈ (wave PlanTask.id PlanTask.dependencies plan k).map fun task => task.id.value

section Waves

variable {tasks : List TaskView} {plan : List PlanTask}

theorem Shows.ids (h : Shows tasks plan) : tasks.map TaskView.id = plan.map fun task => task.id.value := by
  induction h with
  | nil => rfl
  | cons h _ ih => rw [List.map_cons, List.map_cons, h.1, ih]

/-- The edges between the ids of a plan. -/
def planEdges (tasks : List TaskView) (id : TaskId) : List TaskId := (edges tasks id.value).map TaskId.mk

theorem hasChain_planEdges {k : Nat} {id : TaskId} :
    HasChain (planEdges tasks) k id ↔ HasChain (edges tasks) k id.value := by
  induction k generalizing id with
  | zero => rfl
  | succ k ih =>
      cases k with
      | zero => rfl
      | succ k =>
          rw [HasChain.succ, HasChain.succ]
          constructor
          · rintro ⟨d, hd, hchain⟩
            obtain ⟨d', hd', rfl⟩ := List.mem_map.mp hd
            exact ⟨d', hd', ih.mp hchain⟩
          · rintro ⟨d, hd, hchain⟩
            exact ⟨⟨d⟩, List.mem_map_of_mem hd, ih.mpr hchain⟩

/-- A task that names nothing outside the list has its dependencies for edges. -/
theorem Shows.planEdges_of_mem (h : Shows tasks plan) (hnodup : (tasks.map TaskView.id).Nodup)
    (hclosed : TaskGraph.Closed plan) : ∀ task ∈ plan, planEdges tasks task.id = task.dependencies := by
  intro task htask
  obtain ⟨view, hview, hid, hdependencies⟩ := Attempts.exists_of_forall₂ h.flip htask
  have hall : view.dependencies.filter (· ∈ tasks.map TaskView.id) = view.dependencies := by
    refine List.filter_eq_self.mpr fun d hd => decide_eq_true ?_
    rw [hdependencies] at hd
    obtain ⟨d', hd', rfl⟩ := List.mem_map.mp hd
    obtain ⟨other, hother, rfl⟩ := List.mem_map.mp (hclosed task htask d' hd')
    rw [h.ids]
    exact List.mem_map.mpr ⟨other, hother, rfl⟩
  rw [planEdges, ← hid, edges, byId_of_mem hnodup hview]
  dsimp only
  rw [hall, hdependencies, List.map_map]
  exact List.map_id task.dependencies

/-- **A wave is a stage**: the tasks of a plan that pass `k` takes out. -/
theorem Shows.mem_wave (h : Shows tasks plan) (hnodup : (tasks.map TaskView.id).Nodup) (hclosed : TaskGraph.Closed plan)
    (k : Nat) {task : PlanTask} : task ∈ wave PlanTask.id PlanTask.dependencies plan k ↔
      task ∈ plan ∧ Layer (edges tasks) (k + 1) task.id.value := by
  have hdistinct : (plan.map PlanTask.id).Nodup := by
    have hpairs : (plan.map fun task => task.id.value) = (plan.map PlanTask.id).map TaskId.value := by
      rw [List.map_map]
      rfl
    rw [h.ids, hpairs] at hnodup
    exact hnodup.of_map _
  rw [Graph.mem_wave (h.planEdges_of_mem hnodup hclosed) hclosed hdistinct k, Layer, Layer, hasChain_planEdges,
    hasChain_planEdges]

/-- **The drawn stages**: `layerTasks` answers, and the stages are not empty and hold every task once. Without cycles
stage `k` holds the tasks whose longest chain of dependencies has length `k`, which of a plan without dependencies
outside the list are those of wave `k`. -/
theorem layerTasks_waves (tasks : List TaskView) (hnodup : (tasks.map TaskView.id).Nodup) :
    ∃ layers, (∀ fuel, tasks.length < fuel → layerTasks fuel tasks = some layers) ∧ [] ∉ layers ∧
      layers.flatten.Perm tasks ∧
      (Acyclic tasks →
        (∀ k task, task ∈ layers.getD k [] ↔ task ∈ tasks ∧ Layer (edges tasks) (k + 1) task.id) ∧
        ∀ plan, Shows tasks plan → TaskGraph.Closed plan → AreWaves layers plan) := by
  obtain ⟨depth, hdepth⟩ := exists_depths tasks (fun _ ht => ht) fun _ => none
  have harrange := arrange_ne_nil (fun task : TaskView => (depth task.id).getD 0) tasks
  refine ⟨(arrange (fun task => (depth task.id).getD 0) tasks).filterMap id, fun fuel hfuel => ?_, fun hnil => ?_,
    arrange_perm .., fun hacyclic => ?_⟩
  · rw [layerTasks, hdepth fuel hfuel]
    rfl
  · obtain ⟨layer, hlayer, rfl⟩ := List.mem_filterMap.mp hnil
    exact harrange hlayer
  · obtain ⟨hright, _, hfound⟩ := depths_layer hnodup hacyclic (fun _ ht => ht)
      (fun _ _ hsome => absurd hsome (Option.some_ne_none _).symm) (hdepth (tasks.length + 1) (Nat.lt_succ_self _))
    have hlayer : ∀ task ∈ tasks, Layer (edges tasks) ((depth task.id).getD 0 + 1) task.id := by
      intro task htask
      obtain ⟨value, hvalue⟩ := Option.ne_none_iff_exists'.mp (hfound task htask)
      rw [hvalue]
      exact hright _ _ hvalue
    have hids : ∀ id ∈ tasks.map TaskView.id, ∀ d ∈ edges tasks id, d ∈ tasks.map TaskView.id := by
      intro id hid d hd
      obtain ⟨task, htask, rfl⟩ := List.mem_map.mp hid
      rw [edges_of_mem hnodup task htask] at hd
      obtain ⟨parent, hparent, rfl⟩ := List.mem_map.mp hd
      exact List.mem_map_of_mem (parents_closed task htask parent hparent)
    have hlevels : ∀ k task, task ∈ ((arrange (fun task => (depth task.id).getD 0) tasks).filterMap id).getD k [] ↔
        task ∈ tasks ∧ Layer (edges tasks) (k + 1) task.id := by
      intro k task
      rw [getD_arrange, List.mem_filter, decide_eq_true_iff]
      · refine and_congr_right fun htask => ⟨fun heq => heq ▸ hlayer task htask, fun hk => ?_⟩
        have heq := (hlayer task htask).unique hk
        omega
      · -- no level is skipped: below a task there is one at every smaller level
        intro task htask k hk
        have hacc : Acc (fun d n => d ∈ edges tasks n) task.id :=
          (acc_iff_of_finite (List.finite_toSet (tasks.map TaskView.id)) hids (List.mem_map_of_mem htask)).mpr
            fun id _ => hacyclic id
        obtain ⟨id, hid, hsome⟩ := exists_layer hids hacc (List.mem_map_of_mem htask)
          ((hlayer task htask).1.mono (Nat.succ_le_succ hk))
        obtain ⟨other, hother, rfl⟩ := List.mem_map.mp hid
        refine ⟨other, hother, ?_⟩
        have heq := (hlayer other hother).unique hsome
        omega
    refine ⟨hlevels, fun plan hplan hclosed k id => ?_⟩
    have hids : id ∈ tasks.map TaskView.id ↔ id ∈ plan.map fun task => task.id.value := by rw [hplan.ids]
    rw [List.mem_map] at hids ⊢
    rw [List.mem_map] at hids ⊢
    constructor
    · rintro ⟨view, hview, rfl⟩
      obtain ⟨hmem, hchain⟩ := (hlevels k view).mp hview
      obtain ⟨task, htask, heq⟩ := hids.mp ⟨view, hmem, rfl⟩
      refine ⟨task, (hplan.mem_wave hnodup hclosed k).mpr ⟨htask, ?_⟩, heq⟩
      rwa [heq]
    · rintro ⟨task, hwave, rfl⟩
      obtain ⟨htask, hchain⟩ := (hplan.mem_wave hnodup hclosed k).mp hwave
      obtain ⟨view, hview, heq⟩ := hids.mpr ⟨task, htask, rfl⟩
      refine ⟨view, (hlevels k view).mpr ⟨hview, ?_⟩, heq⟩
      rwa [heq]

def strayView : TaskView :=
  { id := "a", objective := "one", state := "draft", role := none, risk := "low", scope := [],
    dependencies := ["gone"] }

/-- Two tasks below a third, on different levels. -/
def diamond : List TaskView :=
  [{ strayView with id := "top", dependencies := ["left", "right"] },
    { strayView with id := "left", dependencies := ["base"] },
    { strayView with id := "right", dependencies := [] },
    { strayView with id := "base", dependencies := [] }]

example : (layerTasks 5 diamond).map (List.map (List.map TaskView.id)) =
    some [["right", "base"], ["left"], ["top"]] := by
  decide

theorem layerTasks_waves_diamond :
    ∃ layers, (∀ fuel, diamond.length < fuel → layerTasks fuel diamond = some layers) ∧ [] ∉ layers ∧
      layers.flatten.Perm diamond ∧
      (Acyclic diamond →
        (∀ k task, task ∈ layers.getD k [] ↔ task ∈ diamond ∧ Layer (edges diamond) (k + 1) task.id) ∧
        ∀ plan, Shows diamond plan → TaskGraph.Closed plan → AreWaves layers plan) :=
  layerTasks_waves diamond (by decide)

/-- A plan of one task, which names another that is not in it. -/
def strayPlan : List PlanTask :=
  [{ id := ⟨"a"⟩, objective := "one", risk := .low, isParallelizable := true, dependencies := [⟨"gone"⟩] }]

/-- **A task that names one outside the list** is drawn in the first stage, and `InDependencyOrder` takes it out in no
pass. -/
theorem layerTasks_stray : ∃ tasks plan layers, (tasks.map TaskView.id).Nodup ∧ Acyclic tasks ∧ Shows tasks plan ∧
    layerTasks (tasks.length + 1) tasks = some layers ∧ ¬ AreWaves layers plan := by
  refine ⟨[strayView], strayPlan, [[strayView]], by decide, fun id hcycle => ?_, .cons ⟨rfl, rfl⟩ .nil, by decide,
    fun hwaves => ?_⟩
  · obtain ⟨d, hd, _⟩ := Relation.TransGen.head'_iff.mp hcycle
    have hnone : ∀ n, edges [strayView] n = [] := by
      intro n
      by_cases hn : n = "a"
      · subst hn
        decide
      · have hget : (byId [strayView]).get? n = none := by
          rw [Dict.get?_eq_none]
          simpa [byId, strayView, Dict.ofItems, Dict.set, Dict.keys] using hn
        rw [edges, hget]
    rw [hnone] at hd
    exact List.not_mem_nil hd
  · exact absurd ((hwaves 0 "a").mp (by decide)) (by decide)

end Waves

end PlanScreen

end AtlasFlow
