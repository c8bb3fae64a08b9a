import AtlasFlow.Reference.PlanScreen

/-!
# The task graph

`components/TaskGraph.tsx` places the tasks of the layers on a grid, a column for each layer, and draws an arrow for each
dependency that is on screen. Whatever the plan, the drawing is legible (`drawing_legible`): every task has one box, no
two boxes touch, all lie in the picture, and no edge is without its arrow. All arrows point to the right exactly if the
plan has no cycle.
-/

namespace AtlasFlow.PlanScreen

open Graph

/-- One task, placed. -/
structure PlacedTask where
  task : TaskView
  layer : Nat
  index : Nat
  x : Nat
  y : Nat
  deriving DecidableEq, Repr

structure Edge where
  /-- `from`. -/
  dependency : String
  /-- `to`. -/
  task : String
  deriving DecidableEq, Repr

def nodeWidth : Nat := 190

def nodeHeight : Nat := 52

def columnGap : Nat := 70

def rowGap : Nat := 22

def place (column row : Nat) (task : TaskView) : PlacedTask :=
  { task, layer := column, index := row, x := column * (nodeWidth + columnGap), y := row * (nodeHeight + rowGap) }

def placeTasks (layers : List (List TaskView)) : List PlacedTask :=
  layers.zipIdx.flatMap fun layer => layer.1.zipIdx.map fun item => place layer.2 item.2 item.1

/-- Only edges between tasks that are both on screen. -/
def edgesFor (placed : List PlacedTask) : List Edge :=
  placed.flatMap fun item =>
    (item.task.dependencies.filter (· ∈ placed.map fun item => item.task.id)).map fun dependency =>
      { dependency, task := item.task.id }

structure Size where
  width : Nat
  height : Nat
  deriving DecidableEq, Repr

def graphSize (placed : List PlacedTask) : Size :=
  if placed.isEmpty then { width := 0, height := 0 }
  else
    { width := (placed.map PlacedTask.x).foldl max 0 + nodeWidth
      height := (placed.map PlacedTask.y).foldl max 0 + nodeHeight }

/-- `M x1 y1 C midpoint y1, midpoint y2, x2 y2`. -/
structure Arrow where
  edge : Edge
  x1 : Nat
  y1 : Nat
  midpoint : Nat
  x2 : Nat
  y2 : Nat
  deriving DecidableEq, Repr

/-- From the right side of one box to the left side of another. -/
def arrow (start finish : PlacedTask) : Arrow :=
  { edge := { dependency := start.task.id, task := finish.task.id }
    x1 := start.x + nodeWidth
    y1 := start.y + nodeHeight / 2
    midpoint := (start.x + nodeWidth + finish.x) / 2
    x2 := finish.x
    y2 := finish.y + nodeHeight / 2 }

/-- `new Map(placed.map((item) => [item.task.id, item]))`. -/
def placedById (placed : List PlacedTask) : Dict String PlacedTask :=
  Dict.ofItems (placed.map fun item => (item.task.id, item))

/-- What is drawn of an edge: nothing where one of its tasks is not found. -/
def drawEdge (placed : List PlacedTask) (edge : Edge) : Option Arrow :=
  match (placedById placed).get? edge.dependency, (placedById placed).get? edge.task with
  | some start, some finish => some (arrow start finish)
  | _, _ => none

/-- The arrows of `TaskGraph`. -/
def arrows (placed : List PlacedTask) : List Arrow := (edgesFor placed).filterMap (drawEdge placed)

/-- Two boxes, with a gap between them. -/
def Apart (a b : PlacedTask) : Prop :=
  a.x + nodeWidth + columnGap ≤ b.x ∨ b.x + nodeWidth + columnGap ≤ a.x ∨
    a.y + nodeHeight + rowGap ≤ b.y ∨ b.y + nodeHeight + rowGap ≤ a.y

/-- What a reader may rely on. -/
structure Legible (tasks : List TaskView) (placed : List PlacedTask) : Prop where
  once : (placed.map PlacedTask.task).Perm tasks
  apart : placed.Pairwise Apart
  inside : ∀ item ∈ placed,
    item.x + nodeWidth ≤ (graphSize placed).width ∧ item.y + nodeHeight ≤ (graphSize placed).height
  edges : ∀ dependency id, { dependency, task := id } ∈ edgesFor placed ↔
    ∃ task ∈ tasks, task.id = id ∧ dependency ∈ task.dependencies ∧ dependency ∈ tasks.map TaskView.id
  /-- Every edge is drawn, from the box of the dependency to the box of the task. -/
  drawn : (arrows placed).map Arrow.edge = edgesFor placed
  joins : ∀ a ∈ arrows placed, ∃ start ∈ placed, ∃ finish ∈ placed, a = arrow start finish
  rightward : Acyclic tasks ↔ ∀ a ∈ arrows placed, a.x1 < a.x2

/-! ## The grid -/

section Grid

variable {layers : List (List TaskView)}

theorem mem_placeTasks {item : PlacedTask} :
    item ∈ placeTasks layers ↔
      ∃ column layer, layers[column]? = some layer ∧ ∃ row task, layer[row]? = some task ∧ item = place column row task := by
  unfold placeTasks
  rw [List.mem_flatMap]
  constructor
  · rintro ⟨⟨layer, column⟩, hlayer, hitem⟩
    obtain ⟨⟨task, row⟩, htask, rfl⟩ := List.mem_map.mp hitem
    exact ⟨column, layer, List.mk_mem_zipIdx_iff_getElem?.mp hlayer, row, task,
      List.mk_mem_zipIdx_iff_getElem?.mp htask, rfl⟩
  · rintro ⟨column, layer, hlayer, row, task, htask, rfl⟩
    exact ⟨(layer, column), List.mk_mem_zipIdx_iff_getElem?.mpr hlayer,
      List.mem_map.mpr ⟨(task, row), List.mk_mem_zipIdx_iff_getElem?.mpr htask, rfl⟩⟩

theorem map_task_placeTasks : (placeTasks layers).map PlacedTask.task = layers.flatten := by
  unfold placeTasks
  rw [List.map_flatMap]
  have hlayer : ∀ layer : List TaskView × Nat,
      (layer.1.zipIdx.map fun item => place layer.2 item.2 item.1).map PlacedTask.task = layer.1 := by
    intro layer
    rw [List.map_map]
    exact List.zipIdx_map_fst 0 layer.1
  rw [List.flatMap_congr fun layer _ => hlayer layer, List.flatMap_def, List.zipIdx_map_fst]

theorem zipIdx_pairwise {α : Type} (xs : List α) : xs.zipIdx.Pairwise fun a b => a.2 < b.2 := by
  have hrange : (xs.zipIdx.map Prod.snd).Pairwise (· < ·) := by
    rw [List.zipIdx_map_snd]
    exact List.pairwise_lt_range'
  exact List.pairwise_map.mp hrange

/-- **No two boxes touch.** -/
theorem placeTasks_apart : (placeTasks layers).Pairwise Apart := by
  refine List.pairwise_flatMap.mpr ⟨fun layer _ => ?_, (zipIdx_pairwise layers).imp ?_⟩
  · refine List.pairwise_map.mpr ((zipIdx_pairwise layer.1).imp fun {a b} hlt => ?_)
    refine Or.inr (Or.inr (Or.inl ?_))
    show a.2 * (nodeHeight + rowGap) + nodeHeight + rowGap ≤ b.2 * (nodeHeight + rowGap)
    calc a.2 * (nodeHeight + rowGap) + nodeHeight + rowGap
      _ = (a.2 + 1) * (nodeHeight + rowGap) := by rw [Nat.succ_mul, Nat.add_assoc]
      _ ≤ b.2 * (nodeHeight + rowGap) := Nat.mul_le_mul_right _ hlt
  · intro a b hlt x hx y hy
    obtain ⟨i, _, rfl⟩ := List.mem_map.mp hx
    obtain ⟨j, _, rfl⟩ := List.mem_map.mp hy
    refine Or.inl ?_
    show a.2 * (nodeWidth + columnGap) + nodeWidth + columnGap ≤ b.2 * (nodeWidth + columnGap)
    calc a.2 * (nodeWidth + columnGap) + nodeWidth + columnGap
      _ = (a.2 + 1) * (nodeWidth + columnGap) := by rw [Nat.succ_mul, Nat.add_assoc]
      _ ≤ b.2 * (nodeWidth + columnGap) := Nat.mul_le_mul_right _ hlt

theorem le_foldl_max (xs : List Nat) (start : Nat) : start ≤ xs.foldl max start ∧ ∀ x ∈ xs, x ≤ xs.foldl max start := by
  induction xs generalizing start with
  | nil => exact ⟨Nat.le_refl _, fun x hx => absurd hx List.not_mem_nil⟩
  | cons x xs ih =>
      obtain ⟨hstart, hmem⟩ := ih (max start x)
      refine ⟨Nat.le_trans (Nat.le_max_left ..) hstart, fun y hy => ?_⟩
      rcases List.mem_cons.mp hy with rfl | hy
      · exact Nat.le_trans (Nat.le_max_right ..) hstart
      · exact hmem y hy

theorem mem_graphSize {placed : List PlacedTask} {item : PlacedTask} (h : item ∈ placed) :
    item.x + nodeWidth ≤ (graphSize placed).width ∧ item.y + nodeHeight ≤ (graphSize placed).height := by
  unfold graphSize
  rw [if_neg (by simpa using List.ne_nil_of_mem h)]
  exact ⟨Nat.add_le_add_right ((le_foldl_max _ 0).2 _ (List.mem_map_of_mem h)) _,
    Nat.add_le_add_right ((le_foldl_max _ 0).2 _ (List.mem_map_of_mem h)) _⟩

end Grid

/-! ## Columns -/

section Columns

variable {α : Type}

/-- The number of a level once the holes are gone. -/
def column (layers : List (Option (List α))) (k : Nat) : Nat := ((layers.take k).filterMap id).length

theorem getElem?_column {layers : List (Option (List α))} {k : Nat} {layer : List α} (h : layers[k]? = some (some layer)) :
    (layers.filterMap id)[column layers k]? = some layer := by
  obtain ⟨hk, hget⟩ := List.getElem?_eq_some_iff.mp h
  have hsplit : layers.filterMap id = (layers.take k).filterMap id ++ layer :: (layers.drop (k + 1)).filterMap id := by
    conv => lhs; rw [← List.take_append_drop k layers, List.drop_eq_getElem_cons hk, hget, List.filterMap_append]
    rfl
  rw [hsplit, column, List.getElem?_append_right (Nat.le_refl _), Nat.sub_self]
  rfl

theorem column_lt {layers : List (Option (List α))} {j k : Nat} {layer : List α} (h : layers[j]? = some (some layer))
    (hlt : j < k) : column layers j < column layers k := by
  have hnext : column layers (j + 1) = column layers j + 1 := by
    unfold column
    rw [List.take_add_one, h, List.filterMap_append, List.length_append]
    rfl
  have hmono : column layers (j + 1) ≤ column layers k :=
    ((List.take_sublist_take_left hlt).filterMap id).length_le
  omega

/-- The level of an item is not a hole. -/
theorem exists_level {level : α → Nat} {items : List α} {a : α} (ha : a ∈ items) :
    ∃ layer, (arrange level items)[level a]? = some (some layer) ∧ a ∈ layer := by
  have hrow : a ∈ row (arrange level items) (level a) := by
    rw [row_arrange]
    exact List.mem_filter.mpr ⟨ha, decide_eq_true rfl⟩
  unfold row at hrow
  cases hlayer : (arrange level items)[level a]? with
  | none =>
      rw [hlayer] at hrow
      exact absurd hrow List.not_mem_nil
  | some layer =>
      cases layer with
      | none =>
          rw [hlayer] at hrow
          exact absurd hrow List.not_mem_nil
      | some layer =>
          rw [hlayer] at hrow
          exact ⟨layer, rfl, hrow⟩

end Columns

/-! ## Arrows -/

section Arrows

variable {placed : List PlacedTask}

theorem mem_edgesFor {edge : Edge} : edge ∈ edgesFor placed ↔
    ∃ item ∈ placed, item.task.id = edge.task ∧ edge.dependency ∈ item.task.dependencies ∧
      edge.dependency ∈ placed.map fun item => item.task.id := by
  unfold edgesFor
  rw [List.mem_flatMap]
  refine exists_congr fun item => and_congr_right fun _ => ?_
  rw [List.mem_map]
  constructor
  · rintro ⟨dependency, hmem, rfl⟩
    obtain ⟨hdependency, hplaced⟩ := List.mem_filter.mp hmem
    exact ⟨rfl, hdependency, of_decide_eq_true hplaced⟩
  · rintro ⟨htask, hdependency, hplaced⟩
    refine ⟨edge.dependency, List.mem_filter.mpr ⟨hdependency, decide_eq_true hplaced⟩, ?_⟩
    rw [htask]

theorem mem_of_placedById {id : String} {item : PlacedTask} (h : (placedById placed).get? id = some item) :
    item ∈ placed ∧ item.task.id = id := by
  obtain ⟨other, hother, heq⟩ := List.mem_map.mp (Dict.mem_of_get?_ofItems h)
  cases heq
  exact ⟨hother, rfl⟩

variable (hnodup : (placed.map fun item => item.task.id).Nodup)
include hnodup

theorem placedById_of_mem {item : PlacedTask} (h : item ∈ placed) :
    (placedById placed).get? item.task.id = some item := by
  refine Dict.get?_ofItems ?_ (List.mem_map.mpr ⟨item, h, rfl⟩)
  rw [List.map_map]
  exact hnodup

theorem drawEdge_of_mem {start finish : PlacedTask} (hstart : start ∈ placed) (hfinish : finish ∈ placed) :
    drawEdge placed { dependency := start.task.id, task := finish.task.id } = some (arrow start finish) := by
  simp only [drawEdge, placedById_of_mem hnodup hstart, placedById_of_mem hnodup hfinish]

/-- **No edge is without its arrow.** -/
theorem arrows_map_edge : (arrows placed).map Arrow.edge = edgesFor placed := by
  unfold arrows
  rw [List.map_filterMap]
  conv => rhs; rw [← List.filterMap_some (l := edgesFor placed)]
  refine List.filterMap_congr fun edge hedge => ?_
  obtain ⟨finish, hfinish, htask, -, hplaced⟩ := mem_edgesFor.mp hedge
  obtain ⟨start, hstart, hdependency⟩ := List.mem_map.mp hplaced
  have heq : edge = { dependency := start.task.id, task := finish.task.id } := by rw [hdependency, htask]
  rw [heq, drawEdge_of_mem hnodup hstart hfinish]
  rfl

omit hnodup in
theorem exists_of_mem_arrows {a : Arrow} (h : a ∈ arrows placed) :
    ∃ start ∈ placed, ∃ finish ∈ placed, a = arrow start finish := by
  obtain ⟨edge, -, hdraw⟩ := List.mem_filterMap.mp h
  unfold drawEdge at hdraw
  split at hdraw
  · next start finish hstart hfinish =>
    cases hdraw
    exact ⟨start, (mem_of_placedById hstart).1, finish, (mem_of_placedById hfinish).1, rfl⟩
  · cases hdraw

end Arrows

/-! ## The drawing -/

section Drawing

variable {tasks : List TaskView} (hnodup : (tasks.map TaskView.id).Nodup)
include hnodup

theorem mem_edges {task : TaskView} (htask : task ∈ tasks) {dependency : String} :
    dependency ∈ edges tasks task.id ↔ dependency ∈ task.dependencies ∧ dependency ∈ tasks.map TaskView.id := by
  simp only [edges, byId_of_mem hnodup htask, List.mem_filter, decide_eq_true_iff]

omit hnodup in
/-- Below a task there are longer chains than below what it depends on. -/
theorem layer_lt {task dependency : TaskView} {j k : Nat} (htask : Layer (edges tasks) (k + 1) task.id)
    (hdependency : Layer (edges tasks) (j + 1) dependency.id) (hedge : dependency.id ∈ edges tasks task.id) : j < k := by
  by_contra hle
  have hchain : HasChain (edges tasks) (j + 2) task.id := HasChain.succ.mpr ⟨dependency.id, hedge, hdependency.1⟩
  exact htask.2 (hchain.mono (by omega))

variable {layers : List (List TaskView)} (hperm : layers.flatten.Perm tasks)
include hperm

theorem placed_nodup : ((placeTasks layers).map fun item => item.task.id).Nodup := by
  have hids : ((placeTasks layers).map fun item => item.task.id) = layers.flatten.map TaskView.id := by
    rw [← map_task_placeTasks, List.map_map]
    rfl
  rw [hids]
  exact (hperm.map TaskView.id).nodup_iff.mpr hnodup

omit hnodup in
theorem mem_map_id {id : String} :
    (id ∈ (placeTasks layers).map fun item => item.task.id) ↔ id ∈ tasks.map TaskView.id := by
  have hids : ((placeTasks layers).map fun item => item.task.id) = layers.flatten.map TaskView.id := by
    rw [← map_task_placeTasks, List.map_map]
    rfl
  rw [hids]
  exact (hperm.map TaskView.id).mem_iff

omit hnodup in
theorem mem_of_placed {item : PlacedTask} (h : item ∈ placeTasks layers) : item.task ∈ tasks :=
  hperm.mem_iff.mp (map_task_placeTasks ▸ List.mem_map_of_mem h)

omit hnodup in
theorem exists_placed {task : TaskView} (h : task ∈ tasks) : ∃ item ∈ placeTasks layers, item.task = task :=
  List.mem_map.mp (map_task_placeTasks ▸ hperm.mem_iff.mpr h)

omit hnodup in
theorem edgesFor_iff {dependency id : String} : { dependency, task := id } ∈ edgesFor (placeTasks layers) ↔
    ∃ task ∈ tasks, task.id = id ∧ dependency ∈ task.dependencies ∧ dependency ∈ tasks.map TaskView.id := by
  rw [mem_edgesFor]
  constructor
  · rintro ⟨item, hitem, hid, hdependency, hplaced⟩
    exact ⟨item.task, mem_of_placed hperm hitem, hid, hdependency, (mem_map_id hperm).mp hplaced⟩
  · rintro ⟨task, htask, hid, hdependency, hmem⟩
    obtain ⟨item, hitem, rfl⟩ := exists_placed hperm htask
    exact ⟨item, hitem, hid, hdependency, (mem_map_id hperm).mpr hmem⟩

/-- An arrow is a dependency. -/
theorem edge_of_mem_arrows {start finish : PlacedTask} (h : arrow start finish ∈ arrows (placeTasks layers)) :
    start.task.id ∈ edges tasks finish.task.id := by
  have hedge : (arrow start finish).edge ∈ edgesFor (placeTasks layers) := by
    rw [← arrows_map_edge (placed_nodup hnodup hperm)]
    exact List.mem_map_of_mem h
  obtain ⟨task, htask, hid, hmem⟩ := (edgesFor_iff hperm).mp hedge
  rw [show finish.task.id = task.id from hid.symm]
  exact (mem_edges hnodup htask).mpr hmem

/-- Where all arrows point to the right, nothing is below itself: it would stand to the right of itself. -/
theorem acyclic_of_rightward (h : ∀ a ∈ arrows (placeTasks layers), a.x1 < a.x2) : Acyclic tasks := by
  have hplaced := placed_nodup hnodup hperm
  have hstep : ∀ d n, d ∈ edges tasks n → ∃ start ∈ placeTasks layers, ∃ finish ∈ placeTasks layers,
      start.task.id = d ∧ finish.task.id = n ∧ start.x < finish.x := by
    intro d n hd
    unfold edges at hd
    split at hd
    · next task hfind =>
      obtain ⟨htask, rfl⟩ := mem_of_byId hfind
      obtain ⟨hdependency, hmem⟩ := List.mem_filter.mp hd
      obtain ⟨dependency, hknown, rfl⟩ := List.mem_map.mp (of_decide_eq_true hmem)
      obtain ⟨start, hstart, rfl⟩ := exists_placed hperm hknown
      obtain ⟨finish, hfinish, rfl⟩ := exists_placed hperm htask
      have harrow : arrow start finish ∈ arrows (placeTasks layers) := by
        refine List.mem_filterMap.mpr ⟨_, ?_, drawEdge_of_mem hplaced hstart hfinish⟩
        exact (edgesFor_iff hperm).mpr ⟨finish.task, htask, rfl, hdependency, List.mem_map_of_mem hknown⟩
      refine ⟨start, hstart, finish, hfinish, rfl, rfl, ?_⟩
      exact Nat.lt_of_le_of_lt (Nat.le_add_right ..) (h _ harrow)
    · cases hd
  intro id hcycle
  have hright : ∀ n, Relation.TransGen (fun d n => d ∈ edges tasks n) id n →
      ∃ start ∈ placeTasks layers, ∃ finish ∈ placeTasks layers,
        start.task.id = id ∧ finish.task.id = n ∧ start.x < finish.x := by
    intro n hbelow
    induction hbelow with
    | single hd => exact hstep id _ hd
    | tail _ hd ih =>
        obtain ⟨start, hstart, between, hbetween, hid, hn, hlt⟩ := ih
        obtain ⟨again, hagain, finish, hfinish, hsame, hm, hlt'⟩ := hstep _ _ hd
        have heq : again = between := List.inj_on_of_nodup_map hplaced hagain hbetween (hsame.trans hn.symm)
        subst heq
        exact ⟨start, hstart, finish, hfinish, hid, hm, Nat.lt_trans hlt hlt'⟩
  obtain ⟨start, hstart, finish, hfinish, hid, hid', hlt⟩ := hright id hcycle
  have heq : start = finish := List.inj_on_of_nodup_map hplaced hstart hfinish (hid.trans hid'.symm)
  subst heq
  exact Nat.lt_irrefl _ hlt

omit hperm in
/-- A task stands in the column of its level. -/
theorem placed_x {level : TaskView → Nat} {item : PlacedTask}
    (h : item ∈ placeTasks ((arrange level tasks).filterMap id)) :
    item.x = column (arrange level tasks) (level item.task) * (nodeWidth + columnGap) := by
  have hperm := arrange_perm level tasks
  have htask := mem_of_placed hperm h
  obtain ⟨layer, hlayer, hmem⟩ := exists_level htask
  obtain ⟨row, hrow, hget⟩ := List.mem_iff_getElem.mp hmem
  have hplaced : place (column (arrange level tasks) (level item.task)) row item.task ∈
      placeTasks ((arrange level tasks).filterMap id) :=
    mem_placeTasks.mpr ⟨_, layer, getElem?_column hlayer, row, item.task, List.getElem?_eq_some_iff.mpr ⟨hrow, hget⟩, rfl⟩
  have heq := List.inj_on_of_nodup_map (placed_nodup hnodup hperm) h hplaced rfl
  exact congrArg PlacedTask.x heq

end Drawing

/-- **The drawing is legible**: `layerTasks` answers, and in what `TaskGraph` draws of its layers every task has one box,
the boxes stand clear of each other in the picture, and every dependency on a task of the plan has its arrow; the arrows
all point to the right exactly if the plan has no cycle. -/
theorem drawing_legible (tasks : List TaskView) (hnodup : (tasks.map TaskView.id).Nodup) :
    ∃ layers, (∀ fuel, tasks.length < fuel → layerTasks fuel tasks = some layers) ∧
      Legible tasks (placeTasks layers) := by
  obtain ⟨depth, hdepth⟩ := exists_depths tasks (fun _ ht => ht) fun _ => none
  let level : TaskView → Nat := fun task => (depth task.id).getD 0
  have hperm := arrange_perm level tasks
  refine ⟨(arrange level tasks).filterMap id, fun fuel hfuel => ?_, ?_⟩
  · rw [layerTasks, hdepth fuel hfuel]
    rfl
  constructor
  · rwa [map_task_placeTasks]
  · exact placeTasks_apart
  · exact fun item hitem => mem_graphSize hitem
  · exact fun dependency id => edgesFor_iff hperm
  · exact arrows_map_edge (placed_nodup hnodup hperm)
  · exact fun a ha => exists_of_mem_arrows ha
  · refine ⟨fun hacyclic a ha => ?_, acyclic_of_rightward hnodup hperm⟩
    obtain ⟨start, hstart, finish, hfinish, rfl⟩ := exists_of_mem_arrows ha
    obtain ⟨hright, _, hfound⟩ := depths_layer hnodup hacyclic (fun _ ht => ht)
      (fun _ _ hsome => absurd hsome (Option.some_ne_none _).symm) (hdepth (tasks.length + 1) (Nat.lt_succ_self _))
    have hlayer : ∀ task ∈ tasks, Layer (edges tasks) (level task + 1) task.id := by
      intro task htask
      obtain ⟨value, hvalue⟩ := Option.ne_none_iff_exists'.mp (hfound task htask)
      show Layer (edges tasks) ((depth task.id).getD 0 + 1) task.id
      rw [hvalue]
      exact hright _ _ hvalue
    have hlt : level start.task < level finish.task :=
      layer_lt (hlayer _ (mem_of_placed hperm hfinish)) (hlayer _ (mem_of_placed hperm hstart))
        (edge_of_mem_arrows hnodup hperm ha)
    obtain ⟨layer, hget, _⟩ := exists_level (mem_of_placed hperm hstart)
    have hcolumn := column_lt hget hlt
    show start.x + nodeWidth < finish.x
    rw [placed_x hnodup hstart, placed_x hnodup hfinish]
    have hgap := Nat.mul_le_mul_right (nodeWidth + columnGap) hcolumn
    unfold nodeWidth columnGap at hgap ⊢
    omega

theorem drawing_legible_diamond :
    ∃ layers, (∀ fuel, diamond.length < fuel → layerTasks fuel diamond = some layers) ∧
      Legible diamond (placeTasks layers) :=
  drawing_legible diamond (by decide)

end AtlasFlow.PlanScreen
