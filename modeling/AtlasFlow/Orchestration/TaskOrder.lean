import AtlasFlow.Graph.Order
import AtlasFlow.Orchestration.TaskGraph

/-!
# What the checks of a task graph decide

`Validate` answers exactly whether a plan's tasks form a graph that can be executed
(`valid_iff`), as long as no id is repeated; `InDependencyOrder` finds an order for exactly the graphs
that `Validate` accepts (`inDependencyOrder_isOk_iff`).
-/

namespace AtlasFlow

/-- `TaskGraphException`. -/
structure TaskGraphException where
  message : String
  deriving DecidableEq, Repr

namespace TaskGraph

/-- Task `a` names `b` among its dependencies. -/
def DependsOn (tasks : List PlanTask) (a b : TaskId) : Prop :=
  ∃ task ∈ tasks, task.id = a ∧ b ∈ task.dependencies

/-- Every dependency names a task of the plan. -/
def Closed (tasks : List PlanTask) : Prop :=
  ∀ task ∈ tasks, ∀ d ∈ task.dependencies, d ∈ tasks.map PlanTask.id

/-- No task depends on itself, directly or through others. -/
def Acyclic (tasks : List PlanTask) : Prop :=
  ∀ id, ¬ Relation.TransGen (DependsOn tasks) id id

variable {tasks : List PlanTask}

theorem unknownDependencies_eq_nil : unknownDependencies tasks = [] ↔ Closed tasks := by
  simp only [unknownDependencies, List.flatMap_eq_nil_iff, List.map_eq_nil_iff,
    List.filter_eq_nil_iff, decide_eq_true_eq, not_not, Closed]

/-- Between tasks with distinct ids that name only one another, the edges of the search are the
dependencies. -/
theorem below_iff (hnodup : (tasks.map PlanTask.id).Nodup) (hclosed : Closed tasks) {d n : TaskId} :
    Graph.Below (edges tasks) (· ∈ tasks.map PlanTask.id) d n ↔ DependsOn tasks n d := by
  constructor
  · rintro ⟨hd, _⟩
    unfold edges at hd
    split at hd
    · next task htask =>
        exact ⟨task, List.mem_of_find?_eq_some htask,
          by simpa using List.find?_some htask, hd⟩
    · exact absurd hd List.not_mem_nil
  · rintro ⟨task, htask, rfl, hd⟩
    exact ⟨by rwa [edges_of_mem hnodup htask], hclosed task htask d hd⟩

theorem findCycle_eq_none_iff (hnodup : (tasks.map PlanTask.id).Nodup) (hclosed : Closed tasks) :
    findCycle tasks = none ↔ Acyclic tasks := by
  have hexact : findCycle tasks = none ↔ ∀ id, ¬ Relation.TransGen
      (Graph.Below (edges tasks) (· ∈ tasks.map PlanTask.id)) id id :=
    Graph.findFrom_eq_none_iff (.fresh fun _ => rfl) (Graph.fresh_ne_inProgress fun _ => rfl)
      (fun _ => .rfl) (Nat.le_of_eq (List.length_map PlanTask.id))
  have hswap : Graph.Below (edges tasks) (· ∈ tasks.map PlanTask.id) =
      Function.swap (DependsOn tasks) :=
    funext fun d => funext fun n => propext (below_iff hnodup hclosed)
  rw [hexact, hswap]
  refine forall_congr' fun id => not_congr ?_
  exact Relation.transGen_swap

/-- **What `Validate` accepts**. -/
theorem valid_iff :
    Valid tasks ↔ (tasks.map PlanTask.id).Nodup ∧ Closed tasks ∧ Acyclic tasks := by
  constructor
  · intro h
    have hclosed : Closed tasks := fun task htask d hd => h.known htask hd
    exact ⟨h.nodup, hclosed, (findCycle_eq_none_iff h.nodup hclosed).mp h.findCycle_eq_none⟩
  · rintro ⟨hnodup, hclosed, hacyclic⟩
    unfold Valid validate
    rw [if_pos hnodup, (findCycle_eq_none_iff hnodup hclosed).mpr hacyclic,
      unknownDependencies_eq_nil.mpr hclosed]

/-- `Validate` answers when no id is repeated, and only then. -/
theorem validate_isOk_iff :
    (∃ errors, validate tasks = .ok errors) ↔ (tasks.map PlanTask.id).Nodup := by
  constructor
  · rintro ⟨errors, h⟩
    unfold validate at h
    split at h
    · assumption
    · cases h
  · intro h
    unfold validate
    rw [if_pos h]
    split <;> exact ⟨_, rfl⟩

/-- **Validation is total and exact on plans without a repeated id, and on no others**: on those
`ToDictionary` throws. -/
theorem validate_exact_iff :
    (∃ errors, validate tasks = .ok errors ∧
        (errors = [] ↔ (tasks.map PlanTask.id).Nodup ∧ Closed tasks ∧ Acyclic tasks)) ↔
      (tasks.map PlanTask.id).Nodup := by
  constructor
  · rintro ⟨errors, h, _⟩
    exact validate_isOk_iff.mp ⟨errors, h⟩
  · intro h
    obtain ⟨errors, herrors⟩ := validate_isOk_iff.mpr h
    refine ⟨errors, herrors, ?_⟩
    rw [← valid_iff, Valid, herrors, Except.ok.injEq]

/-- Two tasks under one id. -/
def twins : List PlanTask :=
  [{ id := ⟨"a"⟩, objective := "one", risk := .low, isParallelizable := true },
   { id := ⟨"a"⟩, objective := "two", risk := .low, isParallelizable := true }]

theorem validate_twins_throws :
    ¬ ∃ errors, validate twins = .ok errors ∧
      (errors = [] ↔ (twins.map PlanTask.id).Nodup ∧ Closed twins ∧ Acyclic twins) :=
  fun ⟨_, h, _⟩ => absurd (validate_isOk_iff.mp ⟨_, h⟩) (by decide)

/-! ## Ordering -/

/-- `InDependencyOrder`. -/
def inDependencyOrder (tasks : List PlanTask) : Except TaskGraphException (List PlanTask) :=
  match Graph.order PlanTask.id PlanTask.dependencies tasks with
  | some ordered => .ok ordered
  | none => .error ⟨"Cannot resolve execution order: cycle or missing dependency"⟩

theorem inDependencyOrder_eq_ok {ordered : List PlanTask} :
    inDependencyOrder tasks = .ok ordered ↔
      Graph.order PlanTask.id PlanTask.dependencies tasks = some ordered := by
  unfold inDependencyOrder
  split <;> simp_all

/-- **An order exists for exactly the graphs that pass validation**. -/
theorem inDependencyOrder_isOk_iff (hnodup : (tasks.map PlanTask.id).Nodup) :
    (∃ ordered, inDependencyOrder tasks = .ok ordered) ↔ Valid tasks := by
  simp only [inDependencyOrder_eq_ok]
  rw [Graph.order_isSome_iff fun task htask => edges_of_mem hnodup htask]
  constructor
  · rintro ⟨hclosed, hacc⟩
    refine valid_iff.mpr ⟨hnodup, hclosed, (findCycle_eq_none_iff hnodup hclosed).mp ?_⟩
    refine (Graph.findFrom_eq_none_iff_acc (.fresh fun _ => rfl)
      (Graph.fresh_ne_inProgress fun _ => rfl) (fun _ => .rfl)
      (Nat.le_of_eq (List.length_map PlanTask.id)) fun id hid d hd => ?_).mpr fun id hid => ?_
    · obtain ⟨task, htask, rfl⟩ := List.mem_map.mp hid
      rw [edges_of_mem hnodup htask] at hd
      exact hclosed task htask d hd
    · obtain ⟨task, htask, rfl⟩ := List.mem_map.mp hid
      exact hacc task htask
  · intro h
    exact ⟨fun task htask d hd => h.known htask hd,
      fun task htask => h.acc (List.mem_map_of_mem htask)⟩

/-- **Ordering and validation agree**: a plan without a repeated id is put in an order, with every task
after its dependencies, if validation finds nothing wrong with it, and is refused otherwise. -/
theorem inDependencyOrder_agrees (hnodup : (tasks.map PlanTask.id).Nodup) :
    (validate tasks = .ok [] → ∃ ordered, inDependencyOrder tasks = .ok ordered ∧
      ordered.Perm tasks ∧
      ∀ before task after, ordered = before ++ task :: after →
        ∀ d ∈ task.dependencies, d ∈ before.map PlanTask.id) ∧
    (validate tasks ≠ .ok [] → inDependencyOrder tasks =
      .error ⟨"Cannot resolve execution order: cycle or missing dependency"⟩) := by
  constructor
  · intro h
    obtain ⟨ordered, hordered⟩ := (inDependencyOrder_isOk_iff hnodup).mpr h
    have horder := inDependencyOrder_eq_ok.mp hordered
    exact ⟨ordered, hordered, Graph.order_perm horder, Graph.order_inOrder horder⟩
  · intro h
    unfold inDependencyOrder
    split
    · next ordered horder =>
        exact absurd ((inDependencyOrder_isOk_iff hnodup).mp
          ⟨ordered, inDependencyOrder_eq_ok.mpr horder⟩) h
    · rfl

/-- A plan whose tasks are listed the wrong way round. -/
def reversed : List PlanTask :=
  [{ id := ⟨"b"⟩, objective := "two", risk := .low, isParallelizable := true,
     dependencies := [⟨"a"⟩] },
   { id := ⟨"a"⟩, objective := "one", risk := .low, isParallelizable := true }]

theorem inDependencyOrder_reversed :
    (∃ ordered, inDependencyOrder reversed = .ok ordered ∧ ordered.Perm reversed ∧
      ∀ before task after, ordered = before ++ task :: after →
        ∀ d ∈ task.dependencies, d ∈ before.map PlanTask.id) :=
  (inDependencyOrder_agrees (by decide)).1 (by decide)

end TaskGraph

end AtlasFlow
