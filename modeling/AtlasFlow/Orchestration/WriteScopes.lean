import AtlasFlow.Orchestration.TaskOrder

/-!
# Which tasks may write the same place

Two tasks that neither depends on the other, directly or through others, can run at once; they may
write the same place when a path of one contains a path of the other. `FindWriteScopeConflicts` asks
something else about a pair: whether one names the other as a dependency, and whether two paths share
their first component. `conflictsAreReal_iff` says for which plans the answers are the same.
-/

namespace AtlasFlow

namespace TaskGraph

/-! ## Paths -/

/-- The project root: nothing is left between the slashes. -/
def IsRoot (path : String) : Prop := trim path.toList = []

instance (path : String) : Decidable (IsRoot path) := inferInstanceAs (Decidable (_ = _))

/-- `a` equals `b` or is a directory above it, component by component. -/
def Contains (a b : String) : Prop := IsRoot a ∨ (components a).IsPrefix (components b)

/-- Both lie under one directory of the project root, or are it. -/
def SharesTop (a b : String) : Prop :=
  ¬ IsRoot a ∧ ¬ IsRoot b ∧ (components a).head? = (components b).head?

instance (a b : String) : Decidable (Contains a b) := inferInstanceAs (Decidable (_ ∨ _))

instance (a b : String) : Decidable (SharesTop a b) := inferInstanceAs (Decidable (_ ∧ _ ∧ _))

theorem components_ne_nil (path : String) : components path ≠ [] :=
  List.splitOnP_ne_nil _ _

theorem components_of_isRoot {path : String} (h : IsRoot path) : components path = [[]] := by
  rw [components, h]
  rfl

/-- What is left of a path begins with no slash, so its first component is not empty. -/
theorem components_of_not_isRoot {path : String} (h : ¬ IsRoot path) :
    ∃ c cs rest, components path = (c :: cs) :: rest := by
  obtain ⟨c, cs, hcs⟩ := List.exists_cons_of_ne_nil h
  have hc : c ≠ '/' := by
    have hpre : (c :: cs).IsPrefix (path.toList.dropWhile (· = '/')) := by
      rw [← hcs]
      exact List.rdropWhile_prefix _ _
    obtain ⟨rest, hrest⟩ := hpre
    have hdrop : path.toList.dropWhile (· = '/') ≠ [] := by rw [← hrest]; simp
    have hhead := List.head_dropWhile_not (· = '/') hdrop
    simp only [← hrest, List.cons_append, List.head_cons, decide_eq_false_iff_not] at hhead
    exact hhead
  obtain ⟨first, rest, hsplit⟩ :=
    List.exists_cons_of_ne_nil (List.splitOnP_ne_nil (· == '/') cs)
  refine ⟨c, first, rest, ?_⟩
  rw [components, hcs, List.splitOn_eq_splitOnP, List.splitOnP_cons_eq_if_modifyHead, hsplit]
  simp [hc]

theorem common_nil_right (l : List (List Char)) : common l [] = [] := by
  cases l <;> rfl

/-- Two paths share something exactly when they share their first component. -/
theorem length_sharedPrefix_pos {a b : String} : (sharedPrefix a b).length > 0 ↔ SharesTop a b := by
  have hlength : (sharedPrefix a b).length > 0 ↔
      ['/'].intercalate (common (components a) (components b)) ≠ [] := by
    rw [sharedPrefix, String.length_ofList]
    exact List.length_pos_iff
  rw [hlength, SharesTop]
  by_cases ha : IsRoot a
  · obtain ⟨r, rest, hb⟩ := List.exists_cons_of_ne_nil (components_ne_nil b)
    rw [components_of_isRoot ha, hb, common]
    by_cases hr : [] = r <;> simp [hr, ha, common]
  by_cases hb : IsRoot b
  · obtain ⟨l, rest, ha'⟩ := List.exists_cons_of_ne_nil (components_ne_nil a)
    rw [components_of_isRoot hb, ha', common, common_nil_right]
    by_cases hl : l = [] <;> simp [hl, hb]
  obtain ⟨c, cs, rest, hca⟩ := components_of_not_isRoot ha
  obtain ⟨d, ds, rest', hdb⟩ := components_of_not_isRoot hb
  rw [hca, hdb, common]
  by_cases heq : c :: cs = d :: ds
  · rw [if_pos heq]
    cases hcommon : common rest rest' <;> simp [ha, hb, heq, List.intercalate, List.intersperse]
  · rw [if_neg heq]
    simp [ha, hb, heq]

theorem SharesTop.symm {a b : String} (h : SharesTop a b) : SharesTop b a :=
  ⟨h.2.1, h.1, h.2.2.symm⟩

/-- One path below the other lies under the same top directory, unless one of them is the root. -/
theorem SharesTop.of_contains {a b : String} (h : Contains a b) (ha : ¬ IsRoot a)
    (hb : ¬ IsRoot b) : SharesTop a b := by
  obtain hroot | ⟨rest, hrest⟩ := h
  · exact absurd hroot ha
  · refine ⟨ha, hb, ?_⟩
    rw [← hrest, List.head?_append_of_ne_nil _ (components_ne_nil a)]

/-! ## Pairs of tasks -/

/-- Some paths of the two tasks lie under one top directory. -/
def ShareTop (first second : PlanTask) : Prop :=
  ∃ a ∈ first.writeScope, ∃ b ∈ second.writeScope, SharesTop a.value b.value

/-- One task writes, the other writes everywhere. -/
def WritesRoot (first second : PlanTask) : Prop :=
  ∃ a ∈ first.writeScope, ∃ b ∈ second.writeScope, IsRoot a.value ∨ IsRoot b.value

/-- Some path of one task contains some path of the other. -/
def MayWriteSamePlace (first second : PlanTask) : Prop :=
  ∃ a ∈ first.writeScope, ∃ b ∈ second.writeScope,
    Contains a.value b.value ∨ Contains b.value a.value

instance (first second : PlanTask) : Decidable (ShareTop first second) :=
  inferInstanceAs (Decidable (∃ a ∈ first.writeScope, ∃ b ∈ second.writeScope, _))

instance (first second : PlanTask) : Decidable (MayWriteSamePlace first second) :=
  inferInstanceAs (Decidable (∃ a ∈ first.writeScope, ∃ b ∈ second.writeScope, _))

/-- One task depends on the other, directly or through others. -/
def Related (tasks : List PlanTask) (first second : PlanTask) : Prop :=
  Relation.TransGen (DependsOn tasks) first.id second.id ∨
    Relation.TransGen (DependsOn tasks) second.id first.id

/-- One task names the other among its dependencies. -/
def Names (first second : PlanTask) : Prop :=
  second.id ∈ first.dependencies ∨ first.id ∈ second.dependencies

/-- What a conflict between two tasks is: they can run at once and may write the same place. -/
def Collide (tasks : List PlanTask) (first second : PlanTask) : Prop :=
  ¬ Related tasks first second ∧ MayWriteSamePlace first second

theorem firstOverlap_isSome {first second : PlanTask} :
    (firstOverlap first second).isSome ↔ ShareTop first second := by
  simp only [firstOverlap, List.findSome?_isSome_iff, ShareTop, ← length_sharedPrefix_pos]
  constructor
  · rintro ⟨a, ha, b, hb, h⟩
    refine ⟨a, ha, b, hb, ?_⟩
    by_contra hnone
    simp [hnone] at h
  · rintro ⟨a, ha, b, hb, h⟩
    exact ⟨a, ha, b, hb, by simp [h]⟩

/-- What the code asks about a pair. -/
theorem conflict_isSome {first second : PlanTask} :
    (conflict first second).isSome ↔ ¬ Names first second ∧ ShareTop first second := by
  rw [← firstOverlap_isSome, conflict]
  split
  · next h =>
      have hnames : Names first second := by simpa [Names] using h
      simp [hnames]
  · next h =>
      have hnames : ¬ Names first second := by simpa [Names] using h
      simp [hnames]

theorem MayWriteSamePlace.of_writesRoot {first second : PlanTask} (h : WritesRoot first second) :
    MayWriteSamePlace first second := by
  obtain ⟨a, ha, b, hb, hroot | hroot⟩ := h
  · exact ⟨a, ha, b, hb, .inl (.inl hroot)⟩
  · exact ⟨a, ha, b, hb, .inr (.inl hroot)⟩

theorem MayWriteSamePlace.cases {first second : PlanTask} (h : MayWriteSamePlace first second) :
    WritesRoot first second ∨ ShareTop first second := by
  obtain ⟨a, ha, b, hb, hcontains⟩ := h
  by_cases hroot : IsRoot a.value ∨ IsRoot b.value
  · exact .inl ⟨a, ha, b, hb, hroot⟩
  · push Not at hroot
    refine .inr ⟨a, ha, b, hb, ?_⟩
    rcases hcontains with h | h
    · exact .of_contains h hroot.1 hroot.2
    · exact (SharesTop.of_contains h hroot.2 hroot.1).symm

theorem Related.of_names {tasks : List PlanTask} {first second : PlanTask} (hfirst : first ∈ tasks)
    (hsecond : second ∈ tasks) (h : Names first second) : Related tasks first second := by
  rcases h with h | h
  · exact .inl (.single ⟨first, hfirst, rfl, h⟩)
  · exact .inr (.single ⟨second, hsecond, rfl, h⟩)

/-- Where no task names a dependency, none is related to another. -/
theorem not_related {tasks : List PlanTask} {first second : PlanTask}
    (h : ∀ task ∈ tasks, task.dependencies = []) : ¬ Related tasks first second := by
  have hnone : ∀ a b, ¬ Relation.TransGen (DependsOn tasks) a b := by
    intro a b hab
    obtain ⟨d, ⟨task, htask, _, hd⟩, _⟩ := Relation.TransGen.head'_iff.mp hab
    rw [h task htask] at hd
    exact List.not_mem_nil hd
  rintro (hab | hab) <;> exact hnone _ _ hab

/-! ## Whole plans -/

/-- The pair is reported. -/
def Reported (tasks : List PlanTask) (first second : PlanTask) : Prop :=
  ∃ c ∈ findWriteScopeConflicts tasks, c.first = first.id ∧ c.second = second.id

/-- The pairs of the list, the earlier task first. -/
def Before (tasks : List PlanTask) (first second : PlanTask) : Prop :=
  [first, second].Sublist tasks

/-- The conflicts reported are those there are. -/
def ConflictsAreReal (tasks : List PlanTask) : Prop :=
  ∀ first second, Before tasks first second →
    (Reported tasks first second ↔ Collide tasks first second)

/-- Where the code's question about a pair has the right answer: tasks related through others only
share no top directory, unrelated ones that share one have a path inside another, and unrelated ones
of which one writes the root share one. -/
structure Plain (tasks : List PlanTask) (first second : PlanTask) : Prop where
  indirect : Related tasks first second → ¬ Names first second → ¬ ShareTop first second
  nested : ¬ Related tasks first second → ShareTop first second → MayWriteSamePlace first second
  root : ¬ Related tasks first second → WritesRoot first second → ShareTop first second

theorem exists_conflict {tasks : List PlanTask} {c : WriteScopeConflict}
    (h : c ∈ findWriteScopeConflicts tasks) :
    ∃ first second, Before tasks first second ∧ conflict first second = some c := by
  induction tasks with
  | nil => exact absurd h List.not_mem_nil
  | cons first rest ih =>
      rw [findWriteScopeConflicts, List.mem_append] at h
      rcases h with h | h
      · obtain ⟨second, hsecond, hc⟩ := List.mem_filterMap.mp h
        exact ⟨first, second, .cons_cons first (List.singleton_sublist.mpr hsecond), hc⟩
      · obtain ⟨a, b, hab, hc⟩ := ih h
        exact ⟨a, b, .cons first hab, hc⟩

theorem conflict_mem {tasks : List PlanTask} {first second : PlanTask} {c : WriteScopeConflict}
    (h : Before tasks first second) (hc : conflict first second = some c) :
    c ∈ findWriteScopeConflicts tasks := by
  induction tasks with
  | nil => cases h
  | cons task rest ih =>
      rw [findWriteScopeConflicts, List.mem_append]
      cases h with
      | cons _ h => exact .inr (ih h)
      | cons_cons _ h => exact .inl (List.mem_filterMap.mpr ⟨second, List.singleton_sublist.mp h, hc⟩)

theorem ids_of_conflict {first second : PlanTask} {c : WriteScopeConflict}
    (h : conflict first second = some c) : c.first = first.id ∧ c.second = second.id := by
  unfold conflict at h
  split at h
  · cases h
  · obtain ⟨shared, _, rfl⟩ := Option.map_eq_some_iff.mp h
    exact ⟨rfl, rfl⟩

section Valid

variable {tasks : List PlanTask} (hvalid : Valid tasks)

theorem Before.mem {first second : PlanTask} (h : Before tasks first second) :
    first ∈ tasks ∧ second ∈ tasks :=
  ⟨h.subset List.mem_cons_self, h.subset (List.mem_cons_of_mem _ (List.mem_singleton_self _))⟩

include hvalid

theorem Valid.eq_of_id {a b : PlanTask} (ha : a ∈ tasks) (hb : b ∈ tasks) (h : a.id = b.id) : a = b := by
  have hfind := findTask_of_mem hvalid.nodup ha
  rw [h, findTask_of_mem hvalid.nodup hb] at hfind
  exact (Option.some.inj hfind).symm

/-- A pair is reported exactly when the code's question about it is answered yes. -/
theorem Valid.reported_iff {first second : PlanTask} (h : Before tasks first second) :
    Reported tasks first second ↔ ¬ Names first second ∧ ShareTop first second := by
  rw [← conflict_isSome]
  constructor
  · rintro ⟨c, hc, hfirst, hsecond⟩
    obtain ⟨a, b, hab, hconflict⟩ := exists_conflict hc
    obtain ⟨ha, hb⟩ := ids_of_conflict hconflict
    rw [hvalid.eq_of_id h.mem.1 hab.mem.1 (hfirst.symm.trans ha),
      hvalid.eq_of_id h.mem.2 hab.mem.2 (hsecond.symm.trans hb), hconflict]
    rfl
  · intro hsome
    obtain ⟨c, hc⟩ := Option.isSome_iff_exists.mp hsome
    exact ⟨c, conflict_mem h hc, ids_of_conflict hc⟩

/-- **Exactly the plans whose reported conflicts are the real ones**. -/
theorem Valid.conflictsAreReal_iff :
    ConflictsAreReal tasks ↔ ∀ first second, Before tasks first second → Plain tasks first second := by
  refine forall_congr' fun first => forall_congr' fun second => imp_congr_right fun hbefore => ?_
  rw [hvalid.reported_iff hbefore, Collide]
  have hnames := @Related.of_names tasks first second hbefore.mem.1 hbefore.mem.2
  constructor
  · intro h
    refine ⟨fun hrelated hnames hshare => (h.mp ⟨hnames, hshare⟩).1 hrelated,
      fun hfree hshare => (h.mp ⟨fun hn => hfree (hnames hn), hshare⟩).2,
      fun hfree hroot => (h.mpr ⟨hfree, .of_writesRoot hroot⟩).2⟩
  · intro h
    constructor
    · rintro ⟨hunnamed, hshare⟩
      have hfree : ¬ Related tasks first second := fun hrelated =>
        h.indirect hrelated hunnamed hshare
      exact ⟨hfree, h.nested hfree hshare⟩
    · rintro ⟨hfree, hsame⟩
      refine ⟨fun hn => hfree (hnames hn), ?_⟩
      rcases hsame.cases with hroot | hshare
      · exact h.root hfree hroot
      · exact hshare

end Valid

end TaskGraph

end AtlasFlow
