import Mathlib.Logic.Function.Basic
import AtlasFlow.Concurrency.Promises
import AtlasFlow.Data.Entries
import AtlasFlow.Domain.Planning

/-!
# The plan view

`PlanViewModel`: a list of plans, a selection, and three operations that ask `IPlanService` and go on when it answers.
All runs on the UI thread, so a step is what happens between two awaits: an operation begins, the selection changes, or
an answer comes, in any order.

The list should hold the plans of the current goal, each once, with the selection among them, and a lock should replace
the plan that was locked. None of the operations looks, when its answer comes, whether the goal, the list or the
selection is still the one that it began with. `planView_keeps_iff` says which runs come out right.
-/

namespace AtlasFlow.PlanViewModel

open Concurrency (guard_eq_some)

/-- A plan as the view holds it. Records are equal if their fields are, and of the tasks this is the list object. -/
structure Snapshot extends Plan where
  list : Nat
  deriving DecidableEq, Repr

/-- What is awaited, and what it was asked with. -/
inductive Call
  | list (goal : GoalId)
  | create (goal : GoalId)
  | lock (plan : PlanId)
  deriving DecidableEq, Repr

structure State where
  goal : Option GoalId := none
  plans : List Snapshot := []
  selectedPlan : Option Snapshot := none
  isBusy : Bool := false
  errorMessage : Option String := none
  /-- The calls that have no answer yet, by their numbers. -/
  calls : Nat → Option Call := fun _ => none
  next : Nat := 0

inductive Event
  | load (goal : Option GoalId)
  | createDraft
  | lockSelected
  | select (plan : Option Snapshot)
  | listed (call : Nat) (plans : List Snapshot)
  | created (call : Nat) (plan : Snapshot)
  | locked (call : Nat) (plan : Snapshot)
  | fails (call : Nat) (message : String)
  | cancelled (call : Nat)
  deriving DecidableEq, Repr

namespace State

variable (s : State)

/-- An operation goes to its await. -/
def await (call : Call) : State :=
  { s with isBusy := true, calls := Function.update s.calls s.next (some call), next := s.next + 1 }

/-- An operation ends, with its `finally`. -/
def finish (call : Nat) : State := { s with isBusy := false, calls := Function.update s.calls call none }

end State

/-! ## The operations -/

/-- `LoadAsync`, up to its await. -/
def load (goal : Option GoalId) (s : State) : State :=
  let s := { s with goal, plans := [], selectedPlan := none, errorMessage := none }
  match goal with
  | none => s
  | some id => s.await (.list id)

/-- `CreateDraftAsync`, up to its await. -/
def createDraft (s : State) : State :=
  match s.goal with
  | none => s
  | some id => { s with errorMessage := none }.await (.create id)

/-- `LockSelectedAsync`, up to its await. -/
def lockSelected (s : State) : State :=
  match s.selectedPlan with
  | none => s
  | some plan => if plan.state ≠ .draft then s else { s with errorMessage := none }.await (.lock plan.id)

/-- `LoadAsync` goes on. -/
def showList (plans : List Snapshot) (s : State) : State :=
  let shown := s.plans ++ plans
  { s with plans := shown, selectedPlan := shown.head? }

/-- `CreateDraftAsync` goes on. -/
def showCreated (plan : Snapshot) (s : State) : State := { s with plans := plan :: s.plans, selectedPlan := some plan }

/-- `LockSelectedAsync` goes on: the entry that is replaced is that of the plan selected now. -/
def showLocked (plan : Snapshot) (s : State) : State :=
  { s with
    plans :=
      match s.selectedPlan with
      | none => s.plans
      | some selected => Entries.replace selected plan s.plans
    selectedPlan := some plan }

/-- A step, if this can happen. The plans of a list are distinct and of the goal that was asked for, a plan that is
created is of this goal, and a plan that is locked is the one that was asked for. -/
def step (s : State) : Event → Option State
  | .load goal => some (load goal s)
  | .createDraft => some (createDraft s)
  | .lockSelected => some (lockSelected s)
  | .select plan => some { s with selectedPlan := plan }
  | .listed call plans =>
    match s.calls call with
    | some (.list goal) =>
      if (∀ plan ∈ plans, plan.goalId = goal) ∧ (plans.map (·.id)).Nodup then some ((showList plans s).finish call)
      else none
    | _ => none
  | .created call plan =>
    match s.calls call with
    | some (.create goal) => if plan.goalId = goal then some ((showCreated plan s).finish call) else none
    | _ => none
  | .locked call plan =>
    match s.calls call with
    | some (.lock asked) => if plan.id = asked then some ((showLocked plan s).finish call) else none
    | _ => none
  | .fails call message =>
    if (s.calls call).isSome then some ({ s with errorMessage := some message }.finish call) else none
  | .cancelled call => if (s.calls call).isSome then some (s.finish call) else none

/-! ## What is promised -/

structure Good (s : State) : Prop where
  distinct : (s.plans.map (·.id)).Nodup
  goal : ∀ plan ∈ s.plans, s.goal = some plan.goalId
  selected : ∀ plan, s.selectedPlan = some plan → plan ∈ s.plans

/-- A lock that succeeds replaces the entry of the plan that was locked, and leaves all others. -/
def LocksIt (s : State) (e : Event) (s' : State) : Prop :=
  ∀ call plan, e = .locked call plan →
    s'.plans = s.plans.map fun entry => if entry.id = plan.id then plan else entry

/-- **What a step has to meet**: a selection is an entry or nothing; an answer with plans finds the goal that they are
of, and none of them in the list; and when a lock is answered its plan is the one that is selected, or it is shown as
locked already and nothing is selected. -/
def InTime (s : State) : Event → Prop
  | .select selected => ∀ plan, selected = some plan → plan ∈ s.plans
  | .listed _ plans => ∀ plan ∈ plans, s.goal = some plan.goalId ∧ plan.id ∉ s.plans.map (·.id)
  | .created _ plan => s.goal = some plan.goalId ∧ plan.id ∉ s.plans.map (·.id)
  | .locked _ plan =>
    match s.selectedPlan with
    | some selected => selected.id = plan.id ∧ selected.goalId = plan.goalId
    | none => plan ∈ s.plans
  | _ => True

/-- What is promised holds all through a run. -/
def Keeps : State → List Event → Prop := Concurrency.Keeps step Good LocksIt

/-- Every step of a run meets its condition. -/
def AllInTime : State → List Event → Prop := Concurrency.Always step InTime

/-! ## One step -/

section Step

variable {s s' : State} {plans : List Snapshot} {plan : Snapshot}

theorem good_start : Good {} where
  distinct := List.nodup_nil
  goal _ h := absurd h List.not_mem_nil
  selected _ h := absurd h.symm (Option.some_ne_none _)

theorem good_finish (call : Nat) : Good (s.finish call) ↔ Good s :=
  ⟨fun h => ⟨h.distinct, h.goal, h.selected⟩, fun h => ⟨h.distinct, h.goal, h.selected⟩⟩

theorem Good.await (h : Good s) (message : Option String) (asked : Call) :
    Good ({ s with errorMessage := message }.await asked) := ⟨h.distinct, h.goal, h.selected⟩

/-- After `LoadAsync` has begun nothing is in the list. -/
theorem good_load (goal : Option GoalId) (s : State) : Good (load goal s) := by
  unfold load
  cases goal with
  | none =>
    exact ⟨List.nodup_nil, fun _ h => absurd h List.not_mem_nil, fun _ h => absurd h.symm (Option.some_ne_none _)⟩
  | some id =>
    exact ⟨List.nodup_nil, fun _ h => absurd h List.not_mem_nil, fun _ h => absurd h.symm (Option.some_ne_none _)⟩

theorem Good.createDraft (h : Good s) : Good (createDraft s) := by
  unfold PlanViewModel.createDraft
  split
  · exact h
  · exact h.await none _

theorem Good.lockSelected (h : Good s) : Good (lockSelected s) := by
  unfold PlanViewModel.lockSelected
  split
  · exact h
  · split
    · exact h
    · exact h.await none _

/-- A list that comes is good if it is of the current goal and nothing of it is shown already. -/
theorem good_showList (h : Good s) (hnodup : (plans.map (·.id)).Nodup) :
    Good (showList plans s) ↔ ∀ plan ∈ plans, s.goal = some plan.goalId ∧ plan.id ∉ s.plans.map (·.id) := by
  constructor
  · intro hgood plan hplan
    refine ⟨hgood.goal plan (List.mem_append_right _ hplan), fun hshown => ?_⟩
    have hdistinct : ((s.plans ++ plans).map (·.id)).Nodup := hgood.distinct
    rw [List.map_append] at hdistinct
    exact List.disjoint_of_nodup_append hdistinct hshown (List.mem_map_of_mem hplan)
  · intro hnew
    refine ⟨?_, ?_, fun plan hselected => List.mem_of_mem_head? hselected⟩
    · show ((s.plans ++ plans).map (·.id)).Nodup
      rw [List.map_append]
      refine h.distinct.append hnodup fun id hshown hid => ?_
      obtain ⟨plan, hplan, rfl⟩ := List.mem_map.mp hid
      exact (hnew plan hplan).2 hshown
    · intro plan hplan
      rcases List.mem_append.mp hplan with hold | hplan
      · exact h.goal plan hold
      · exact (hnew plan hplan).1

theorem good_showCreated (h : Good s) (plan : Snapshot) :
    Good (showCreated plan s) ↔ s.goal = some plan.goalId ∧ plan.id ∉ s.plans.map (·.id) := by
  constructor
  · intro hgood
    have hdistinct : ((plan :: s.plans).map (·.id)).Nodup := hgood.distinct
    rw [List.map_cons, List.nodup_cons] at hdistinct
    exact ⟨hgood.goal plan List.mem_cons_self, hdistinct.1⟩
  · rintro ⟨hgoal, hnew⟩
    refine ⟨List.nodup_cons.mpr ⟨hnew, h.distinct⟩, ?_, ?_⟩
    · intro entry hentry
      rcases List.mem_cons.mp hentry with rfl | hentry
      · exact hgoal
      · exact h.goal entry hentry
    · intro entry hselected
      obtain rfl := Option.some.inj hselected
      exact List.mem_cons_self

/-- Entries with the id of one that is shown already are this one. -/
theorem Good.map_eq_self (h : Good s) (hplan : plan ∈ s.plans) :
    (s.plans.map fun entry => if entry.id = plan.id then plan else entry) = s.plans := by
  have hsame : ∀ entry ∈ s.plans, (if entry.id = plan.id then plan else entry) = entry := by
    intro entry hentry
    split
    next hid => exact (List.inj_on_of_nodup_map h.distinct hentry hplan hid).symm
    next => rfl
  rw [List.map_congr_left hsame, List.map_id']

/-- The answer to a lock is shown rightly if the plan that was locked is the one selected, or is shown as locked. -/
theorem showLocked_iff (h : Good s) (call : Nat) (plan : Snapshot) :
    ((showLocked plan s).plans = (s.plans.map fun entry => if entry.id = plan.id then plan else entry) ∧
        Good (showLocked plan s)) ↔ InTime s (.locked call plan) := by
  cases hselected : s.selectedPlan with
  | none =>
    have hplans : (showLocked plan s).plans = s.plans := by
      simp only [showLocked, hselected]
    have hintime : InTime s (.locked call plan) ↔ plan ∈ s.plans := by
      simp only [InTime, hselected]
    rw [hplans, hintime]
    constructor
    · rintro ⟨_, hgood⟩
      exact hplans ▸ hgood.selected plan rfl
    · intro hplan
      refine ⟨(h.map_eq_self hplan).symm, hplans ▸ h.distinct, hplans ▸ h.goal, fun entry heq => ?_⟩
      rw [hplans, ← Option.some.inj heq]
      exact hplan
  | some selected =>
    have hmem : selected ∈ s.plans := h.selected selected hselected
    have hplans : (showLocked plan s).plans = Entries.replace selected plan s.plans := by
      simp only [showLocked, hselected]
    have hintime : InTime s (.locked call plan) ↔ selected.id = plan.id ∧ selected.goalId = plan.goalId := by
      simp only [InTime, hselected]
    have hshown : plan ∈ Entries.replace selected plan s.plans := Entries.mem_replace_self hmem plan
    rw [hplans, hintime]
    constructor
    · rintro ⟨hmap, hgood⟩
      have hgoal : s.goal = some plan.goalId := hgood.goal plan (hplans ▸ hshown)
      refine ⟨?_, Option.some.inj ((h.goal selected hmem).symm.trans hgoal)⟩
      -- under another id, the selected entry would be gone from the list
      by_contra hne
      have hkeeps : selected ∈ Entries.replace selected plan s.plans := by
        rw [hmap]
        exact List.mem_map.mpr ⟨selected, hmem, if_neg hne⟩
      have hreplaced := Entries.replace_eq_map h.distinct hmem plan
      rw [hreplaced] at hkeeps
      obtain ⟨entry, hentry, heq⟩ := List.mem_map.mp hkeeps
      split at heq
      next => exact hne (congrArg (·.id) heq).symm
      next hid => exact hid (congrArg (·.id) heq)
    · rintro ⟨hid, hgoalId⟩
      refine ⟨hid ▸ Entries.replace_eq_map h.distinct hmem plan, ?_, ?_, ?_⟩
      · have hids : (Entries.replace selected plan s.plans).map (·.id) = s.plans.map (·.id) :=
          Entries.map_key_replace (·.id) hid.symm s.plans
        rw [hplans, hids]
        exact h.distinct
      · intro entry hentry
        rw [hplans] at hentry
        rcases Entries.of_mem_replace hentry with rfl | hentry
        · exact hgoalId ▸ h.goal selected hmem
        · exact h.goal entry hentry
      · intro entry heq
        rw [hplans, ← Option.some.inj heq]
        exact hshown

/-- A step from a good state does what is promised and ends in a good state if and only if it meets its condition. -/
theorem step_iff (h : Good s) {e : Event} (hstep : step s e = some s') :
    (LocksIt s e s' ∧ Good s') ↔ InTime s e := by
  have hother : (∀ call plan, e ≠ .locked call plan) → LocksIt s e s' :=
    fun hne call plan heq => absurd heq (hne call plan)
  cases e with
  | load goal =>
    obtain rfl := Option.some.inj hstep
    exact ⟨fun _ => trivial, fun _ => ⟨hother (by simp), good_load goal s⟩⟩
  | createDraft =>
    obtain rfl := Option.some.inj hstep
    exact ⟨fun _ => trivial, fun _ => ⟨hother (by simp), h.createDraft⟩⟩
  | lockSelected =>
    obtain rfl := Option.some.inj hstep
    exact ⟨fun _ => trivial, fun _ => ⟨hother (by simp), h.lockSelected⟩⟩
  | select selected =>
    obtain rfl := Option.some.inj hstep
    exact ⟨fun hboth => hboth.2.selected, fun hin => ⟨hother (by simp), h.distinct, h.goal, hin⟩⟩
  | listed call plans =>
    simp only [step] at hstep
    split at hstep
    next goal _ =>
      obtain ⟨⟨_, hnodup⟩, rfl⟩ := guard_eq_some.mp hstep
      have hiff := (good_finish call).trans (good_showList h hnodup)
      exact ⟨fun hboth => hiff.mp hboth.2, fun hin => ⟨hother (by simp), hiff.mpr hin⟩⟩
    next => cases hstep
  | created call plan =>
    simp only [step] at hstep
    split at hstep
    next goal _ =>
      obtain ⟨_, rfl⟩ := guard_eq_some.mp hstep
      have hiff := (good_finish call).trans (good_showCreated h plan)
      exact ⟨fun hboth => hiff.mp hboth.2, fun hin => ⟨hother (by simp), hiff.mpr hin⟩⟩
    next => cases hstep
  | locked call plan =>
    simp only [step] at hstep
    split at hstep
    next asked _ =>
      obtain ⟨_, rfl⟩ := guard_eq_some.mp hstep
      have hiff := showLocked_iff h call plan
      constructor
      · rintro ⟨hlocks, hgood⟩
        exact hiff.mp ⟨hlocks call plan rfl, (good_finish call).mp hgood⟩
      · intro hin
        obtain ⟨hplans, hgood⟩ := hiff.mpr hin
        refine ⟨fun call' plan' heq => ?_, (good_finish call).mpr hgood⟩
        obtain ⟨rfl, rfl⟩ := Event.locked.inj heq
        exact hplans
    next => cases hstep
  | fails call message =>
    obtain ⟨_, rfl⟩ := guard_eq_some.mp hstep
    exact ⟨fun _ => trivial, fun _ => ⟨hother (by simp), h.distinct, h.goal, h.selected⟩⟩
  | cancelled call =>
    obtain ⟨_, rfl⟩ := guard_eq_some.mp hstep
    exact ⟨fun _ => trivial, fun _ => ⟨hother (by simp), (good_finish call).mpr h⟩⟩

end Step

/-! ## Runs -/

/-- **The view keeps its promise all through a run if and only if every step of it is in time.** -/
theorem planView_keeps_iff (es : List Event) : Keeps {} es ↔ AllInTime {} es := by
  have hkept : ∀ s e s', Good s → step s e = some s' → InTime s e → Good s' ∧ LocksIt s e s' :=
    fun s e s' hgood hstep hin => ((step_iff hgood hstep).mpr hin).symm
  have hbroken : ∀ s e s', Good s → step s e = some s' → ¬ InTime s e → ¬ (LocksIt s e s' ∧ Good s') :=
    fun s e s' hgood hstep hnot hboth => hnot ((step_iff hgood hstep).mp hboth)
  exact Concurrency.keeps_iff_always (fun _ hgood => hgood) hkept hbroken good_start es

/-- A plan of a goal, that is a draft or locked. -/
def snapshot (id : String) (state : PlanState) : Snapshot :=
  { id := ⟨id⟩, projectId := "atlas", goalId := ⟨"P12-G01"⟩, goalRevision := "1f0c", state, autonomy := .agentic
    runner := "dummy", integrationTarget := "main", createdAt := default, list := 0 }

/-- Another plan is selected while a lock is under way: its entry is overwritten, and it is lost from the list. -/
theorem selection_loses_plan :
    ¬ Keeps {}
      [.load (some ⟨"P12-G01"⟩), .listed 0 [snapshot "plan-1" .draft, snapshot "plan-2" .draft], .lockSelected,
        .select (some (snapshot "plan-2" .draft)), .locked 1 (snapshot "plan-1" .locked)] := by
  intro h
  obtain ⟨_, hlisted⟩ := (h.2 _ rfl).2
  obtain ⟨_, hlock⟩ := (hlisted _ rfl).2
  obtain ⟨_, hselect⟩ := (hlock _ rfl).2
  obtain ⟨_, hlocked⟩ := (hselect _ rfl).2
  have hlocks : LocksIt _ _ _ := (hlocked _ rfl).1
  exact absurd (hlocks 1 _ rfl) (by decide)

end AtlasFlow.PlanViewModel
