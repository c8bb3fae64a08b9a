import Mathlib.Logic.Function.Basic
import AtlasFlow.Concurrency.Promises
import AtlasFlow.Data.Entries
import AtlasFlow.Domain.Planning

/-!
# The run view

`RunViewModel`: the list of runs, the selected one with its detail, and a stream of its events that is read while it
lives. Every selection begins an observation, and cancels the one before: that has only asked it to stop, and what it
waits for may have its answer already. All runs on the UI thread, so a step is what happens between two awaits.

The detail shown should be that of the selected run, no run should be listed twice, and the view should say that it
watches only while a stream of the selected run is read. `runView_keeps_iff` says in which runs of the view this is so.
-/

namespace AtlasFlow

/-- A run and everything recorded about it. -/
structure RunDetail where
  run : Run
  tasks : List RunTask := []
  attempts : List Attempt := []
  events : List DomainEvent := []
  deriving DecidableEq, Repr

namespace RunViewModel

open Concurrency (guard_eq_some)

/-- What an observation waits for: the first detail, the next event, the detail after an event, or the last one. -/
inductive Stage | finding | streaming | refreshing | finishing
  deriving DecidableEq, Repr

structure Observation where
  run : Run
  stage : Stage
  deriving DecidableEq, Repr

/-- What else is awaited: the list, the start of a run, the plan view after this, or that a run was asked to stop. -/
inductive Call
  | list
  | start
  | reload (started : Run)
  | cancel
  deriving DecidableEq, Repr

structure State where
  runs : List Run := []
  tasks : List RunTask := []
  events : List DomainEvent := []
  selectedRun : Option Run := none
  selectedRunDetail : Option RunDetail := none
  isBusy : Bool := false
  isWatching : Bool := false
  errorMessage : Option String := none
  /-- `_watchCancellation`, by the number of its observation. -/
  watch : Option Nat := none
  /-- The observations that were told to stop. -/
  cancelled : List Nat := []
  observations : Nat → Option Observation := fun _ => none
  calls : Nat → Option Call := fun _ => none
  next : Nat := 0

inductive Event
  | load
  | listed (call : Nat) (runs : List Run)
  /-- The plan is the one that is selected in the plan view. -/
  | start (plan : Option Plan)
  | started (call : Nat) (run : Run)
  | reloaded (call : Nat)
  | cancelRun
  | cancelAsked (call : Nat)
  | callFails (call : Nat) (message : Option String)
  | select (run : Option Run)
  | found (observation : Nat) (detail : Option RunDetail)
  | received (observation : Nat)
  | ended (observation : Nat)
  | fails (observation : Nat) (message : Option String)
  deriving DecidableEq, Repr

namespace State

variable (s : State)

/-- The id of the selected run. -/
def selectedId : Option RunId := s.selectedRun.map (·.id)

def stopWatching : State := { s with cancelled := s.cancelled ++ s.watch.toList }

def await (call : Call) : State := { s with calls := Function.update s.calls s.next (some call), next := s.next + 1 }

def answered (call : Nat) : State := { s with calls := Function.update s.calls call none }

def setStage (observation : Nat) (seen : Observation) : State :=
  { s with observations := Function.update s.observations observation (some seen) }

/-- The `finally` of `ObserveAsync`. -/
def finish (observation : Nat) : State :=
  { s with
    isBusy := false
    observations := Function.update s.observations observation none
    watch := if s.watch = some observation then none else s.watch
    isWatching := if s.watch = some observation then false else s.isWatching }

end State

/-! ## Details -/

/-- The list part of `ReplaceRun`. -/
def replaceRun (updated : Run) (runs : List Run) : List Run :=
  match runs.find? fun run => run.id = updated.id with
  | some existing => Entries.replace existing updated runs
  | none => updated :: runs

/-- `ApplyDetail`. -/
def applyDetail (detail : RunDetail) (s : State) : State :=
  { s with
    selectedRunDetail := some detail
    runs := replaceRun detail.run s.runs
    selectedRun := if s.selectedId = some detail.run.id then some detail.run else s.selectedRun
    tasks := detail.tasks
    events := detail.events }

/-- What is done with an answer of `FindAsync`. -/
def applyAnswer (detail : Option RunDetail) (s : State) : State :=
  match detail with
  | some detail => applyDetail detail s
  | none => s

/-! ## Observations -/

/-- `ObserveAsync`, up to its first await. -/
def observe (run : Option Run) (s : State) : State :=
  let s := { s.stopWatching with tasks := [], events := [], selectedRunDetail := none }
  match run with
  | none => { s with isWatching := false }
  | some run =>
    { s with
      watch := some s.next
      isBusy := true
      observations := Function.update s.observations s.next (some ⟨run, .finding⟩)
      next := s.next + 1 }

/-- The first detail has come: of a run that is over no stream is read. -/
def openStream (observation : Nat) (run : Run) (s : State) : State :=
  let s := { s with isBusy := false, isWatching := !run.state.isTerminal }
  if run.state.isTerminal then s.finish observation else s.setStage observation ⟨run, .streaming⟩

/-- `OnSelectedRunChanged`. -/
def select (run : Option Run) (s : State) : State :=
  if s.selectedId = run.map (·.id) then { s with selectedRun := run } else observe run { s with selectedRun := run }

/-! ## The operations -/

/-- `LoadAsync`, up to its await. -/
def load (s : State) : State :=
  { s.stopWatching with runs := [], tasks := [], events := [], selectedRunDetail := none, errorMessage := none }.await
    .list

/-- `LoadAsync` goes on. -/
def showRuns (runs : List Run) (s : State) : State :=
  let shown := s.runs ++ runs
  let s := { s with runs := shown, selectedRun := shown.head? }
  match shown.head? with
  | none => s
  | some run => observe (some run) s

/-- `StartSelectedPlanAsync`, up to its first await. -/
def start (plan : Option Plan) (s : State) : State :=
  match plan with
  | none => s
  | some plan => if plan.state ≠ .locked then s else { s with isBusy := true, errorMessage := none }.await .start

/-- `CancelSelectedRunAsync`, up to its await. -/
def cancelRun (s : State) : State :=
  match s.selectedRun with
  | none => s
  | some run => if run.state.isTerminal then s else { s with isBusy := true, errorMessage := none }.await .cancel

/-- An operation ends with an exception, that is shown unless it says that the operation was cancelled. -/
def fail (message : Option String) (s : State) : State := { s with errorMessage := message.or s.errorMessage }

/-- A step, if this can happen. The runs of a list are distinct, and a detail is of the run that was asked for. -/
def step (s : State) : Event → Option State
  | .load => some (load s)
  | .listed call runs =>
    if s.calls call = some .list ∧ (runs.map (·.id)).Nodup then some (showRuns runs (s.answered call)) else none
  | .start plan => some (start plan s)
  | .started call run => if s.calls call = some .start then some ((s.answered call).await (.reload run)) else none
  | .reloaded call =>
    match s.calls call with
    | some (.reload run) => some (observe (some run) { s.answered call with selectedRun := some run })
    | _ => none
  | .cancelRun => some (cancelRun s)
  | .cancelAsked call =>
    if s.calls call = some .cancel then some { s.answered call with isBusy := false } else none
  | .callFails call message =>
    match s.calls call with
    | none => none
    | some .list => some (fail message (s.answered call))
    | some _ => some { fail message (s.answered call) with isBusy := false }
  | .select run => some (select run s)
  | .found observation detail =>
    match s.observations observation with
    | none => none
    | some seen =>
      if ∀ d, detail = some d → d.run.id = seen.run.id then
        match seen.stage with
        | .finding => some (openStream observation seen.run (applyAnswer detail s))
        | .refreshing => some ((applyAnswer detail s).setStage observation ⟨seen.run, .streaming⟩)
        | .finishing => some ((applyAnswer detail s).finish observation)
        | .streaming => none
      else none
  | .received observation =>
    match s.observations observation with
    | some ⟨run, .streaming⟩ => some (s.setStage observation ⟨run, .refreshing⟩)
    | _ => none
  | .ended observation =>
    match s.observations observation with
    | some ⟨run, .streaming⟩ => some (s.setStage observation ⟨run, .finishing⟩)
    | _ => none
  | .fails observation message =>
    if (s.observations observation).isSome then some (fail message (s.finish observation)) else none

/-! ## What is promised -/

/-- The stream of an observation is read: its next event is waited for, or the detail after an event. -/
def Observation.Reads (seen : Observation) : Prop := seen.stage = .streaming ∨ seen.stage = .refreshing

/-- An observation reads a stream of a run. -/
def State.Reads (s : State) (observation : Nat) (id : Option RunId) : Prop :=
  ∃ seen, s.observations observation = some seen ∧ seen.Reads ∧ id = some seen.run.id

/-- What is shown is of the selected run, and no run is listed twice. -/
structure Shown (s : State) : Prop where
  detail : ∀ d, s.selectedRunDetail = some d → s.selectedId = some d.run.id
  tasks : s.tasks = (s.selectedRunDetail.map (·.tasks)).getD []
  events : s.events = (s.selectedRunDetail.map (·.events)).getD []
  distinct : (s.runs.map (·.id)).Nodup

structure Good (s : State) : Prop extends Shown s where
  watching : s.isWatching = true → ∃ observation, s.Reads observation s.selectedId

/-- **What a step has to meet.** A list that comes has nothing in it that is listed already. A run of another id is
selected, by whatever step, only while the view does not watch or a stream of this run is read. A detail that comes is of
the run that is selected, and so is the run where a stream is opened, unless another stream of the selected one is read.
Where a stream ends while the view watches, or fails and it is not that of the last observation, another stream of the
selected run is read. -/
def InTime (s : State) : Event → Prop
  | .listed _ runs => (∀ run ∈ runs, run.id ∉ s.runs.map (·.id)) ∧
      (s.isWatching = true → ∃ observation, s.Reads observation ((s.runs ++ runs).head?.map (·.id)))
  | .reloaded call => ∀ run, s.calls call = some (.reload run) → s.isWatching = true →
      ∃ observation, s.Reads observation (some run.id)
  | .select run => s.selectedId = run.map (·.id) ∨
      (∀ r, run = some r → s.isWatching = true → ∃ observation, s.Reads observation (some r.id))
  | .found observation detail => ∀ seen, s.observations observation = some seen →
      (detail ≠ none → s.selectedId = some seen.run.id) ∧
        (seen.stage = .finding → seen.run.state.isTerminal = false →
          s.selectedId = some seen.run.id ∨ ∃ other, s.Reads other s.selectedId)
  | .ended observation => s.isWatching = true → ∃ other, other ≠ observation ∧ s.Reads other s.selectedId
  | .fails observation _ => s.watch ≠ some observation → s.isWatching = true →
      ∃ other, other ≠ observation ∧ s.Reads other s.selectedId
  | _ => True

/-- What is promised holds all through a run of the view. -/
def Keeps : State → List Event → Prop := Concurrency.Keeps step Good fun _ _ _ => True

/-- Every step of a run of the view meets its condition. -/
def AllInTime : State → List Event → Prop := Concurrency.Always step InTime

/-! ## Runs that are listed -/

section Listed

variable {updated : Run} {runs : List Run}

theorem replaceRun_cases (updated : Run) (runs : List Run) :
    (∃ existing ∈ runs, existing.id = updated.id ∧ replaceRun updated runs = Entries.replace existing updated runs) ∨
      (updated.id ∉ runs.map (·.id) ∧ replaceRun updated runs = updated :: runs) := by
  unfold replaceRun
  cases hfound : runs.find? fun run => run.id = updated.id with
  | some existing =>
    have hid : existing.id = updated.id := by simpa using List.find?_some hfound
    exact .inl ⟨existing, List.mem_of_find?_eq_some hfound, hid, rfl⟩
  | none =>
    refine .inr ⟨fun hmem => ?_, rfl⟩
    obtain ⟨run, hrun, hid⟩ := List.mem_map.mp hmem
    exact List.find?_eq_none.mp hfound run hrun (by simpa using hid)

/-- A run that is brought up to date is listed afterwards. -/
theorem mem_replaceRun (updated : Run) (runs : List Run) : updated.id ∈ (replaceRun updated runs).map (·.id) := by
  rcases replaceRun_cases updated runs with ⟨existing, hmem, _, heq⟩ | ⟨_, heq⟩
  · rw [heq]
    exact List.mem_map_of_mem (Entries.mem_replace_self hmem updated)
  · rw [heq]
    exact List.mem_map_of_mem List.mem_cons_self

theorem nodup_replaceRun (h : (runs.map (·.id)).Nodup) (updated : Run) :
    ((replaceRun updated runs).map (·.id)).Nodup := by
  rcases replaceRun_cases updated runs with ⟨existing, _, hid, heq⟩ | ⟨hnew, heq⟩
  · have hids : (Entries.replace existing updated runs).map (·.id) = runs.map (·.id) :=
      Entries.map_key_replace (·.id) hid.symm runs
    rw [heq, hids]
    exact h
  · rw [heq, List.map_cons]
    exact List.nodup_cons.mpr ⟨hnew, h⟩

end Listed

/-! ## What the pieces of a step do -/

section Pieces

variable {s : State} {o other : Nat} {id : Option RunId}

@[simp] theorem selectedId_applyAnswer (detail : Option RunDetail) (s : State) :
    (applyAnswer detail s).selectedId = s.selectedId := by
  cases detail with
  | none => rfl
  | some d =>
    by_cases h : s.selectedId = some d.run.id
    · simp [applyAnswer, applyDetail, State.selectedId, ← h]
    · simp only [applyAnswer, applyDetail, if_neg h]
      rfl

@[simp] theorem observations_applyAnswer (detail : Option RunDetail) (s : State) :
    (applyAnswer detail s).observations = s.observations := by
  cases detail <;> rfl

@[simp] theorem isWatching_applyAnswer (detail : Option RunDetail) (s : State) :
    (applyAnswer detail s).isWatching = s.isWatching := by
  cases detail <;> rfl

@[simp] theorem watch_applyAnswer (detail : Option RunDetail) (s : State) :
    (applyAnswer detail s).watch = s.watch := by
  cases detail <;> rfl

@[simp] theorem next_applyAnswer (detail : Option RunDetail) (s : State) : (applyAnswer detail s).next = s.next := by
  cases detail <;> rfl

theorem reads_applyAnswer {detail : Option RunDetail} : (applyAnswer detail s).Reads o id ↔ s.Reads o id := by
  unfold State.Reads
  rw [observations_applyAnswer]

theorem reads_setStage_self (s : State) (o : Nat) (id : Option RunId) (seen : Observation) :
    (s.setStage o seen).Reads o id ↔ seen.Reads ∧ id = some seen.run.id := by
  have hself : (s.setStage o seen).observations o = some seen := Function.update_self ..
  unfold State.Reads
  rw [hself]
  constructor
  · rintro ⟨found, hfound, hreads⟩
    exact Option.some.inj hfound ▸ hreads
  · exact fun h => ⟨seen, rfl, h⟩

theorem reads_setStage_of_ne (h : other ≠ o) (seen : Observation) :
    (s.setStage o seen).Reads other id ↔ s.Reads other id := by
  have hother : (s.setStage o seen).observations other = s.observations other := Function.update_of_ne h ..
  unfold State.Reads
  rw [hother]

theorem reads_finish : (s.finish o).Reads other id ↔ other ≠ o ∧ s.Reads other id := by
  unfold State.Reads
  by_cases h : other = o
  · subst h
    have hself : (s.finish other).observations other = none := Function.update_self ..
    simp [hself]
  · have hother : (s.finish o).observations other = s.observations other := Function.update_of_ne h ..
    simp [hother, h]

/-- An observation that has just begun reads no stream. -/
theorem reads_observe (hfresh : s.observations s.next = none) (run : Option Run) :
    (observe run s).Reads o id ↔ s.Reads o id := by
  cases run with
  | none => exact Iff.rfl
  | some run =>
    by_cases h : o = s.next
    · subst h
      refine (reads_setStage_self s s.next id ⟨run, .finding⟩).trans ?_
      simp [State.Reads, Observation.Reads, hfresh]
    · exact reads_setStage_of_ne h ⟨run, .finding⟩

/-- An observation that does not read its stream is none of those that do. -/
theorem State.Reads.ne {seen : Observation} (hreads : s.Reads other id) (hseen : s.observations o = some seen)
    (hnot : ¬ seen.Reads) : other ≠ o := by
  rintro rfl
  obtain ⟨found, hfound, hfoundReads, _⟩ := hreads
  exact hnot (Option.some.inj (hseen.symm.trans hfound) ▸ hfoundReads)

end Pieces

/-! ## What is shown -/

section Shown

variable {s : State} {o : Nat} {run : Run}

theorem shown_start : Shown {} where
  detail _ h := absurd h.symm (Option.some_ne_none _)
  tasks := rfl
  events := rfl
  distinct := List.nodup_nil

/-- Where an observation begins nothing is shown but the list. -/
theorem shown_observe (run : Option Run) : Shown (observe run s) ↔ (s.runs.map (·.id)).Nodup := by
  cases run with
  | none => exact ⟨Shown.distinct, fun h => ⟨fun _ hd => absurd hd.symm (Option.some_ne_none _), rfl, rfl, h⟩⟩
  | some run => exact ⟨Shown.distinct, fun h => ⟨fun _ hd => absurd hd.symm (Option.some_ne_none _), rfl, rfl, h⟩⟩

/-- An answer is shown rightly if it is of the selected run, or there is none. -/
theorem shown_applyAnswer (h : Shown s) {detail : Option RunDetail} {id : RunId}
    (hof : ∀ d, detail = some d → d.run.id = id) :
    Shown (applyAnswer detail s) ↔ (detail ≠ none → s.selectedId = some id) := by
  cases detail with
  | none => exact ⟨fun _ hne => absurd rfl hne, fun _ => h⟩
  | some d =>
    have hid : d.run.id = id := hof d rfl
    have hselected : (applyAnswer (some d) s).selectedId = s.selectedId := selectedId_applyAnswer (some d) s
    constructor
    · intro hshown _
      rw [← hselected, hshown.detail d rfl, hid]
    · intro hsame
      refine ⟨fun d' hd' => ?_, rfl, rfl, nodup_replaceRun h.distinct d.run⟩
      obtain rfl := Option.some.inj hd'
      rw [hselected, hsame (Option.some_ne_none d), hid]

/-- Another state shows the same. -/
theorem Shown.of_eq {s' : State} (h : Shown s) (hdetail : s'.selectedRunDetail = s.selectedRunDetail)
    (hselected : s'.selectedId = s.selectedId) (htasks : s'.tasks = s.tasks) (hevents : s'.events = s.events)
    (hruns : s'.runs = s.runs) : Shown s' where
  detail d hd := hselected.trans (h.detail d (hdetail.symm.trans hd))
  tasks := by rw [htasks, hdetail, h.tasks]
  events := by rw [hevents, hdetail, h.events]
  distinct := hruns ▸ h.distinct

theorem shown_finish : Shown (s.finish o) ↔ Shown s :=
  ⟨fun h => h.of_eq rfl rfl rfl rfl rfl, fun h => h.of_eq rfl rfl rfl rfl rfl⟩

theorem shown_openStream : Shown (openStream o run s) ↔ Shown s := by
  unfold openStream
  split
  · exact ⟨fun h => h.of_eq rfl rfl rfl rfl rfl, fun h => h.of_eq rfl rfl rfl rfl rfl⟩
  · exact ⟨fun h => h.of_eq rfl rfl rfl rfl rfl, fun h => h.of_eq rfl rfl rfl rfl rfl⟩

end Shown

/-! ## Facts that no step breaks -/

/-- The run of a detail that is shown is listed, and the numbers to come are not used. -/
structure Regular (s : State) : Prop where
  listed : ∀ d, s.selectedRunDetail = some d → d.run.id ∈ s.runs.map (·.id)
  fresh : ∀ n, s.next ≤ n → s.observations n = none

namespace Regular

variable {s s' : State} {o : Nat}

theorem start : Regular {} := ⟨fun _ h => absurd h.symm (Option.some_ne_none _), fun _ _ => rfl⟩

/-- Another state has the same details, runs and observations, and no number of it is used again. -/
theorem of_eq (h : Regular s) (hdetail : s'.selectedRunDetail = s.selectedRunDetail) (hruns : s'.runs = s.runs)
    (hobservations : s'.observations = s.observations) (hnext : s.next ≤ s'.next) : Regular s' where
  listed d hd := hruns ▸ h.listed d (hdetail.symm.trans hd)
  fresh n hn := hobservations ▸ h.fresh n (Nat.le_trans hnext hn)

theorem observe (hfresh : ∀ n, s.next ≤ n → s.observations n = none) (run : Option Run) :
    Regular (RunViewModel.observe run s) := by
  cases run with
  | none => exact ⟨fun _ h => absurd h.symm (Option.some_ne_none _), hfresh⟩
  | some run =>
    refine ⟨fun _ h => absurd h.symm (Option.some_ne_none _), fun n hn => ?_⟩
    have hlt : s.next < n := hn
    exact (Function.update_of_ne (Nat.ne_of_gt hlt) ..).trans (hfresh n (Nat.le_of_lt hlt))

theorem applyAnswer (h : Regular s) (detail : Option RunDetail) : Regular (applyAnswer detail s) := by
  cases detail with
  | none => exact h
  | some d =>
    refine ⟨fun d' hd' => ?_, h.fresh⟩
    obtain rfl := Option.some.inj hd'
    exact mem_replaceRun d.run s.runs

theorem setStage (h : Regular s) {seen : Observation} (hseen : s.observations o = some seen) (now : Observation) :
    Regular (s.setStage o now) := by
  refine ⟨h.listed, fun n hn => ?_⟩
  have hne : n ≠ o := by
    rintro rfl
    exact absurd (hseen.symm.trans (h.fresh n hn)) (Option.some_ne_none seen)
  exact (Function.update_of_ne hne ..).trans (h.fresh n hn)

theorem finish (h : Regular s) (o : Nat) : Regular (s.finish o) := by
  refine ⟨h.listed, fun n hn => ?_⟩
  by_cases heq : n = o
  · exact heq ▸ Function.update_self ..
  · exact (Function.update_of_ne heq ..).trans (h.fresh n hn)

theorem openStream (h : Regular s) {seen : Observation} (hseen : s.observations o = some seen) (run : Run) :
    Regular (openStream o run s) := by
  have hset : Regular { s with isBusy := false, isWatching := !run.state.isTerminal } := ⟨h.listed, h.fresh⟩
  unfold RunViewModel.openStream
  split
  · exact hset.finish o
  · exact hset.setStage hseen _

end Regular

/-! ## When a step ends well -/

section Steps

variable {s s' : State} {o : Nat} {run : Run} {seen now : Observation}

theorem good_start : Good {} := ⟨shown_start, fun h => absurd h Bool.false_ne_true⟩

theorem good_observe (hfresh : s.observations s.next = none) (run : Run) :
    Good (observe (some run) s) ↔
      (s.runs.map (·.id)).Nodup ∧ (s.isWatching = true → ∃ other, s.Reads other s.selectedId) := by
  have hreads : ∀ other, (observe (some run) s).Reads other s.selectedId ↔ s.Reads other s.selectedId :=
    fun _ => reads_observe hfresh (some run)
  constructor
  · intro hgood
    refine ⟨(shown_observe (some run)).mp hgood.toShown, fun hwatching => ?_⟩
    obtain ⟨other, hother⟩ := hgood.watching hwatching
    exact ⟨other, (hreads other).mp hother⟩
  · rintro ⟨hnodup, hwatching⟩
    refine ⟨(shown_observe (some run)).mpr hnodup, fun h => ?_⟩
    obtain ⟨other, hother⟩ := hwatching h
    exact ⟨other, (hreads other).mpr hother⟩

theorem good_observe_none : Good (observe none s) ↔ (s.runs.map (·.id)).Nodup :=
  ⟨fun hgood => (shown_observe none).mp hgood.toShown,
    fun hnodup => ⟨(shown_observe none).mpr hnodup, fun h => absurd h Bool.false_ne_true⟩⟩

theorem good_finish :
    Good (s.finish o) ↔ Shown s ∧
      (s.watch ≠ some o → s.isWatching = true → ∃ other, other ≠ o ∧ s.Reads other s.selectedId) := by
  have hwatching : (s.finish o).isWatching = if s.watch = some o then false else s.isWatching := rfl
  constructor
  · intro hgood
    refine ⟨shown_finish.mp hgood.toShown, fun hwatch h => ?_⟩
    obtain ⟨other, hother⟩ := hgood.watching (by rw [hwatching, if_neg hwatch, h])
    exact ⟨other, reads_finish.mp hother⟩
  · rintro ⟨hshown, hothers⟩
    refine ⟨shown_finish.mpr hshown, fun h => ?_⟩
    by_cases hwatch : s.watch = some o
    · rw [hwatching, if_pos hwatch] at h
      exact absurd h Bool.false_ne_true
    · rw [hwatching, if_neg hwatch] at h
      obtain ⟨other, hother⟩ := hothers hwatch h
      exact ⟨other, reads_finish.mpr hother⟩

/-- An observation goes on to read its stream, or goes on reading it. -/
theorem good_setStage_reads (hnow : now.Reads) :
    Good (s.setStage o now) ↔ Shown s ∧ (s.isWatching = true →
      s.selectedId = some now.run.id ∨ ∃ other, other ≠ o ∧ s.Reads other s.selectedId) := by
  constructor
  · intro hgood
    refine ⟨hgood.toShown.of_eq rfl rfl rfl rfl rfl, fun h => ?_⟩
    obtain ⟨other, hother⟩ := hgood.watching h
    by_cases heq : other = o
    · subst heq
      exact .inl ((reads_setStage_self ..).mp hother).2
    · exact .inr ⟨other, heq, (reads_setStage_of_ne heq now).mp hother⟩
  · rintro ⟨hshown, hwatching⟩
    refine ⟨hshown.of_eq rfl rfl rfl rfl rfl, fun h => ?_⟩
    rcases hwatching h with hsame | ⟨other, hne, hother⟩
    · exact ⟨o, (reads_setStage_self ..).mpr ⟨hnow, hsame⟩⟩
    · exact ⟨other, (reads_setStage_of_ne hne now).mpr hother⟩

/-- An observation goes on to what is no reading of a stream. -/
theorem good_setStage_silent (hnow : ¬ now.Reads) :
    Good (s.setStage o now) ↔
      Shown s ∧ (s.isWatching = true → ∃ other, other ≠ o ∧ s.Reads other s.selectedId) := by
  constructor
  · intro hgood
    refine ⟨hgood.toShown.of_eq rfl rfl rfl rfl rfl, fun h => ?_⟩
    obtain ⟨other, hother⟩ := hgood.watching h
    have hne : other ≠ o := by
      rintro rfl
      exact hnow ((reads_setStage_self ..).mp hother).1
    exact ⟨other, hne, (reads_setStage_of_ne hne now).mp hother⟩
  · rintro ⟨hshown, hwatching⟩
    refine ⟨hshown.of_eq rfl rfl rfl rfl rfl, fun h => ?_⟩
    obtain ⟨other, hne, hother⟩ := hwatching h
    exact ⟨other, (reads_setStage_of_ne hne now).mpr hother⟩

theorem good_openStream :
    Good (openStream o run s) ↔ Shown s ∧ (run.state.isTerminal = false →
      s.selectedId = some run.id ∨ ∃ other, other ≠ o ∧ s.Reads other s.selectedId) := by
  cases hterminal : run.state.isTerminal with
  | true =>
    have hwatching : (openStream o run s).isWatching = false := by
      simp [openStream, hterminal, State.finish]
    refine ⟨fun hgood => ⟨shown_openStream.mp hgood.toShown, fun h => absurd h (by simp)⟩, fun hboth => ?_⟩
    exact ⟨shown_openStream.mpr hboth.1, fun h => absurd (hwatching.symm.trans h) Bool.false_ne_true⟩
  | false =>
    have heq : openStream o run s =
        { s with isBusy := false, isWatching := true }.setStage o ⟨run, .streaming⟩ := by
      simp [openStream, hterminal]
    rw [heq, good_setStage_reads (.inl rfl)]
    refine and_congr ⟨fun h => h.of_eq rfl rfl rfl rfl rfl, fun h => h.of_eq rfl rfl rfl rfl rfl⟩ ?_
    exact ⟨fun h _ => h rfl, fun h _ => h rfl⟩

/-- A list is shown well if it has no run of those listed, and the view watches nothing but its first run. -/
theorem good_showRuns (hr : Regular s) (h : Good s) {runs : List Run} (hnodup : (runs.map (·.id)).Nodup) :
    Good (showRuns runs s) ↔ (∀ run ∈ runs, run.id ∉ s.runs.map (·.id)) ∧
      (s.isWatching = true → ∃ other, s.Reads other ((s.runs ++ runs).head?.map (·.id))) := by
  have hdistinct : ((s.runs ++ runs).map (·.id)).Nodup ↔ ∀ run ∈ runs, run.id ∉ s.runs.map (·.id) := by
    rw [List.map_append, List.nodup_append']
    constructor
    · rintro ⟨_, _, hdisjoint⟩ run hrun hlisted
      exact hdisjoint hlisted (List.mem_map_of_mem hrun)
    · intro hnew
      refine ⟨h.distinct, hnodup, fun id hlisted hid => ?_⟩
      obtain ⟨run, hrun, rfl⟩ := List.mem_map.mp hid
      exact hnew run hrun hlisted
  cases hhead : (s.runs ++ runs).head? with
  | none =>
    obtain ⟨hruns, rfl⟩ := List.append_eq_nil_iff.mp (List.head?_eq_none_iff.mp hhead)
    have hdetail : s.selectedRunDetail = none := by
      cases hd : s.selectedRunDetail with
      | none => rfl
      | some d => exact absurd (hr.listed d hd) (by simp [hruns])
    have heq : showRuns [] s = { s with runs := s.runs ++ [], selectedRun := none } := by
      simp only [showRuns, hhead]
    rw [heq]
    constructor
    · intro hgood
      exact ⟨fun _ hrun => absurd hrun List.not_mem_nil, hgood.watching⟩
    · rintro ⟨hnew, hwatching⟩
      refine ⟨⟨fun d hd => ?_, h.tasks, h.events, hdistinct.mpr hnew⟩, hwatching⟩
      exact absurd (hdetail.symm.trans hd).symm (Option.some_ne_none d)
  | some run =>
    have heq : showRuns runs s = observe (some run) { s with runs := s.runs ++ runs, selectedRun := some run } := by
      simp only [showRuns, hhead]
    have hfresh : s.observations s.next = none := hr.fresh _ (Nat.le_refl _)
    rw [heq, good_observe (s := { s with runs := s.runs ++ runs, selectedRun := some run }) hfresh, ← hdistinct]
    exact Iff.rfl

theorem good_select (hr : Regular s) (h : Good s) (run : Option Run) :
    Good (select run s) ↔ InTime s (.select run) := by
  unfold select
  by_cases hsame : s.selectedId = run.map (·.id)
  · rw [if_pos hsame]
    have hselected : State.selectedId { s with selectedRun := run } = s.selectedId := hsame.symm
    refine ⟨fun _ => .inl hsame, fun _ => ⟨h.toShown.of_eq rfl hselected rfl rfl rfl, fun hwatching => ?_⟩⟩
    obtain ⟨other, hother⟩ := h.watching hwatching
    exact ⟨other, hselected ▸ hother⟩
  · rw [if_neg hsame]
    cases run with
    | none =>
      rw [good_observe_none]
      exact ⟨fun _ => .inr fun r hr => absurd hr.symm (Option.some_ne_none r), fun _ => h.distinct⟩
    | some run =>
      have hfresh : s.observations s.next = none := hr.fresh _ (Nat.le_refl _)
      rw [good_observe (s := { s with selectedRun := some run }) hfresh]
      constructor
      · rintro ⟨_, hwatching⟩
        refine .inr fun r hr => ?_
        exact Option.some.inj hr ▸ hwatching
      · rintro (heq | hwatching)
        · exact absurd heq hsame
        · exact ⟨h.distinct, hwatching run rfl⟩

/-- A detail that comes at a stage. -/
theorem good_found (h : Good s) {detail : Option RunDetail} (hseen : s.observations o = some seen)
    (hof : ∀ d, detail = some d → d.run.id = seen.run.id) (hstep : step s (.found o detail) = some s') :
    Good s' ↔ InTime s (.found o detail) := by
  have hshown := shown_applyAnswer h.toShown hof
  have hintime : InTime s (.found o detail) ↔ (detail ≠ none → s.selectedId = some seen.run.id) ∧
      (seen.stage = .finding → seen.run.state.isTerminal = false →
        s.selectedId = some seen.run.id ∨ ∃ other, s.Reads other s.selectedId) := by
    simp only [InTime, hseen, Option.some.injEq, forall_eq']
  rw [hintime]
  simp only [step, hseen, if_pos hof] at hstep
  cases hstage : seen.stage with
  | finding =>
    have hnot : ¬ seen.Reads := by simp [Observation.Reads, hstage]
    simp only [hstage] at hstep
    obtain rfl := Option.some.inj hstep
    rw [good_openStream, hshown]
    simp only [selectedId_applyAnswer, reads_applyAnswer, forall_true_left]
    -- this observation reads no stream yet, so any other means any at all
    have hothers : (∃ other, other ≠ o ∧ s.Reads other s.selectedId) ↔ ∃ other, s.Reads other s.selectedId :=
      exists_congr fun other => ⟨And.right, fun hreads => ⟨hreads.ne hseen hnot, hreads⟩⟩
    rw [hothers]
  | refreshing =>
    simp only [hstage] at hstep
    obtain rfl := Option.some.inj hstep
    rw [good_setStage_reads (.inl rfl), hshown]
    simp only [selectedId_applyAnswer, reads_applyAnswer, isWatching_applyAnswer, reduceCtorEq, false_implies, and_true]
    refine and_iff_left_of_imp fun _ hwatching => ?_
    obtain ⟨other, hother⟩ := h.watching hwatching
    by_cases heq : other = o
    · obtain ⟨found, hfound, _, hid⟩ := hother
      rw [heq, hseen] at hfound
      exact .inl (Option.some.inj hfound ▸ hid)
    · exact .inr ⟨other, heq, hother⟩
  | finishing =>
    have hnot : ¬ seen.Reads := by simp [Observation.Reads, hstage]
    simp only [hstage] at hstep
    obtain rfl := Option.some.inj hstep
    rw [good_finish, hshown]
    simp only [selectedId_applyAnswer, reads_applyAnswer, isWatching_applyAnswer, reduceCtorEq, false_implies, and_true]
    refine and_iff_left_of_imp fun _ _ hwatching => ?_
    obtain ⟨other, hother⟩ := h.watching hwatching
    exact ⟨other, hother.ne hseen hnot, hother⟩
  | streaming =>
    simp only [hstage, reduceCtorEq] at hstep

/-- A step from a good state ends in a good state if and only if it meets its condition. -/
theorem good_step_iff (hr : Regular s) (h : Good s) {e : Event} (hstep : step s e = some s') :
    Good s' ↔ InTime s e := by
  cases e with
  | load =>
    obtain rfl := Option.some.inj hstep
    refine ⟨fun _ => trivial, fun _ => ⟨⟨fun _ hd => ?_, rfl, rfl, List.nodup_nil⟩, h.watching⟩⟩
    exact absurd hd.symm (Option.some_ne_none _)
  | listed call runs =>
    obtain ⟨⟨_, hnodup⟩, rfl⟩ := guard_eq_some.mp hstep
    have hr' : Regular (s.answered call) := ⟨hr.listed, hr.fresh⟩
    have h' : Good (s.answered call) := ⟨h.toShown.of_eq rfl rfl rfl rfl rfl, h.watching⟩
    exact good_showRuns hr' h' hnodup
  | start plan =>
    obtain rfl := Option.some.inj hstep
    refine ⟨fun _ => trivial, fun _ => ?_⟩
    unfold RunViewModel.start
    split
    · exact h
    · split
      · exact h
      · exact ⟨h.toShown.of_eq rfl rfl rfl rfl rfl, h.watching⟩
  | started call run =>
    obtain ⟨_, rfl⟩ := guard_eq_some.mp hstep
    exact ⟨fun _ => trivial, fun _ => ⟨h.toShown.of_eq rfl rfl rfl rfl rfl, h.watching⟩⟩
  | reloaded call =>
    simp only [step] at hstep
    split at hstep
    next run hcall =>
      obtain rfl := Option.some.inj hstep
      have hfresh : s.observations s.next = none := hr.fresh _ (Nat.le_refl _)
      rw [good_observe (s := { s.answered call with selectedRun := some run }) hfresh]
      constructor
      · rintro ⟨_, hwatching⟩ started hstarted
        obtain rfl := Call.reload.inj (Option.some.inj (hcall.symm.trans hstarted))
        exact hwatching
      · exact fun hin => ⟨h.distinct, hin run hcall⟩
    next => cases hstep
  | cancelRun =>
    obtain rfl := Option.some.inj hstep
    refine ⟨fun _ => trivial, fun _ => ?_⟩
    unfold RunViewModel.cancelRun
    split
    · exact h
    · split
      · exact h
      · exact ⟨h.toShown.of_eq rfl rfl rfl rfl rfl, h.watching⟩
  | cancelAsked call =>
    obtain ⟨_, rfl⟩ := guard_eq_some.mp hstep
    exact ⟨fun _ => trivial, fun _ => ⟨h.toShown.of_eq rfl rfl rfl rfl rfl, h.watching⟩⟩
  | callFails call message =>
    simp only [step] at hstep
    split at hstep
    next => cases hstep
    next =>
      obtain rfl := Option.some.inj hstep
      exact ⟨fun _ => trivial, fun _ => ⟨h.toShown.of_eq rfl rfl rfl rfl rfl, h.watching⟩⟩
    next =>
      obtain rfl := Option.some.inj hstep
      exact ⟨fun _ => trivial, fun _ => ⟨h.toShown.of_eq rfl rfl rfl rfl rfl, h.watching⟩⟩
  | select run =>
    obtain rfl := Option.some.inj hstep
    exact good_select hr h run
  | found o detail =>
    cases hseen : s.observations o with
    | none =>
      simp only [step, hseen, reduceCtorEq] at hstep
    | some seen =>
      by_cases hof : ∀ d, detail = some d → d.run.id = seen.run.id
      · exact good_found h hseen hof hstep
      · simp only [step, hseen, if_neg hof, reduceCtorEq] at hstep
  | received o =>
    simp only [step] at hstep
    split at hstep
    next run hseen =>
      obtain rfl := Option.some.inj hstep
      rw [good_setStage_reads (.inr rfl)]
      refine ⟨fun _ => trivial, fun _ => ⟨h.toShown, fun hwatching => ?_⟩⟩
      obtain ⟨other, hother⟩ := h.watching hwatching
      by_cases heq : other = o
      · obtain ⟨found, hfound, _, hid⟩ := hother
        rw [heq, hseen] at hfound
        obtain rfl := Option.some.inj hfound
        exact .inl hid
      · exact .inr ⟨other, heq, hother⟩
    next => cases hstep
  | ended o =>
    simp only [step] at hstep
    split at hstep
    next run _ =>
      obtain rfl := Option.some.inj hstep
      rw [good_setStage_silent (by simp [Observation.Reads])]
      exact ⟨And.right, fun hin => ⟨h.toShown, hin⟩⟩
    next => cases hstep
  | fails o message =>
    obtain ⟨_, rfl⟩ := guard_eq_some.mp hstep
    have hfail : Good (fail message (s.finish o)) ↔ Good (s.finish o) :=
      ⟨fun hgood => ⟨hgood.toShown.of_eq rfl rfl rfl rfl rfl, hgood.watching⟩,
        fun hgood => ⟨hgood.toShown.of_eq rfl rfl rfl rfl rfl, hgood.watching⟩⟩
    rw [hfail, good_finish]
    exact ⟨And.right, fun hin => ⟨h.toShown, hin⟩⟩

/-- The facts that no step breaks. -/
theorem Regular.step (h : Regular s) {e : Event} (hstep : step s e = some s') : Regular s' := by
  cases e with
  | load =>
    obtain rfl := Option.some.inj hstep
    refine ⟨fun d hd => absurd hd.symm (Option.some_ne_none d), fun n hn => ?_⟩
    exact h.fresh n (Nat.le_of_succ_le hn)
  | listed call runs =>
    obtain ⟨_, rfl⟩ := guard_eq_some.mp hstep
    unfold showRuns
    dsimp only
    split
    · refine ⟨fun d hd => ?_, h.fresh⟩
      show d.run.id ∈ (s.runs ++ runs).map (·.id)
      rw [List.map_append]
      exact List.mem_append_left _ (h.listed d hd)
    · refine Regular.observe ?_ _
      exact h.fresh
  | start plan =>
    obtain rfl := Option.some.inj hstep
    unfold RunViewModel.start
    split
    · exact h
    · split
      · exact h
      · exact h.of_eq rfl rfl rfl (Nat.le_succ _)
  | started call run =>
    obtain ⟨_, rfl⟩ := guard_eq_some.mp hstep
    exact h.of_eq rfl rfl rfl (Nat.le_succ _)
  | reloaded call =>
    simp only [RunViewModel.step] at hstep
    split at hstep
    next run _ =>
      obtain rfl := Option.some.inj hstep
      refine Regular.observe ?_ _
      exact h.fresh
    next => cases hstep
  | cancelRun =>
    obtain rfl := Option.some.inj hstep
    unfold RunViewModel.cancelRun
    split
    · exact h
    · split
      · exact h
      · exact h.of_eq rfl rfl rfl (Nat.le_succ _)
  | cancelAsked call =>
    obtain ⟨_, rfl⟩ := guard_eq_some.mp hstep
    exact ⟨h.listed, h.fresh⟩
  | callFails call message =>
    simp only [RunViewModel.step] at hstep
    split at hstep
    next => cases hstep
    next =>
      obtain rfl := Option.some.inj hstep
      exact ⟨h.listed, h.fresh⟩
    next =>
      obtain rfl := Option.some.inj hstep
      exact ⟨h.listed, h.fresh⟩
  | select run =>
    obtain rfl := Option.some.inj hstep
    unfold RunViewModel.select
    split
    · exact ⟨h.listed, h.fresh⟩
    · refine Regular.observe ?_ _
      exact h.fresh
  | found o detail =>
    simp only [RunViewModel.step] at hstep
    split at hstep
    next => cases hstep
    next seen hseen =>
      obtain ⟨_, hstep⟩ := Option.ite_none_right_eq_some.mp hstep
      have hanswer : Regular (RunViewModel.applyAnswer detail s) := h.applyAnswer detail
      have hseen' : (RunViewModel.applyAnswer detail s).observations o = some seen := by rw [observations_applyAnswer, hseen]
      split at hstep
      next =>
        obtain rfl := Option.some.inj hstep
        exact hanswer.openStream hseen' _
      next =>
        obtain rfl := Option.some.inj hstep
        exact hanswer.setStage hseen' _
      next =>
        obtain rfl := Option.some.inj hstep
        exact hanswer.finish o
      next => cases hstep
  | received o =>
    simp only [RunViewModel.step] at hstep
    split at hstep
    next run hseen =>
      obtain rfl := Option.some.inj hstep
      exact h.setStage hseen _
    next => cases hstep
  | ended o =>
    simp only [RunViewModel.step] at hstep
    split at hstep
    next run hseen =>
      obtain rfl := Option.some.inj hstep
      exact h.setStage hseen _
    next => cases hstep
  | fails o message =>
    obtain ⟨_, rfl⟩ := guard_eq_some.mp hstep
    exact ⟨(h.finish o).listed, (h.finish o).fresh⟩

end Steps

/-! ## Runs of the view -/

/-- **The view keeps its promise all through a run if and only if every step of it is in time.** -/
theorem runView_keeps_iff (es : List Event) : Keeps {} es ↔ AllInTime {} es := by
  have hkept : ∀ s e s', Regular s ∧ Good s → step s e = some s' → InTime s e →
      (Regular s' ∧ Good s') ∧ True :=
    fun s e s' hinv hstep hin => ⟨⟨hinv.1.step hstep, (good_step_iff hinv.1 hinv.2 hstep).mpr hin⟩, trivial⟩
  have hbroken : ∀ s e s', Regular s ∧ Good s → step s e = some s' → ¬ InTime s e → ¬ (True ∧ Good s') :=
    fun s e s' hinv hstep hnot hboth => hnot ((good_step_iff hinv.1 hinv.2 hstep).mp hboth.2)
  exact Concurrency.keeps_iff_always (fun _ hinv => hinv.2) hkept hbroken ⟨Regular.start, good_start⟩ es

/-- A run that is being carried out. -/
def runOf (id : String) : Run :=
  { id := ⟨id⟩, projectId := "atlas", goalId := ⟨"P12-G01"⟩, goalRevision := "1f0c", state := .running
    autonomy := .agentic, createdAt := default }

/-- The detail of the run that was selected before comes after the selection has changed, and is shown. -/
theorem late_detail_is_shown :
    ¬ Keeps {} [.select (some (runOf "run-1")), .select (some (runOf "run-2")), .found 0 (some { run := runOf "run-1" })] := by
  intro h
  obtain ⟨_, hsecond⟩ := (h.2 _ rfl).2
  have hfound := (hsecond _ rfl).2.2 _ rfl
  have hgood : Good _ := hfound.2
  exact absurd (hgood.detail _ rfl) (by decide)

end RunViewModel

end AtlasFlow
