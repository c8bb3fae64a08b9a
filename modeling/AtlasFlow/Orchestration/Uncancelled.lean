import Mathlib.Data.Fintype.EquivFin
import AtlasFlow.Concurrency.Total
import AtlasFlow.Orchestration.Passes

/-!
# What an execution that nobody cancels comes to

Every runner has its outcome, and the token is never cancelled. Then the execution comes to an end
without throwing, a task's runner is called exactly when all it depends on, however indirectly, has
outcomes that are successes, and the state of the run is read off the states of its tasks
(`outcomes_decide`).
-/

namespace AtlasFlow

open Concurrency

namespace Uncancelled

open Execution

/-! ## The execution -/

/-- Nobody cancels, no statement throws, and the runner of a task does what its outcome says. -/
def undisturbed (outcome : TaskId → Except Exn TaskOutcome) : Party → (o : Op) → World → Ret o → Bool
  | .canceller, _, _, _ => false
  | .engine, .selectRun .., _, .error _ => false
  | .engine, .selectTasks .., _, .error _ => false
  | .engine, .execute .., _, .error _ => false
  | .engine, .executeInTransaction .., _, .error _ => false
  | .engine, .runTask task, _, r =>
      match r, outcome task.id with
      | .ok a, .ok b => a = b
      | .error a, .error b => a = b
      | _, _ => false
  | .engine, _, _, _ => true

/-- The execution of `Execution.system`, undisturbed. -/
def system (projectId : String) (created : Run) (plan : Plan) (outcome : TaskId → Except Exn TaskOutcome) :
    System Party Op Ret Exn RunEngine.Point Run World :=
  (Execution.system projectId created plan).restrict (undisturbed outcome)

/-- The state `RunOneAsync` leaves a task in. -/
def verdict : Except Exn TaskOutcome → TaskState
  | .ok outcome => if outcome.isSuccess then .succeeded else .failed
  | .error .operationCanceled => .cancelled
  | .error _ => .failed

theorem verdict_eq_succeeded {r : Except Exn TaskOutcome} : verdict r = .succeeded ↔ reported r = true := by
  cases r with
  | ok outcome => cases h : outcome.isSuccess <;> simp [verdict, reported, h]
  | error e => cases e <;> simp [verdict, reported]

theorem verdict_ne_planned (r : Except Exn TaskOutcome) : verdict r ≠ .planned := by
  cases r with
  | ok outcome => cases h : outcome.isSuccess <;> simp [verdict, h]
  | error e => cases e <;> simp [verdict]

variable {projectId : String} {created : Run} {plan : Plan} {outcome : TaskId → Except Exn TaskOutcome}
  {N : Naming} {nodes : List PlanTask} {st : TaskId → TaskState} {rs rs' : RunState}
  {invoked : List TaskId} {w : World}

/-- What the engine knows about the world. -/
structure Here (created : Run) (N : Naming) (nodes : List PlanTask) (st : TaskId → TaskState)
    (rs : RunState) (invoked : List TaskId) (w : World) : Prop where
  stored : StoredRun created N nodes st rs w.db
  calm : w.cancelled = false
  invoked : w.ledger.invoked.map Prod.snd = invoked

/-! ## The engine's calls -/

section Calls

variable (created) (outcome) in
/-- How the engine's calls are answered. -/
def exec (o : Op) (w : World) (r : Ret o) : Option World :=
  if undisturbed outcome .engine o w r then Execution.exec created.id .engine o w r else none

variable {α : Type} {Q : α → World → Prop}

/-- The rule for a call whose answers are recorded nowhere. -/
theorem total_same {o : Op} {k : Ret o → Program α} (hsame : ∀ w r, exec created outcome o w r = some w)
    (hrest : ∀ r, total (exec created outcome) (k r) Q w) : total (exec created outcome) (.call o k) Q w := by
  refine total_call default (hsame w default) fun r w' hexec => ?_
  rw [hsame] at hexec
  cases hexec
  exact hrest r

theorem total_event {runId : RunId} {type : EventType} {payload : List (String × Json)} :
    total (exec created outcome) (Scheduler.event projectId runId type payload) (fun _ w' => w' = w) w := by
  simp only [Scheduler.event, Prog.bind_eq, Prog.op_bind]
  exact total_same (fun _ _ => rfl) fun _ => total_same (fun _ _ => rfl) fun _ => rfl

theorem total_publish {event : DomainEvent} :
    total (exec created outcome) (EventStore.publishAsync event) (fun _ w' => w' = w) w := by
  simp only [EventStore.publishAsync, Prog.bind_eq, Prog.op_bind]
  refine total_same (fun _ _ => rfl) fun listeners => ?_
  refine total_mono (total_forEach (fun _ w' => w' = w) rfl ?_) fun _ _ h => h
  rintro done listener rest w' hall rfl
  exact total_same (fun _ _ => rfl) fun _ => rfl

/-- A statement is answered while the token is not cancelled. -/
theorem answered_calm {β : Type} {ct : CancellationToken} {a : β} {db : Database}
    (hcalm : w.cancelled = false) :
    answered created.id ct (.ok a) w (some db) = some { w with db } := by
  rw [answered, if_neg (by simp [hcalm])]
  rfl

/-- A transaction and its publication. -/
theorem total_commit {write : Write} {event : DomainEvent} {ct : CancellationToken}
    (hcalm : w.cancelled = false) :
    total (exec created outcome) (RunRepository.commitAsync write event ct)
      (fun _ w' => w' = { w with db := (w.db.apply write).insertEvent event }) w := by
  simp only [RunRepository.commitAsync, Prog.bind_eq, Prog.op_bind]
  have hanswer : exec created outcome (.executeInTransaction write event ct) w (.ok ()) =
      some { w with db := (w.db.apply write).insertEvent event } := by
    show answered created.id ct (.ok ()) w (some _) = _
    exact answered_calm hcalm
  refine total_call (.ok ()) hanswer fun r w' hexec => ?_
  cases r with
  | ok _ =>
      obtain rfl := Option.some.inj (hanswer.symm.trans hexec)
      exact total_publish
  | error e => cases hexec

/-- Listing the tasks of the run. -/
theorem total_listTasks {ct : CancellationToken} (hcalm : w.cancelled = false) :
    total (exec created outcome) (RunRepository.listTasksAsync created.id ct)
      (fun tasks w' => w' = w ∧ tasks.Perm (w.db.tasksOf created.id)) w := by
  simp only [RunRepository.listTasksAsync, Prog.bind_eq, Prog.op_bind]
  have hanswer : ∀ tasks : List RunTask, exec created outcome (.selectTasks created.id ct) w (.ok tasks) =
      answered created.id ct (.ok tasks) w
        (if tasks.Perm (w.db.tasksOf created.id) then some w.db else none) := fun _ => rfl
  have hall : exec created outcome (.selectTasks created.id ct) w (.ok (w.db.tasksOf created.id)) =
      some w := by
    rw [hanswer, if_pos (List.Perm.refl _)]
    exact answered_calm hcalm
  refine total_call _ hall fun r w' hexec => ?_
  cases r with
  | ok tasks =>
      rw [hanswer] at hexec
      split at hexec
      · next hperm =>
          rw [answered_calm hcalm] at hexec
          exact ⟨(Option.some.inj hexec).symm, hperm⟩
      · rw [answered] at hexec
        split at hexec <;> cases hexec
  | error e => cases hexec

/-- Finding the run. -/
theorem total_findRun {ct : CancellationToken} (hcalm : w.cancelled = false) :
    total (exec created outcome) (RunRepository.findAsync created.id ct)
      (fun _ w' => w' = w) w := by
  simp only [RunRepository.findAsync, Prog.bind_eq, Prog.op_bind]
  have hanswer : ∀ run : Option Run, exec created outcome (.selectRun created.id ct) w (.ok run) =
      answered created.id ct (.ok run) w (if run = w.db.findRun created.id then some w.db else none) :=
    fun _ => rfl
  have hrow : exec created outcome (.selectRun created.id ct) w (.ok (w.db.findRun created.id)) = some w := by
    rw [hanswer, if_pos rfl]
    exact answered_calm hcalm
  refine total_call _ hrow fun r w' hexec => ?_
  cases r with
  | ok run =>
      rw [hanswer] at hexec
      split at hexec
      · rw [answered_calm hcalm] at hexec
        exact (Option.some.inj hexec).symm
      · rw [answered] at hexec
        split at hexec <;> cases hexec
  | error e => cases hexec

end Calls

/-! ## Transitions -/

section Transitions

variable {type : EventType} {extra : List (String × Json)} {ct : CancellationToken}

theorem total_transition {E S κ R : Type} [DecidableEq κ] {kind : EntityKind E S κ R} {entity : E} {target : S}
    {event : DomainEvent} (hlegal : kind.canTransition (kind.state entity) target = true)
    (hcalm : w.cancelled = false) :
    total (exec created outcome) (RunRepository.transition kind entity target event ct)
      (fun updated w' => updated = kind.withState entity target ∧
        w' = { w with db := (w.db.apply (kind.write updated)).insertEvent event }) w := by
  rw [RunRepository.transition, if_pos hlegal]
  exact total_seq (total_commit hcalm) fun _ w' hw => ⟨rfl, hw⟩

/-- Moving a node's task. -/
theorem total_moveTask (hnodup : (plan.tasks.map PlanTask.id).Nodup) (hinj : N.Injective plan.tasks)
    {node : PlanTask} {task : RunTask} {s : TaskState} (hnode : node ∈ plan.tasks)
    (htask : task.persisted = (N.task created.id node (st node.id)).persisted)
    (hlegal : (st node.id).canTransition s = true)
    (hw : Here created N plan.tasks st rs invoked w) :
    total (exec created outcome) (Scheduler.moveTask projectId task s type extra ct)
      (fun task' w => Here created N plan.tasks (Function.update st node.id s) rs invoked w ∧
        task'.persisted = (N.task created.id node s).persisted) w := by
  have hstate : task.state = st node.id := congrArg RunTask.state htask
  have hupdated : ({ task with state := s } : RunTask).persisted =
      (N.task created.id node s).persisted := by
    show ({ task.persisted with state := s } : RunTask) = _
    rw [htask]
    rfl
  refine total_seq total_event fun event w' hw' => ?_
  subst hw'
  have hcan : taskKind.canTransition (taskKind.state task) s = true := by
    show task.state.canTransition s = true
    rw [hstate]
    exact hlegal
  refine total_mono (total_transition hcan hw.calm) ?_
  rintro _ w' ⟨rfl, rfl⟩
  exact ⟨⟨(hw.stored.task_written hinj hnodup hnode hupdated).insertEvent event, hw.calm, hw.invoked⟩,
    hupdated⟩

/-- Moving the run. -/
theorem total_moveRun {run : Run} (hrun : run.persisted = { created with state := rs }.persisted)
    (hlegal : rs.canTransition rs' = true) (hw : Here created N nodes st rs invoked w) :
    total (exec created outcome) (Scheduler.moveRun projectId run rs' type extra ct)
      (fun run' w => Here created N nodes st rs' invoked w ∧
        run'.persisted = { created with state := rs' }.persisted) w := by
  have hstate : run.state = rs := congrArg Run.state hrun
  have hupdated : ({ run with state := rs' } : Run).persisted =
      { created with state := rs' }.persisted := by
    show ({ run.persisted with state := rs' } : Run) = _
    rw [hrun]
    rfl
  refine total_seq total_event fun event w' hw' => ?_
  subst hw'
  have hcan : runKind.canTransition (runKind.state run) rs' = true := by
    show run.state.canTransition rs' = true
    rw [hstate]
    exact hlegal
  refine total_mono (total_transition hcan hw.calm) ?_
  rintro _ w' ⟨rfl, rfl⟩
  exact ⟨⟨(hw.stored.run_written hupdated).insertEvent event, hw.calm, hw.invoked⟩, hupdated⟩

end Transitions

/-! ## One task -/

theorem undisturbed_runTask {task : RunTask} {r : Except Exn TaskOutcome} :
    undisturbed outcome .engine (.runTask task) w r = true ↔ r = outcome task.id := by
  simp only [undisturbed]
  cases r <;> cases outcome task.id <;> simp

/-- Calling a task's runner. -/
theorem total_runTask {α : Type} {Q : α → World → Prop} {task : RunTask}
    {k : Except Exn TaskOutcome → Program α}
    (hrest : total (exec created outcome) (k (outcome task.id)) Q (w.invoke task (outcome task.id))) :
    total (exec created outcome) (.call (.runTask task) k) Q w := by
  have hanswer : exec created outcome (.runTask task) w (outcome task.id) =
      some (w.invoke task (outcome task.id)) := if_pos (undisturbed_runTask.mpr rfl)
  refine total_call _ hanswer fun r w' hexec => ?_
  unfold exec at hexec
  split at hexec
  · next hr =>
      obtain rfl := undisturbed_runTask.mp hr
      obtain rfl := Option.some.inj hexec
      exact hrest
  · cases hexec

/-- **One task**: its runner is called, and it ends as the outcome says. -/
theorem total_runOne (hnodup : (plan.tasks.map PlanTask.id).Nodup) (hinj : N.Injective plan.tasks)
    {node : PlanTask} {planned : RunTask} {ct : CancellationToken} (hnode : node ∈ plan.tasks)
    (hst : st node.id = .planned)
    (hplanned : planned.persisted = (N.task created.id node .planned).persisted)
    (hw : Here created N plan.tasks st rs invoked w) :
    total (exec created outcome) (RunEngine.runOneAsync projectId planned ct)
      (fun _ => Here created N plan.tasks
        (Function.update st node.id (verdict (outcome (N.id node.id)))) rs
        (invoked ++ [N.id node.id])) w := by
  -- Every move of this task overwrites the state the last one left.
  have hmove : ∀ {invoked : List TaskId} {w : World} {task : RunTask} {old new : TaskState}
      {type : EventType} {extra : List (String × Json)} {ct : CancellationToken},
      task.persisted = (N.task created.id node old).persisted → old.canTransition new = true →
      Here created N plan.tasks (Function.update st node.id old) rs invoked w →
      total (exec created outcome) (Scheduler.moveTask projectId task new type extra ct)
        (fun task' w => Here created N plan.tasks (Function.update st node.id new) rs invoked w ∧
          task'.persisted = (N.task created.id node new).persisted) w := by
    intro invoked w task old new type extra ct htask hlegal hw
    have hold : Function.update st node.id old node.id = old := Function.update_self ..
    rw [← Function.update_idem old new st]
    exact total_moveTask hnodup hinj hnode (by rw [hold]; exact htask) (by rw [hold]; exact hlegal) hw
  have hstart : Here created N plan.tasks (Function.update st node.id .planned) rs invoked w := by
    rw [← hst, Function.update_eq_self]
    exact hw
  refine total_seq (hmove hplanned rfl hstart) fun task w ⟨hw, htask⟩ => ?_
  refine total_seq (hmove htask rfl hw) fun task w ⟨hw, htask⟩ => ?_
  have hid : task.id = N.id node.id := congrArg RunTask.id htask
  rw [← hid]
  refine total_runTask ?_
  have hafter : Here created N plan.tasks (Function.update st node.id .running) rs
      (invoked ++ [task.id]) (w.invoke task (outcome task.id)) := by
    refine ⟨hw.stored, hw.calm, ?_⟩
    show (w.ledger.invoked ++ [_]).map Prod.snd = _
    rw [List.map_append, hw.invoked]
    rfl
  have hfinish : ∀ {new : TaskState} {extra : List (String × Json)} {type : EventType}
      {ct : CancellationToken}, TaskState.running.canTransition new = true →
      total (exec created outcome)
        ((Scheduler.moveTask projectId task new type extra ct).bind fun _ => .ret ())
        (fun _ => Here created N plan.tasks (Function.update st node.id new) rs
          (invoked ++ [task.id])) (w.invoke task (outcome task.id)) :=
    fun hlegal => total_seq (hmove htask hlegal hafter) fun _ _ hw => hw.1
  cases hr : outcome task.id with
  | ok result =>
      rw [hr] at hfinish
      show total _ (if result.isSuccess then _ else _) _ _
      cases hsuccess : result.isSuccess with
      | true =>
          have hverdict : verdict (.ok result) = .succeeded := by simp [verdict, hsuccess]
          rw [hverdict]
          exact hfinish rfl
      | false =>
          have hverdict : verdict (.ok result) = .failed := by simp [verdict, hsuccess]
          rw [hverdict]
          exact hfinish rfl
  | error e =>
      rw [hr] at hfinish
      cases e <;> exact hfinish rfl

/-! ## One pass -/

/-- In a pass that began with states `st₀` and the runners in `invoked₀` called: the tasks in `done` have
ended as their outcomes say, the others are as they were. -/
structure During (created : Run) (plan : Plan) (outcome : TaskId → Except Exn TaskOutcome) (N : Naming)
    (st₀ : TaskId → TaskState) (invoked₀ : List TaskId) (done : List RunTask) (st : TaskId → TaskState)
    (w : World) : Prop where
  here : Here created N plan.tasks st .running (invoked₀ ++ done.map RunTask.id) w
  others : ∀ node ∈ plan.tasks, N.id node.id ∉ done.map RunTask.id → st node.id = st₀ node.id
  mine : ∀ node ∈ plan.tasks, N.id node.id ∈ done.map RunTask.id →
    st node.id = verdict (outcome (N.id node.id))

/-- **The tasks of a pass**, one after the other. -/
theorem total_ready (hnodup : (plan.tasks.map PlanTask.id).Nodup) (hinj : N.Injective plan.tasks)
    {st₀ : TaskId → TaskState} {invoked₀ : List TaskId} {ready : List RunTask} {ct : CancellationToken}
    (hdistinct : (ready.map RunTask.id).Nodup)
    (hready : ∀ task ∈ ready, ∃ node ∈ plan.tasks, st₀ node.id = .planned ∧
      task = (N.task created.id node .planned).persisted)
    (hw : Here created N plan.tasks st₀ .running invoked₀ w) :
    total (exec created outcome)
      (Prog.forEach (fun planned => RunEngine.runOneAsync projectId planned ct) ready)
      (fun _ w => ∃ st, During created plan outcome N st₀ invoked₀ ready st w) w := by
  refine total_forEach (fun done w => ∃ st, During created plan outcome N st₀ invoked₀ done st w)
    ⟨st₀, by simpa using hw, fun _ _ _ => rfl, fun _ _ h => by simp at h⟩ ?_
  rintro done planned rest w hall ⟨st, h⟩
  obtain ⟨node, hnode, hst₀, rfl⟩ := hready planned (by rw [hall]; simp)
  have hnew : N.id node.id ∉ done.map RunTask.id := by
    intro hmem
    rw [hall, List.map_append] at hdistinct
    exact (List.nodup_append.mp hdistinct).2.2 _ hmem _ List.mem_cons_self rfl
  have hst : st node.id = .planned := (h.others node hnode hnew).trans hst₀
  refine total_mono (total_runOne hnodup hinj hnode hst rfl h.here) fun _ w here => ?_
  refine ⟨Function.update st node.id (verdict (outcome (N.id node.id))), ?_, fun n hn hnot => ?_,
    fun n hn hmem => ?_⟩
  · rw [List.map_append, ← List.append_assoc]
    exact here
  · rw [List.map_append, List.mem_append, not_or] at hnot
    have hne : n.id ≠ node.id := fun heq => hnot.2 (List.mem_singleton.mpr (by rw [heq]; rfl))
    rw [Function.update_of_ne hne]
    exact h.others n hn hnot.1
  · by_cases heq : n.id = node.id
    · rw [heq, Function.update_self]
    · rw [Function.update_of_ne heq]
      rw [List.map_append, List.mem_append] at hmem
      refine h.mine n hn (hmem.resolve_right fun hlast => heq ?_)
      have hid : N.id n.id = N.id node.id := List.mem_singleton.mp hlast
      exact congrArg PlanTask.id (hinj n hn node hnode hid)

/-! ## Between two passes -/

/-- Every task is as it was planned and its runner has not been called, or it has ended as its outcome
says, after all it depends on had succeeded. -/
structure Resting (plan : Plan) (outcome : TaskId → Except Exn TaskOutcome) (N : Naming)
    (st : TaskId → TaskState) (invoked : List TaskId) : Prop where
  planned : ∀ node ∈ plan.tasks, st node.id = .planned ↔ N.id node.id ∉ invoked
  ended : ∀ node ∈ plan.tasks, st node.id ≠ .planned →
    st node.id = verdict (outcome (N.id node.id)) ∧ ∀ d ∈ node.dependencies, st d = .succeeded

/-- All that a node depends on, however indirectly, has outcomes that are successes. -/
def Cleared (plan : Plan) (outcome : TaskId → Except Exn TaskOutcome) (N : Naming) (id : TaskId) : Prop :=
  ∀ d, Relation.TransGen (fun n d => d ∈ edges plan n) id d → reported (outcome (N.id d)) = true

section Resting

variable (hvalid : TaskGraph.Valid plan.tasks)
include hvalid

/-- **A pass** brings the tasks to rest again. -/
theorem Resting.next {st₀ : TaskId → TaskState} {invoked₀ : List TaskId} {ready : List RunTask}
    (h₀ : Resting plan outcome N st₀ invoked₀) (hinj : N.Injective plan.tasks)
    (hready : ∀ task, task ∈ ready ↔ ∃ node ∈ plan.tasks, IsReady st₀ node ∧
      task = (N.task created.id node .planned).persisted)
    (h : During created plan outcome N st₀ invoked₀ ready st w) :
    Resting plan outcome N st (invoked₀ ++ ready.map RunTask.id) := by
  have hmine : ∀ node ∈ plan.tasks, N.id node.id ∈ ready.map RunTask.id ↔ IsReady st₀ node := by
    intro node hnode
    constructor
    · intro hmem
      obtain ⟨task, htask, hid⟩ := List.mem_map.mp hmem
      obtain ⟨n, hn, hisReady, rfl⟩ := (hready task).mp htask
      obtain rfl := hinj n hn node hnode hid
      exact hisReady
    · intro hisReady
      exact List.mem_map.mpr ⟨_, (hready _).mpr ⟨node, hnode, hisReady, rfl⟩, rfl⟩
  -- A task that had succeeded is not one of this pass.
  have hkept : ∀ node ∈ plan.tasks, ∀ d ∈ node.dependencies, st₀ d = .succeeded → st d = .succeeded := by
    intro node hnode d hd hsucceeded
    obtain ⟨dependency, hmem, rfl⟩ := List.mem_map.mp (hvalid.known hnode hd)
    rw [h.others dependency hmem, hsucceeded]
    intro hready
    have hplanned := ((hmine dependency hmem).mp hready).1
    rw [hsucceeded] at hplanned
    cases hplanned
  constructor
  · intro node hnode
    rw [List.mem_append, not_or]
    by_cases hmem : N.id node.id ∈ ready.map RunTask.id
    · refine iff_of_false ?_ fun hnot => hnot.2 hmem
      rw [h.mine node hnode hmem]
      exact verdict_ne_planned _
    · rw [h.others node hnode hmem, h₀.planned node hnode]
      exact ⟨fun hnot => ⟨hnot, hmem⟩, And.left⟩
  · intro node hnode hended
    by_cases hmem : N.id node.id ∈ ready.map RunTask.id
    · exact ⟨h.mine node hnode hmem, fun d hd =>
        hkept node hnode d hd (((hmine node hnode).mp hmem).2 d hd)⟩
    · rw [h.others node hnode hmem] at hended ⊢
      have hbefore := h₀.ended node hnode hended
      exact ⟨hbefore.1, fun d hd => hkept node hnode d hd (hbefore.2 d hd)⟩

/-- What has ended was cleared: an induction along the dependencies. -/
theorem Resting.cleared_of_ended (h : Resting plan outcome N st invoked) {node : PlanTask}
    (hnode : node ∈ plan.tasks) (hended : st node.id ≠ .planned) :
    Cleared plan outcome N node.id := by
  -- Every node on the way has succeeded.
  have hstep : ∀ id d, id ∈ plan.tasks.map PlanTask.id → st id ≠ .planned → d ∈ edges plan id →
      d ∈ plan.tasks.map PlanTask.id ∧ st d = .succeeded := by
    intro id d hid hended hd
    obtain ⟨n, hn, rfl⟩ := List.mem_map.mp hid
    rw [edges, TaskGraph.edges_of_mem hvalid.nodup hn] at hd
    exact ⟨hvalid.known hn hd, (h.ended n hn hended).2 d hd⟩
  have hall : ∀ d, Relation.TransGen (fun n d => d ∈ edges plan n) node.id d →
      d ∈ plan.tasks.map PlanTask.id ∧ st d = .succeeded := by
    intro d hpath
    induction hpath with
    | single hd => exact hstep _ _ (List.mem_map_of_mem hnode) hended hd
    | tail _ hd ih => exact hstep _ _ ih.1 (by rw [ih.2]; simp) hd
  intro d hpath
  obtain ⟨hmem, hsucceeded⟩ := hall d hpath
  obtain ⟨n, hn, rfl⟩ := List.mem_map.mp hmem
  have hverdict := (h.ended n hn (by rw [hsucceeded]; simp)).1
  rw [hsucceeded] at hverdict
  exact verdict_eq_succeeded.mp hverdict.symm

/-- What was cleared has ended, once nothing is ready: an induction on the plan's graph. -/
theorem Resting.ended_of_cleared (h : Resting plan outcome N st invoked)
    (hnone : ∀ node ∈ plan.tasks, ¬ IsReady st node) {node : PlanTask} (hnode : node ∈ plan.tasks)
    (hcleared : Cleared plan outcome N node.id) : st node.id ≠ .planned := by
  suffices hall : ∀ id, Acc (fun d n => d ∈ edges plan n) id → ∀ node ∈ plan.tasks, node.id = id →
      Cleared plan outcome N id → st id ≠ .planned from
    hall _ (hvalid.acc (List.mem_map_of_mem hnode)) node hnode rfl hcleared
  intro id hacc
  induction hacc with
  | intro id _ ih =>
      rintro node hnode rfl hcleared hplanned
      refine hnone node hnode ⟨hplanned, fun d hd => ?_⟩
      obtain ⟨dependency, hmem, rfl⟩ := List.mem_map.mp (hvalid.known hnode hd)
      have hedge : dependency.id ∈ edges plan node.id := by
        rw [edges, TaskGraph.edges_of_mem hvalid.nodup hnode]
        exact hd
      have hended := ih _ hedge dependency hmem rfl fun d hpath => hcleared d (.head hedge hpath)
      rw [(h.ended dependency hmem hended).1, verdict_eq_succeeded]
      exact hcleared _ (.single hedge)

/-- If nothing is ready and nothing failed or was cancelled, everything has succeeded. -/
theorem Resting.succeeded (h : Resting plan outcome N st invoked)
    (hnone : ∀ node ∈ plan.tasks, ¬ IsReady st node)
    (hgood : ∀ node ∈ plan.tasks, st node.id ≠ .failed ∧ st node.id ≠ .cancelled) :
    ∀ node ∈ plan.tasks, st node.id = .succeeded := by
  have hverdict : ∀ node ∈ plan.tasks, st node.id ≠ .planned → st node.id = .succeeded := by
    intro node hnode hended
    have hgood := hgood node hnode
    rw [(h.ended node hnode hended).1] at hgood ⊢
    cases hr : outcome (N.id node.id) with
    | ok result => cases hs : result.isSuccess <;> simp_all [verdict]
    | error e => cases e <;> simp_all [verdict]
  suffices hall : ∀ id, Acc (fun d n => d ∈ edges plan n) id → ∀ node ∈ plan.tasks, node.id = id →
      st id ≠ .planned from
    fun node hnode => hverdict node hnode
      (hall _ (hvalid.acc (List.mem_map_of_mem hnode)) node hnode rfl)
  intro id hacc
  induction hacc with
  | intro id _ ih =>
      rintro node hnode rfl hplanned
      refine hnone node hnode ⟨hplanned, fun d hd => ?_⟩
      obtain ⟨dependency, hmem, rfl⟩ := List.mem_map.mp (hvalid.known hnode hd)
      refine hverdict dependency hmem (ih _ ?_ dependency hmem rfl)
      rw [edges, TaskGraph.edges_of_mem hvalid.nodup hnode]
      exact hd

end Resting

/-! ## How the run ends -/

/-- The state of the run, read off the states of its tasks. -/
structure ReadOff (plan : Plan) (st : TaskId → TaskState) (rs : RunState) : Prop where
  verifying : rs = .verifying ↔ ∀ node ∈ plan.tasks, st node.id = .succeeded
  failed : rs = .failed ↔ ∃ node ∈ plan.tasks, st node.id = .failed
  settled : rs = .verifying ∨ rs = .failed ∨ rs = .cancelled

/-- **Evaluating the run** reads its state off the states of its tasks. -/
theorem total_evaluate (hvalid : TaskGraph.Valid plan.tasks) (hne : plan.tasks ≠ []) {run : Run}
    {ct : CancellationToken} (hid : run.id = created.id)
    (hrun : run.persisted = { created with state := .running }.persisted)
    (hrest : Resting plan outcome N st invoked) (hnone : ∀ node ∈ plan.tasks, ¬ IsReady st node)
    (hw : Here created N plan.tasks st .running invoked w) :
    total (exec created outcome) (Scheduler.evaluateCompletionAsync projectId run ct)
      (fun _ w => ∃ rs, ReadOff plan st rs ∧ Here created N plan.tasks st rs invoked w) w := by
  simp only [Scheduler.evaluateCompletionAsync, Prog.bind_eq]
  rw [hid]
  refine total_seq (total_listTasks hw.calm) fun tasks w hlisted => ?_
  obtain ⟨rfl, hperm⟩ := hlisted
  have hrows := hperm.trans hw.stored.tasks
  have hany : ∀ s, (tasks.any fun task => task.state = s) = true ↔
      ∃ node ∈ plan.tasks, st node.id = s := by
    intro s
    rw [List.any_eq_true]
    constructor
    · rintro ⟨task, htask, hs⟩
      obtain ⟨node, hnode, rfl⟩ := Naming.mem_rows.mp (hrows.mem_iff.mp htask)
      exact ⟨node, hnode, of_decide_eq_true hs⟩
    · rintro ⟨node, hnode, hs⟩
      exact ⟨_, hrows.mem_iff.mpr (Naming.mem_rows.mpr ⟨node, hnode, rfl⟩), decide_eq_true hs⟩
  have hmove : ∀ {rs : RunState} (b : Bool), RunState.running.canTransition rs = true →
      ReadOff plan st rs →
      total (exec created outcome)
        ((Scheduler.advanceAsync projectId run rs ct).bind fun _ => .ret b)
        (fun _ w => ∃ rs, ReadOff plan st rs ∧ Here created N plan.tasks st rs invoked w) w :=
    fun b hlegal hread => total_seq (total_moveRun hrun hlegal hw) fun _ _ h => ⟨_, hread, h.1⟩
  have hsome : tasks.length ≠ 0 := by
    rw [hrows.length_eq, Naming.rows, List.length_map]
    exact fun hzero => hne (List.length_eq_zero_iff.mp hzero)
  rw [if_neg hsome]
  split
  · next hfailed =>
      obtain ⟨node, hnode, hs⟩ := (hany _).mp hfailed
      refine hmove false rfl ⟨iff_of_false (by rintro ⟨⟩) fun hall => ?_, iff_of_true rfl ⟨node, hnode, hs⟩, .inr (.inl rfl)⟩
      rw [hall node hnode] at hs
      cases hs
  · next hfailed =>
      have hnofailed : ¬ ∃ node ∈ plan.tasks, st node.id = .failed := fun h => hfailed ((hany _).mpr h)
      split
      · next hcancelled =>
          obtain ⟨node, hnode, hs⟩ := (hany _).mp hcancelled
          refine hmove false rfl ⟨iff_of_false (by rintro ⟨⟩) fun hall => ?_, iff_of_false (by rintro ⟨⟩) hnofailed, .inr (.inr rfl)⟩
          rw [hall node hnode] at hs
          cases hs
      · next hcancelled =>
          have hall := hrest.succeeded hvalid hnone fun node hnode =>
            ⟨fun h => hnofailed ⟨node, hnode, h⟩, fun h => hcancelled ((hany _).mpr ⟨node, hnode, h⟩)⟩
          have hterminal : (tasks.all fun task => task.state.isTerminal) = true := by
            rw [List.all_eq_true]
            intro task htask
            obtain ⟨node, hnode, rfl⟩ := Naming.mem_rows.mp (hrows.mem_iff.mp htask)
            show (st node.id).isTerminal = true
            rw [hall node hnode]
            rfl
          rw [if_pos hterminal]
          exact hmove true rfl ⟨iff_of_true rfl hall, iff_of_false (by rintro ⟨⟩) hnofailed, .inl rfl⟩

/-- What the execution has come to: the tasks that were cleared have ended as their outcomes say, after
one call of their runners; the others are as they were planned, and their runners were not called; and
the state of the run is read off the states of the tasks. -/
structure Decided (created : Run) (plan : Plan) (outcome : TaskId → Except Exn TaskOutcome) (N : Naming)
    (st : TaskId → TaskState) (rs : RunState) (w : World) : Prop where
  injective : N.Injective plan.tasks
  stored : StoredRun created N plan.tasks st rs w.db
  cleared : ∀ node ∈ plan.tasks, Cleared plan outcome N node.id →
    N.id node.id ∈ w.ledger.invoked.map Prod.snd ∧ st node.id = verdict (outcome (N.id node.id))
  held : ∀ node ∈ plan.tasks, ¬ Cleared plan outcome N node.id →
    N.id node.id ∉ w.ledger.invoked.map Prod.snd ∧ st node.id = .planned
  verifying : rs = .verifying ↔ ∀ node ∈ plan.tasks, st node.id = .succeeded
  failed : rs = .failed ↔
    ∃ node ∈ plan.tasks, N.id node.id ∈ w.ledger.invoked.map Prod.snd ∧ st node.id = .failed
  settled : rs = .verifying ∨ rs = .failed ∨ rs = .cancelled

theorem Resting.decided (hvalid : TaskGraph.Valid plan.tasks) (hinj : N.Injective plan.tasks)
    (hrest : Resting plan outcome N st invoked) (hnone : ∀ node ∈ plan.tasks, ¬ IsReady st node)
    (hread : ReadOff plan st rs) (hw : Here created N plan.tasks st rs invoked w) :
    Decided created plan outcome N st rs w := by
  have hinvoked : ∀ node ∈ plan.tasks, N.id node.id ∈ w.ledger.invoked.map Prod.snd ↔
      st node.id ≠ .planned := by
    intro node hnode
    rw [hw.invoked, Ne, hrest.planned node hnode, not_not]
  refine ⟨hinj, hw.stored, fun node hnode hcleared => ?_, fun node hnode hnot => ?_, hread.verifying, ?_,
    hread.settled⟩
  · have hended := hrest.ended_of_cleared hvalid hnone hnode hcleared
    exact ⟨(hinvoked node hnode).mpr hended, (hrest.ended node hnode hended).1⟩
  · have hplanned : st node.id = .planned := by
      by_contra hended
      exact hnot (hrest.cleared_of_ended hvalid hnode hended)
    exact ⟨fun hmem => (hinvoked node hnode).mp hmem hplanned, hplanned⟩
  · rw [hread.failed]
    refine exists_congr fun node => and_congr_right fun hnode => ⟨fun hs => ⟨?_, hs⟩, And.right⟩
    rw [hinvoked node hnode, hs]
    simp

/-! ## The rounds of the loop -/

/-- How many tasks of the run are waiting. -/
def waiting (created : Run) (w : World) : Nat :=
  ((w.db.tasksOf created.id).filter fun task => task.state = .planned).length

theorem Here.waiting (hw : Here created N nodes st rs invoked w) :
    waiting created w = (nodes.filter fun node => st node.id = .planned).length := by
  rw [Uncancelled.waiting, (hw.stored.tasks.filter _).length_eq, Naming.rows, List.filter_map, List.length_map]
  rfl

/-- Where the engine goes round: with the run it has moved to running, and the tasks at rest. -/
def Rounds (created : Run) (plan : Plan) (outcome : TaskId → Except Exn TaskOutcome) (run : Run)
    (w : World) : Prop :=
  run.persisted = { created with state := .running }.persisted ∧ ∃ N st invoked, N.Injective plan.tasks ∧
    Here created N plan.tasks st .running invoked w ∧ Resting plan outcome N st invoked

/-- Fewer elements meet a stronger condition that one of them fails. -/
theorem length_filter_lt {α : Type} {p q : α → Bool} {l : List α} {a : α} (himp : ∀ a ∈ l, q a = true → p a = true)
    (ha : a ∈ l) (hp : p a = true) (hq : q a = false) : (l.filter q).length < (l.filter p).length := by
  have hsub : (l.filter q).Sublist (l.filter p) := by
    have hboth : l.filter q = (l.filter p).filter q := by
      rw [List.filter_filter]
      refine List.filter_congr fun b hb => ?_
      cases hqb : q b
      · rfl
      · rw [himp b hb hqb]
        rfl
    rw [hboth]
    exact List.filter_sublist
  refine lt_of_le_of_ne hsub.length_le fun heq => ?_
  have hmem : a ∈ l.filter q := hsub.eq_of_length heq ▸ List.mem_filter.mpr ⟨ha, hp⟩
  rw [(List.mem_filter.mp hmem).2] at hq
  cases hq

/-- **One round**: the run is decided, or fewer tasks are waiting. -/
theorem total_pass (hvalid : TaskGraph.Valid plan.tasks) (hne : plan.tasks ≠ []) {run : Run}
    {ct : CancellationToken} (hw : Rounds created plan outcome run w) :
    total (exec created outcome) (RunEngine.pass projectId run ct)
      (fun
        | .inl .start => fun _ => False
        | .inl (.pass run) => fun w' => Rounds created plan outcome run w' ∧
            waiting created w' < waiting created w
        | .inr _ => fun w' => ∃ N st rs, Decided created plan outcome N st rs w') w := by
  obtain ⟨hrun, N, st, invoked, hinj, hw, hrest⟩ := hw
  have hid : run.id = created.id := by
    show run.persisted.id = created.id
    rw [hrun]
    rfl
  have hanswer : exec created outcome .isCancellationRequested w false = some w.look := by
    show (if false = w.cancelled then _ else _) = _
    rw [if_pos hw.calm.symm]
  simp only [RunEngine.pass, Prog.bind_eq, Prog.op_bind]
  refine total_call false hanswer fun r w' hexec => ?_
  have hexec : (if r = w.cancelled then some w.look else none) = some w' := hexec
  obtain ⟨hr, rfl⟩ : r = w.cancelled ∧ w.look = w' := by simpa using hexec
  obtain rfl : r = false := hr.trans hw.calm
  have hlook : Here created N plan.tasks st .running invoked w.look := by
    have hcalm := hw.calm
    rw [World.look, if_neg (by simp [hcalm])]
    exact ⟨hw.stored, hw.calm, hw.invoked⟩
  have hwaiting : waiting created w = (plan.tasks.filter fun node => st node.id = .planned).length :=
    hw.waiting
  rw [hwaiting]
  show total _ (Prog.bind (RunRepository.listTasksAsync run.id ct) _) _ _
  rw [hid]
  refine total_seq (total_listTasks hlook.calm) fun tasks w' hlisted => ?_
  obtain ⟨hw', hperm⟩ := hlisted
  rw [hw']
  obtain ⟨ready, hready, hnodup, hmem⟩ := readyTasks_rows hvalid hinj (hperm.trans hlook.stored.tasks)
  rw [hready]
  simp only [Prog.ofExcept_ok, Prog.ret_bind]
  split
  · next hempty =>
      have hnil : ready = [] := List.length_eq_zero_iff.mp hempty
      have hnone : ∀ node ∈ plan.tasks, ¬ IsReady st node := fun node hnode hisReady => by
        have := (hmem _).mpr ⟨node, hnode, hisReady, rfl⟩
        rw [hnil] at this
        cases this
      refine total_seq (total_evaluate hvalid hne hid hrun hrest hnone hlook) fun _ w hevaluated => ?_
      obtain ⟨rs, hread, hw⟩ := hevaluated
      rw [hid]
      refine total_seq (total_findRun hw.calm) fun _ w' hw' => ?_
      rw [hw']
      exact ⟨N, st, rs, hrest.decided hvalid hinj hnone hread hw⟩
  · next hsome =>
      obtain ⟨task, htask⟩ := List.exists_mem_of_ne_nil ready fun hnil => hsome (by rw [hnil]; rfl)
      refine total_seq (total_ready hvalid.nodup hinj hnodup (fun task htask => ?_) hlook) fun _ w hdone => ?_
      · obtain ⟨node, hnode, hisReady, rfl⟩ := (hmem task).mp htask
        exact ⟨node, hnode, hisReady.1, rfl⟩
      · obtain ⟨st', h⟩ := hdone
        refine ⟨⟨hrun, N, st', _, hinj, h.here, hrest.next hvalid hinj hmem h⟩, ?_⟩
        -- A task that was ready has ended; none is planned again.
        obtain ⟨node, hnode, hisReady, rfl⟩ := (hmem task).mp htask
        rw [h.here.waiting]
        refine length_filter_lt (fun n hn hplanned => ?_) hnode (decide_eq_true hisReady.1) ?_
        · have hplanned : st' n.id = .planned := of_decide_eq_true hplanned
          by_cases hin : N.id n.id ∈ ready.map RunTask.id
          · rw [h.mine n hn hin] at hplanned
            exact absurd hplanned (verdict_ne_planned _)
          · exact decide_eq_true ((h.others n hn hin).symm.trans hplanned)
        · refine decide_eq_false ?_
          rw [h.mine node hnode (List.mem_map.mpr ⟨_, htask, rfl⟩)]
          exact verdict_ne_planned _

/-! ## Before the loop -/

/-- There is always another task id. -/
theorem exists_fresh (used : List TaskId) : ∃ id, id ∉ used := by
  obtain ⟨value, hvalue⟩ := Infinite.exists_notMem_finset (used.map TaskId.value).toFinset
  refine ⟨⟨value⟩, fun hmem => hvalue ?_⟩
  rw [List.mem_toFinset]
  exact List.mem_map_of_mem hmem

theorem total_rewrite {rewritten : List (TaskId × TaskId)} {todo : List PlanTask}
    (hkeys : (rewritten.map Prod.fst ++ todo.map PlanTask.id).Nodup)
    (hdistinct : (rewritten.map Prod.snd).Nodup) (hused : ∀ id ∈ rewritten.map Prod.snd, id ∈ w.used)
    (hw : Here created N nodes st rs invoked w) :
    total (exec created outcome) (RunEngine.rewrite todo rewritten)
      (fun result w => Here created N nodes st rs invoked w ∧
        Named result (rewritten.map Prod.fst ++ todo.map PlanTask.id)) w := by
  induction todo generalizing rewritten w with
  | nil => exact ⟨hw, (List.append_nil _).symm, hdistinct⟩
  | cons node todo ih =>
      simp only [RunEngine.rewrite, Prog.bind_eq, Prog.op_bind]
      obtain ⟨id₀, hid₀⟩ := exists_fresh w.used
      have hanswer : exec created outcome .newTaskId w id₀ = some { w with used := id₀ :: w.used } := by
        show (if id₀ ∈ w.used then none else _) = _
        rw [if_neg hid₀]
      refine total_call id₀ hanswer fun id w' hexec => ?_
      have hexec : (if id ∈ w.used then none else some { w with used := id :: w.used }) = some w' := hexec
      split at hexec
      · cases hexec
      · next hfresh =>
          obtain rfl := Option.some.inj hexec
          have hnew : node.id ∉ rewritten.map Prod.fst := fun hmem =>
            (List.nodup_append.mp hkeys).2.2 _ hmem _ List.mem_cons_self rfl
          have hnone : ¬ (rewritten.any fun entry => entry.1 = node.id) = true := by
            intro hany
            obtain ⟨entry, hentry, heq⟩ := List.any_eq_true.mp hany
            exact hnew (List.mem_map.mpr ⟨entry, hentry, of_decide_eq_true heq⟩)
          rw [if_neg hnone]
          have hsnoc : (rewritten ++ [(node.id, id)]).map Prod.fst ++ todo.map PlanTask.id =
              rewritten.map Prod.fst ++ (node :: todo).map PlanTask.id := by
            rw [List.map_append, List.append_assoc]
            rfl
          rw [← hsnoc] at hkeys ⊢
          refine ih hkeys ?_ (fun id' hid' => ?_) ⟨hw.stored, hw.calm, hw.invoked⟩
          · rw [List.map_append]
            refine List.nodup_append.mpr ⟨hdistinct, List.nodup_singleton _, ?_⟩
            intro a ha b hb heq
            have hb : b = id := List.mem_singleton.mp hb
            exact hfresh (hused id (hb ▸ heq ▸ ha))
          · rw [List.map_append, List.mem_append] at hid'
            rcases hid' with hold | hlast
            · exact List.mem_cons_of_mem id (hused id' hold)
            · rw [List.mem_singleton.mp hlast]
              exact List.mem_cons_self

/-- Saving the tasks, one after the other. -/
theorem total_saves (hnodup : (plan.tasks.map PlanTask.id).Nodup) (hinj : N.Injective plan.tasks)
    {ct : CancellationToken} (hw : Here created N [] (fun _ => .planned) rs invoked w) :
    total (exec created outcome)
      (Prog.forEach (fun task => do Prog.ofExcept (← Prog.op (.execute (.task task) ct)))
        (plan.tasks.map fun node => N.task created.id node .planned))
      (fun _ => Here created N plan.tasks (fun _ => .planned) rs invoked) w := by
  refine total_mono (total_forEach (fun done w => ∃ saved, saved <+: plan.tasks ∧
    done = saved.map (fun node => N.task created.id node .planned) ∧
    Here created N saved (fun _ => .planned) rs invoked w) ⟨[], List.nil_prefix, rfl, hw⟩ ?_) ?_
  · rintro done task rest w hall ⟨saved, ⟨others, hsaved⟩, rfl, hw⟩
    rw [← hsaved, List.map_append] at hall
    cases others with
    | nil =>
        have hrest := List.append_cancel_left hall
        cases hrest
    | cons node others =>
        obtain ⟨rfl, -⟩ := List.cons.inj (List.append_cancel_left hall)
        have hnew : ∀ n ∈ saved, N.id n.id ≠ N.id node.id := by
          intro n hn heq
          have hmem : n ∈ plan.tasks := by
            rw [← hsaved]
            exact List.mem_append_left _ hn
          have hnode : node ∈ plan.tasks := by
            rw [← hsaved]
            simp
          obtain rfl := hinj n hmem node hnode heq
          rw [← hsaved, List.map_append] at hnodup
          exact (List.nodup_append.mp hnodup).2.2 _ (List.mem_map_of_mem hn) _ List.mem_cons_self rfl
        simp only [Prog.bind_eq, Prog.op_bind]
        have hanswer : exec created outcome (.execute (.task (N.task created.id node .planned)) ct) w (.ok ()) =
            some { w with db := w.db.apply (.task (N.task created.id node .planned)) } := by
          show answered created.id ct (.ok ()) w (some _) = _
          exact answered_calm hw.calm
        refine total_call (.ok ()) hanswer fun r w' hexec => ?_
        cases r with
        | ok _ =>
            obtain rfl := Option.some.inj (hanswer.symm.trans hexec)
            exact ⟨saved ++ [node], ⟨others, by rw [← hsaved]; simp⟩, by rw [List.map_append]; rfl,
              hw.stored.task_saved hnew, hw.calm, hw.invoked⟩
        | error e => cases hexec
  · rintro _ w ⟨saved, ⟨others, hsaved⟩, hall, hw⟩
    have hlength := congrArg List.length hall
    rw [List.length_map, List.length_map, ← hsaved, List.length_append] at hlength
    obtain rfl : others = [] := List.length_eq_zero_iff.mp (by omega)
    rw [List.append_nil] at hsaved
    exact hsaved ▸ hw

/-- **Before the loop**: every node gets its task, and the run is running. -/
theorem total_schedule (hvalid : TaskGraph.Valid plan.tasks) (hcreated : created.state = .created)
    {N₀ : Naming} {ct : CancellationToken} (hw : Here created N₀ [] (fun _ => .planned) .created [] w) :
    total (exec created outcome) (RunEngine.schedule projectId created plan ct)
      (fun
        | .inl .start => fun _ => False
        | .inl (.pass run) => Rounds created plan outcome run
        | .inr _ => fun _ => False) w := by
  have hrun : created.persisted = { created with state := .created }.persisted := by
    rw [← hcreated]
  simp only [RunEngine.schedule, Prog.bind_eq]
  refine total_seq (total_moveRun hrun rfl hw) fun run w hplanned => ?_
  obtain ⟨hw, hrun⟩ := hplanned
  have hid : run.id = created.id := by
    show run.persisted.id = created.id
    rw [hrun]
    rfl
  rw [hid]
  -- No row depends on the naming yet, so it may be the one that is chosen now.
  refine total_seq (M := fun tasks w => ∃ N : Naming, N.Injective plan.tasks ∧
    tasks = plan.tasks.map (fun node => N.task created.id node .planned) ∧
    Here created N [] (fun _ => .planned) .planning [] w) ?_ ?_
  · simp only [RunEngine.materialize, Prog.bind_eq, Prog.op_bind]
    refine total_same (fun _ _ => rfl) fun now => ?_
    refine total_seq (total_rewrite (by simpa using hvalid.nodup) (by simp) (by simp) hw)
      fun rewritten w hrewritten => ?_
    obtain ⟨hw, hnamed⟩ := hrewritten
    rw [List.map_nil, List.nil_append] at hnamed
    rw [hnamed.materialized now hvalid]
    exact ⟨Naming.of rewritten now, hnamed.injective now hvalid, rfl, ⟨hw.stored.run, hw.stored.tasks⟩,
      hw.calm, hw.invoked⟩
  · rintro _ w ⟨N, hinj, rfl, hw⟩
    simp only [Scheduler.scheduleAsync, Prog.bind_eq, Prog.bind_assoc]
    refine total_seq (total_saves hvalid.nodup hinj hw) fun _ w hw => ?_
    refine total_seq (total_moveRun hrun rfl hw) fun run w hready => ?_
    obtain ⟨hw, hrun⟩ := hready
    refine total_seq (total_moveRun hrun rfl hw) fun run w hrunning => ?_
    obtain ⟨hw, hrun⟩ := hrunning
    refine ⟨hrun, N, _, [], hinj, hw, ?_, ?_⟩
    · intro node hnode
      simp
    · intro node hnode hended
      exact absurd rfl hended

/-! ## Every execution -/

/-- What holds where the engine starts, and where it goes round. -/
def Entry (created : Run) (plan : Plan) (outcome : TaskId → Except Exn TaskOutcome) :
    RunEngine.Point → World → Prop
  | .start => fun w => ∃ N, Here created N [] (fun _ => .planned) .created [] w
  | .pass run => Rounds created plan outcome run

/-- What every round makes smaller. -/
def remaining (created : Run) (plan : Plan) : RunEngine.Point → World → Nat
  | .start => fun _ => plan.tasks.length + 1
  | .pass _ => waiting created

/-- An execution about to start. -/
def start (projectId : String) (created : Run) (plan : Plan) (outcome : TaskId → Except Exn TaskOutcome)
    (db : Database) : Conf Party Op Ret Exn RunEngine.Point Run World :=
  (system projectId created plan outcome).init (fun _ => .start) { db }

/-- Nobody but the engine moves. -/
theorem solo_start (projectId : String) (created : Run) (plan : Plan)
    (outcome : TaskId → Except Exn TaskOutcome) (db : Database) :
    Solo (system projectId created plan outcome) .engine (start projectId created plan outcome db) := by
  constructor
  · intro j hj o w r
    cases j with
    | engine => exact absurd rfl hj
    | canceller => rfl
  · intro j hj s
    cases j with
    | engine => exact absurd rfl hj
    | canceller => exact nofun

/-- **The outcomes decide the run.** An undisturbed execution of a plan with a task comes to its end and
returns; then the tasks all whose dependencies, however indirect, have outcomes that are successes have
ended as their own outcomes say; the others are as they were planned and their runners were never
called; and the run is verifying if every task has succeeded, failed if one has failed, and cancelled
otherwise. -/
theorem outcomes_decide (projectId : String) (created : Run) (plan : Plan)
    (hvalid : TaskGraph.Valid plan.tasks) (hne : plan.tasks ≠ [])
    (outcome : TaskId → Except Exn TaskOutcome) (db : Database) (hdb : Started created db) :
    Terminates (system projectId created plan outcome) .engine
      (fun _ w => ∃ N st rs, Decided created plan outcome N st rs w)
      (start projectId created plan outcome db) := by
  have hends : Ends (system projectId created plan outcome) .engine
      (fun _ w => ∃ N st rs, Decided created plan outcome N st rs w)
      ((system projectId created plan outcome).code .engine .start) { db } := by
    refine Ends.of_measure (Entry created plan outcome) (remaining created plan) ?_ ?_
    · intro s w hw
      cases s with
      | start =>
          obtain ⟨N, hw⟩ := hw
          refine total_mono (total_schedule hvalid hdb.state hw) ?_
          rintro ((_ | run) | run) w hw
          · exact hw.elim
          · obtain ⟨N, st, invoked, _, here, _⟩ := hw.2
            refine ⟨hw, ?_⟩
            show waiting created w < plan.tasks.length + 1
            rw [here.waiting]
            exact Nat.lt_succ_of_le (List.length_filter_le ..)
          · exact hw.elim
      | pass run =>
          refine total_mono (total_pass hvalid hne hw) ?_
          rintro ((_ | run) | run) w hw
          · exact hw.elim
          · exact hw
          · exact hw
    · exact ⟨⟨id, default⟩, ⟨by rw [hdb.run, ← hdb.state], by rw [hdb.tasks]; exact List.Perm.refl _⟩, rfl, rfl⟩
  exact hends.terminates (solo_start ..)

/-- The first of two tasks fails. -/
theorem outcomes_decide_failing :
    Terminates (system "atlas" newRun chainPlan fun _ => .ok ⟨false, "exit code 1"⟩) .engine
      (fun _ w => ∃ N st rs, Decided newRun chainPlan (fun _ => .ok ⟨false, "exit code 1"⟩) N st rs w)
      (start "atlas" newRun chainPlan (fun _ => .ok ⟨false, "exit code 1"⟩) newDb) :=
  outcomes_decide "atlas" newRun chainPlan chainPlan_valid (by decide) _ newDb newDb_started

/-- The answers of `Execution.answer`, from runners that throw the exception of a cancellation. -/
def answer : (o : Op) → World → Ret o
  | .runTask _, _ => .error .operationCanceled
  | o, w => Execution.answer o w

/-- **A task that nobody cancelled is cancelled**: its runner throws the exception of a cancellation, and
the task is neither succeeded nor failed. -/
theorem cancelled_by_its_runner :
    ∃ c, (system "atlas" newRun chainPlan fun _ => .error .operationCanceled).Steps
        (start "atlas" newRun chainPlan (fun _ => .error .operationCanceled) newDb) c ∧
      (∃ run, c.cur .engine = .ret (.inr run)) ∧ c.world.cancelled = false ∧
      ∃ task ∈ c.world.db.tasksOf newRun.id, task.dependencies = [] ∧
        task.state ≠ .succeeded ∧ task.state ≠ .failed := by
  refine ⟨_, System.play_steps _ (List.replicate 48 (.engine, answer)) _,
    System.cur_of_result (by decide +kernel), by decide +kernel, by decide +kernel⟩

end Uncancelled

end AtlasFlow
