import Mathlib.Data.List.Perm.Subperm
import AtlasFlow.Orchestration.Execution

/-!
# What an execution does

The engine's programs from the bottom up: one transition, one task, one pass, the schedule before the
loop and the evaluation after it. From these, for every valid plan, every behaviour of the runners
and every moment of cancellation: how the run ends (`settles_iff`), and in which order the runners are
called (`dependencies_first`, `passes_follow_layers`).
-/

namespace AtlasFlow

open Concurrency

namespace Execution

variable {projectId : String} {created : Run} {plan : Plan} {N : Naming} {nodes : List PlanTask}
  {st : TaskId → TaskState} {rs : RunState} {L : Ledger} {w : World}

/-! ## Transitions -/

theorem At.injective (h : At created plan N nodes st rs L w) : N.Injective plan.tasks :=
  h.coherent.injective

/-- Moving a node's task. -/
theorem wp_moveTask (hnodup : (plan.tasks.map PlanTask.id).Nodup) {node : PlanTask} {task : RunTask}
    {s : TaskState} {type : EventType} {extra : List (String × Json)} {ct : CancellationToken}
    (hnode : node ∈ plan.tasks) (hrs : ct = .source → settles rs = false)
    (htask : task.persisted = (N.task created.id node (st node.id)).persisted)
    (hlegal : (st node.id).canTransition s = true) (hw : At created plan N plan.tasks st rs L w) :
    wp (contract created plan .engine) (Scheduler.moveTask projectId task s type extra ct)
      (fun task' w => At created plan N plan.tasks (Function.update st node.id s) rs L w ∧
        task'.persisted = (N.task created.id node s).persisted)
      (fun _ => Ended created plan) w := by
  have hstate : task.state = st node.id := congrArg RunTask.state htask
  have hupdated : ({ task with state := s } : RunTask).persisted =
      (N.task created.id node s).persisted := by
    show ({ task.persisted with state := s } : RunTask) = _
    rw [htask]
    rfl
  refine wp_seq (wp_event At.kept hw) fun event w hw => ?_
  show wp _ (RunRepository.transition taskKind task s event ct) _ _ w
  have hcan : taskKind.canTransition (taskKind.state task) s = true := by
    show task.state.canTransition s = true
    rw [hstate]
    exact hlegal
  rw [RunRepository.transition, if_pos hcan]
  refine wp_seq (wp_commit (B := At created plan N plan.tasks (Function.update st node.id s) rs L)
    At.kept At.kept hw (fun w hw _ => ?_) (At.escapes hrs)) fun _ w hw => ⟨hw, hupdated⟩
  exact ⟨(hw.stored.task_written hw.injective hnodup hnode hupdated).insertEvent event, hw.ledger,
    hw.early, hw.coherent⟩

/-- The run in a state; with the token, it was not settled after a cancellation. -/
def Moved (created : Run) (plan : Plan) (N : Naming) (nodes : List PlanTask)
    (st : TaskId → TaskState) (rs : RunState) (L : Ledger) (ct : CancellationToken) (w : World) :
    Prop :=
  At created plan N nodes st rs L w ∧ (ct = .source → settles rs = true → w.early = false)

theorem Moved.kept {ct : CancellationToken} :
    Kept created plan (Moved created plan N nodes st rs L ct) := by
  refine At.kept.and fun w hw hearly hct hrs => ?_
  cases he : (w.cancel created.id).early
  · rfl
  · have hback := cancel_early_of_settled (hw.settled.trans hrs) he
    rw [hearly hct hrs] at hback
    cases hback

/-- Moving the run. -/
theorem wp_moveRun {run : Run} {rs' : RunState} {type : EventType} {extra : List (String × Json)}
    {ct : CancellationToken} (hrs : ct = .source → settles rs = false)
    (hrun : run.persisted = { created with state := rs }.persisted)
    (hlegal : rs.canTransition rs' = true)
    (hall : rs' ≠ .created → rs' ≠ .planning → nodes = plan.tasks)
    (hw : At created plan N nodes st rs L w) :
    wp (contract created plan .engine) (Scheduler.moveRun projectId run rs' type extra ct)
      (fun run' w => Moved created plan N nodes st rs' L ct w ∧
        run'.persisted = { created with state := rs' }.persisted)
      (fun _ => Ended created plan) w := by
  have hstate : run.state = rs := congrArg Run.state hrun
  have hupdated : ({ run with state := rs' } : Run).persisted =
      { created with state := rs' }.persisted := by
    show ({ run.persisted with state := rs' } : Run) = _
    rw [hrun]
    rfl
  refine wp_seq (wp_event At.kept hw) fun event w hw => ?_
  show wp _ (RunRepository.transition runKind run rs' event ct) _ _ w
  have hcan : runKind.canTransition (runKind.state run) rs' = true := by
    show run.state.canTransition rs' = true
    rw [hstate]
    exact hlegal
  rw [RunRepository.transition, if_pos hcan]
  refine wp_seq (wp_commit (B := Moved created plan N nodes st rs' L ct)
    At.kept Moved.kept hw (fun w hw hct => ⟨?_, fun hsource _ => ?_⟩) (At.escapes hrs))
    fun _ w hw => ⟨hw, hupdated⟩
  · have hc := hw.coherent
    exact ⟨(hw.stored.run_written hupdated).insertEvent event, hw.ledger, hw.early,
      ⟨hc.injective, hc.saved, hall, hc.invoked, hc.once, hc.passes⟩⟩
  · have hnot := hct hsource
    have hearly := hw.early
    cases he : w.early
    · rfl
    · rw [hearly he] at hnot
      cases hnot

/-! ## One task -/

/-- A state a task stays in when its turn is over. -/
def isOver (s : TaskState) : Prop := s = .succeeded ∨ s = .failed ∨ s = .cancelled

/-- The ledger after the runner of a task was called. -/
def Ledger.invoke (L : Ledger) (id : TaskId) (success : Bool) : Ledger :=
  { L with
    invoked := L.invoked ++ [(L.passes, id)]
    succeeding := L.succeeding && success }

theorem Coherent.invoke (h : Coherent plan N nodes rs L) {node : PlanTask} (hnode : node ∈ plan.tasks)
    (hfresh : N.id node.id ∉ L.invoked.map Prod.snd) (success : Bool) :
    Coherent plan N nodes rs (L.invoke (N.id node.id) success) := by
  refine ⟨h.injective, h.saved, h.all, fun entry hentry => ?_, ?_, h.passes⟩
  · rcases List.mem_append.mp hentry with hold | hnew
    · exact h.invoked entry hold
    · rw [List.mem_singleton.mp hnew]
      exact ⟨node, hnode, rfl⟩
  · show ((L.invoked ++ [(L.passes, N.id node.id)]).map Prod.snd).Nodup
    rw [List.map_append]
    refine List.nodup_append.mpr ⟨h.once, List.nodup_singleton _, fun a ha b hb heq => ?_⟩
    have hb : b = N.id node.id := List.mem_singleton.mp hb
    exact hfresh (hb ▸ heq ▸ ha)

/-- **One task**: its runner is called, once, after its dependencies have succeeded; then it is over,
and it has succeeded if its runner reported a success. -/
theorem wp_runOne (hvalid : TaskGraph.Valid plan.tasks) {node : PlanTask} {planned : RunTask}
    (hnode : node ∈ plan.tasks) (hst : st node.id = .planned)
    (hdeps : ∀ d ∈ node.dependencies, st d = .succeeded)
    (hfresh : N.id node.id ∉ L.invoked.map Prod.snd)
    (hplanned : planned.persisted = (N.task created.id node .planned).persisted)
    (hw : At created plan N plan.tasks st .running L w) :
    wp (contract created plan .engine) (RunEngine.runOneAsync projectId planned .source)
      (fun _ w => ∃ s success, isOver s ∧ (success = true → s = .succeeded) ∧
        At created plan N plan.tasks (Function.update st node.id s) .running
          (L.invoke (N.id node.id) success) w)
      (fun _ => Ended created plan) w := by
  have hnodup := hvalid.nodup
  -- Every move of this task overwrites the state the last one left.
  have hmove : ∀ {L' : Ledger} {w : World} {task : RunTask} {old new : TaskState} {type : EventType}
      {extra : List (String × Json)} {ct : CancellationToken},
      task.persisted = (N.task created.id node old).persisted → old.canTransition new = true →
      At created plan N plan.tasks (Function.update st node.id old) .running L' w →
      wp (contract created plan .engine) (Scheduler.moveTask projectId task new type extra ct)
        (fun task' w => At created plan N plan.tasks (Function.update st node.id new) .running L' w ∧
          task'.persisted = (N.task created.id node new).persisted)
        (fun _ => Ended created plan) w := by
    intro L' w task old new type extra ct htask hlegal hw
    have hold : Function.update st node.id old node.id = old := Function.update_self ..
    rw [← Function.update_idem old new st]
    exact wp_moveTask hnodup hnode (fun _ => rfl) (by rw [hold]; exact htask)
      (by rw [hold]; exact hlegal) hw
  have hstart : At created plan N plan.tasks (Function.update st node.id .planned) .running L w := by
    rw [← hst, Function.update_eq_self]
    exact hw
  refine wp_seq (hmove hplanned rfl hstart) fun task w ⟨hw, htask⟩ => ?_
  refine wp_seq (hmove htask rfl hw) fun task w ⟨hw, htask⟩ => ?_
  refine wp_call _ hw ?_ ?_
  · rintro w w' (rfl | rfl) hw
    · exact hw
    · exact hw.cancel
  intro w answer w' hw hexec
  have hexec : some (w.invoke task answer) = some w' := hexec
  obtain rfl := Option.some.inj hexec
  have hid : task.id = N.id node.id := congrArg RunTask.id htask
  have htaskdeps : task.dependencies = node.dependencies.map N.id :=
    congrArg RunTask.dependencies htask
  have hinvocable : Invocable created task w := by
    refine ⟨?_, fun d hd => ?_, by rw [hid, hw.ledger]; exact hfresh⟩
    · refine hw.stored.tasks.mem_iff.mpr (Naming.mem_rows.mpr ⟨node, hnode, ?_⟩)
      rw [Function.update_self, htask]
    rw [htaskdeps] at hd
    obtain ⟨id, hid, rfl⟩ := List.mem_map.mp hd
    obtain ⟨dependency, hmem, rfl⟩ := List.mem_map.mp (hvalid.known hnode hid)
    have hne : dependency.id ≠ node.id := fun heq => by
      have := hdeps _ hid
      rw [heq, hst] at this
      cases this
    rw [Naming.stateOf_rows hw.injective hnodup hw.stored.tasks hmem, Function.update_of_ne hne,
      hdeps _ hid]
  have hafter : At created plan N plan.tasks (Function.update st node.id .running) .running
      (L.invoke (N.id node.id) (reported answer)) (w.invoke task answer) := by
    refine ⟨hw.stored, ?_, hw.early, hw.coherent.invoke hnode hfresh _⟩
    rw [World.invoke, hw.ledger, hid]
    rfl
  have hfinish : ∀ {new : TaskState} {reason : List (String × Json)} {type : EventType}
      {ct : CancellationToken}, TaskState.running.canTransition new = true → isOver new →
      (reported answer = true → new = .succeeded) →
      wp (contract created plan .engine)
        ((Scheduler.moveTask projectId task new type reason ct).bind fun _ => .ret ())
        (fun _ w => ∃ s success, isOver s ∧ (success = true → s = .succeeded) ∧
          At created plan N plan.tasks (Function.update st node.id s) .running
            (L.invoke (N.id node.id) success) w)
        (fun _ => Ended created plan) (w.invoke task answer) := by
    intro new reason type ct hlegal hover hnew
    exact wp_seq (hmove htask hlegal hafter) fun _ w hw => ⟨new, _, hover, hnew, hw.1⟩
  refine ⟨⟨⟨_, _, _, _, _, hafter⟩, fun task' htask' => ?_⟩, ?_⟩
  · cases htask'
    exact hinvocable
  · cases answer with
    | ok outcome =>
        show wp _ (if outcome.isSuccess then _ else _) _ _ _
        split
        · exact hfinish rfl (.inl rfl) fun _ => rfl
        · next hfailed => exact hfinish rfl (.inr (.inl rfl)) fun h => absurd h hfailed
    | error e =>
        cases e with
        | operationCanceled => exact hfinish rfl (.inr (.inr rfl)) fun h => by cases h
        | _ => exact hfinish rfl (.inr (.inl rfl)) fun h => by cases h

/-! ## One pass -/

/-- The nodes a pass runs: planned, and every dependency has succeeded. -/
def IsReady (st : TaskId → TaskState) (node : PlanTask) : Prop :=
  st node.id = .planned ∧ ∀ d ∈ node.dependencies, st d = .succeeded

/-- **`ReadyTasks` of the stored rows**, in whatever order they come: the tasks of the nodes that are
ready, each once. -/
theorem readyTasks_rows (hvalid : TaskGraph.Valid plan.tasks) (hinj : N.Injective plan.tasks)
    {runId : RunId} {tasks : List RunTask} (hperm : tasks.Perm (N.rows runId plan.tasks st)) :
    ∃ ready, Scheduler.readyTasks tasks = .ok ready ∧ (ready.map RunTask.id).Nodup ∧
      ∀ task, task ∈ ready ↔ ∃ node ∈ plan.tasks, IsReady st node ∧
        task = (N.task runId node .planned).persisted := by
  have hnodup := hvalid.nodup
  have hids : (tasks.map RunTask.id).Nodup :=
    (hperm.map RunTask.id).nodup_iff.mpr (Naming.ids_nodup hinj hnodup)
  have hdeps : ∀ node ∈ plan.tasks, (N.task runId node (st node.id)).persisted.dependencies.all
      (fun id => Scheduler.stateOf tasks id = some .succeeded) = true ↔
        ∀ d ∈ node.dependencies, st d = .succeeded := by
    intro node hnode
    show (node.dependencies.map N.id).all _ = true ↔ _
    rw [List.all_map, List.all_eq_true]
    refine forall₂_congr fun d hd => ?_
    obtain ⟨dependency, hmem, rfl⟩ := List.mem_map.mp (hvalid.known hnode hd)
    have hstate := Naming.stateOf_rows hinj hnodup hperm hmem
    simp [hstate]
  refine ⟨_, if_pos hids, hids.sublist (List.filter_sublist.map RunTask.id), fun task => ?_⟩
  rw [List.mem_filter, hperm.mem_iff, Naming.mem_rows, Bool.and_eq_true]
  constructor
  · rintro ⟨⟨node, hnode, rfl⟩, hplanned, hall⟩
    have hst : st node.id = .planned := of_decide_eq_true hplanned
    refine ⟨node, hnode, ⟨hst, (hdeps node hnode).mp hall⟩, ?_⟩
    rw [hst]
  · rintro ⟨node, hnode, ⟨hst, hall⟩, rfl⟩
    refine ⟨⟨node, hnode, by rw [hst]⟩, rfl, ?_⟩
    have := (hdeps node hnode).mpr hall
    rwa [hst] at this

/-- In a pass that began with states `st₀` and ledger `L₀`: the tasks in `done` have had their turn,
the others are as they were. -/
structure During (created : Run) (plan : Plan) (N : Naming) (st₀ : TaskId → TaskState) (L₀ : Ledger)
    (done : List RunTask) (st : TaskId → TaskState) (L : Ledger) (w : World) : Prop where
  here : At created plan N plan.tasks st .running L w
  passes : L.passes = L₀.passes
  stopped : L.stopped = L₀.stopped
  escaped : L.escaped = L₀.escaped
  invoked : L.invoked = L₀.invoked ++ done.map fun task => (L₀.passes, task.id)
  succeeding : L.succeeding = true → L₀.succeeding = true
  others : ∀ node ∈ plan.tasks, N.id node.id ∉ done.map RunTask.id → st node.id = st₀ node.id
  mine : ∀ node ∈ plan.tasks, N.id node.id ∈ done.map RunTask.id →
    isOver (st node.id) ∧ (L.succeeding = true → st node.id = .succeeded)

/-- **The tasks of a pass**, one after the other. -/
theorem wp_ready (hvalid : TaskGraph.Valid plan.tasks) {st₀ : TaskId → TaskState} {L₀ : Ledger}
    {ready : List RunTask} (hnodup : (ready.map RunTask.id).Nodup)
    (hready : ∀ task ∈ ready, ∃ node ∈ plan.tasks, IsReady st₀ node ∧
      task = (N.task created.id node .planned).persisted)
    (hfresh : ∀ node ∈ plan.tasks, IsReady st₀ node → N.id node.id ∉ L₀.invoked.map Prod.snd)
    (hw : At created plan N plan.tasks st₀ .running L₀ w) :
    wp (contract created plan .engine)
      (Prog.forEach (fun planned => RunEngine.runOneAsync projectId planned .source) ready)
      (fun _ w => ∃ st L, During created plan N st₀ L₀ ready st L w)
      (fun _ => Ended created plan) w := by
  have hinj := hw.injective
  refine wp_forEach (fun done w => ∃ st L, During created plan N st₀ L₀ done st L w)
    ⟨st₀, L₀, hw, rfl, rfl, rfl, by simp, id, fun _ _ _ => rfl, fun _ _ h => by simp at h⟩ ?_
  rintro done planned rest w hall ⟨st, L, h⟩
  obtain ⟨node, hnode, ⟨hst₀, hdeps⟩, rfl⟩ := hready planned (by rw [hall]; simp)
  -- A node of a task of this pass is ready; only ready nodes' tasks have had their turn.
  have hsplit : (done.map RunTask.id ++ N.id node.id :: rest.map RunTask.id).Nodup := by
    rw [hall, List.map_append] at hnodup
    exact hnodup
  have hnew : N.id node.id ∉ done.map RunTask.id := by
    intro hmem
    exact (List.nodup_append.mp hsplit).2.2 _ hmem _ List.mem_cons_self rfl
  have hwaiting : ∀ n ∈ plan.tasks, st₀ n.id = .succeeded → N.id n.id ∉ done.map RunTask.id := by
    intro n hn hsucceeded hmem
    obtain ⟨task, htask, hid⟩ := List.mem_map.mp hmem
    obtain ⟨n', hn', hready', rfl⟩ := hready task (by rw [hall]; exact List.mem_append_left _ htask)
    obtain rfl := hinj n' hn' n hn hid
    rw [hready'.1] at hsucceeded
    cases hsucceeded
  have hst : st node.id = .planned := (h.others node hnode hnew).trans hst₀
  refine wp_mono (wp_runOne hvalid hnode hst (fun d hd => ?_) ?_ rfl h.here) ?_ fun _ _ h => h
  · obtain ⟨dependency, hmem, rfl⟩ := List.mem_map.mp (hvalid.known hnode hd)
    exact (h.others dependency hmem (hwaiting dependency hmem (hdeps _ hd))).trans (hdeps _ hd)
  · rw [h.invoked, List.map_append, List.mem_append, List.map_map]
    rintro (hold | hdone)
    · exact hfresh node hnode ⟨hst₀, hdeps⟩ hold
    · exact hnew hdone
  · rintro _ w ⟨s, success, hover, hsuccess, hat⟩
    refine ⟨_, _, hat, h.passes, h.stopped, h.escaped, ?_, ?_, ?_, ?_⟩
    · show L.invoked ++ [(L.passes, N.id node.id)] = _
      rw [h.invoked, h.passes, List.append_assoc, List.map_append]
      rfl
    · intro hs
      exact h.succeeding (Bool.and_eq_true_iff.mp hs).1
    · intro n hn hnot
      rw [List.map_append, List.mem_append, not_or] at hnot
      have hne : n.id ≠ node.id := fun heq => hnot.2 (List.mem_singleton.mpr (by rw [heq]; rfl))
      rw [Function.update_of_ne hne]
      exact h.others n hn hnot.1
    · intro n hn hmem
      rw [List.map_append, List.mem_append] at hmem
      by_cases heq : n.id = node.id
      · rw [heq, Function.update_self]
        exact ⟨hover, fun hs => hsuccess (Bool.and_eq_true_iff.mp hs).2⟩
      · rw [Function.update_of_ne heq]
        have hold : N.id n.id ∈ done.map RunTask.id := by
          rcases hmem with hold | hlast
          · exact hold
          · have hid : N.id n.id = N.id node.id := List.mem_singleton.mp hlast
            exact absurd (congrArg PlanTask.id (hinj n hn node hnode hid)) heq
        have hmine := h.mine n hn hold
        exact ⟨hmine.1, fun hs => hmine.2 (Bool.and_eq_true_iff.mp hs).1⟩

/-! ## Between two passes -/

/-- The dependencies of a node, by id. -/
abbrev edges (plan : Plan) : TaskId → List TaskId := TaskGraph.edges plan.tasks

/-- While every runner reports a success, after `k` passes the nodes without a chain of `k + 1` nodes
have succeeded, the others are planned, and each node's runner was called in the pass that is the
length of its longest chain. -/
structure Layered (plan : Plan) (N : Naming) (st : TaskId → TaskState) (k : Nat)
    (invoked : List (Nat × TaskId)) : Prop where
  planned : ∀ node ∈ plan.tasks, Graph.HasChain (edges plan) (k + 1) node.id →
    st node.id = .planned
  succeeded : ∀ node ∈ plan.tasks, ¬ Graph.HasChain (edges plan) (k + 1) node.id →
    st node.id = .succeeded
  invoked : ∀ node ∈ plan.tasks, ∀ j, (j, N.id node.id) ∈ invoked ↔
    j ≤ k ∧ Graph.Layer (edges plan) j node.id

/-- What holds when a pass begins: every task is planned or over, and exactly the tasks that are over
have had their runner called. -/
structure Between (created : Run) (plan : Plan) (N : Naming) (st : TaskId → TaskState) (L : Ledger)
    (w : World) : Prop where
  here : At created plan N plan.tasks st .running L w
  resting : ∀ node ∈ plan.tasks, st node.id = .planned ∨ isOver (st node.id)
  started : ∀ node ∈ plan.tasks, N.id node.id ∈ L.invoked.map Prod.snd ↔ st node.id ≠ .planned
  stopped : L.stopped = false
  escaped : L.escaped = false
  passes : L.passes ≤ L.invoked.length
  layered : L.succeeding = true → Layered plan N st L.passes L.invoked

section Between

variable (hvalid : TaskGraph.Valid plan.tasks)
include hvalid

/-- The nodes that are ready after `k` layers are those of the next layer. -/
theorem Layered.isReady_iff {k : Nat} {invoked : List (Nat × TaskId)}
    (h : Layered plan N st k invoked) {node : PlanTask} (hnode : node ∈ plan.tasks) :
    IsReady st node ↔ Graph.Layer (edges plan) (k + 1) node.id := by
  have hedges : edges plan node.id = node.dependencies :=
    TaskGraph.edges_of_mem hvalid.nodup hnode
  constructor
  · rintro ⟨hst, hdeps⟩
    constructor
    · by_contra hno
      rw [h.succeeded node hnode hno] at hst
      cases hst
    · rintro ⟨d, hd, hchain⟩
      rw [hedges] at hd
      obtain ⟨dependency, hmem, rfl⟩ := List.mem_map.mp (hvalid.known hnode hd)
      have hplanned := h.planned dependency hmem hchain
      rw [hdeps _ hd] at hplanned
      cases hplanned
  · rintro ⟨hchain, hmore⟩
    refine ⟨h.planned node hnode hchain, fun d hd => ?_⟩
    obtain ⟨dependency, hmem, rfl⟩ := List.mem_map.mp (hvalid.known hnode hd)
    refine h.succeeded dependency hmem fun hlonger => hmore ⟨_, ?_, hlonger⟩
    rw [hedges]
    exact hd

/-- A pass that found nothing ready after `k` layers: there is no further layer. -/
theorem Layered.finished {k : Nat} {invoked : List (Nat × TaskId)}
    (h : Layered plan N st k invoked) (hnone : ∀ node ∈ plan.tasks, ¬ IsReady st node) :
    (∀ node ∈ plan.tasks, st node.id = .succeeded) ∧
      ∀ node ∈ plan.tasks, ∀ j, (j, N.id node.id) ∈ invoked ↔
        Graph.Layer (edges plan) j node.id := by
  have hno : ∀ node ∈ plan.tasks, ¬ Graph.HasChain (edges plan) (k + 1) node.id := by
    intro node hnode hchain
    have hmem : node.id ∈ plan.tasks.map PlanTask.id := List.mem_map_of_mem hnode
    obtain ⟨id, hid, hlayer⟩ := Graph.exists_layer (P := (· ∈ plan.tasks.map PlanTask.id))
      (fun n hn d hd => hvalid.closed hn d hd) (hvalid.acc hmem) hmem hchain
    obtain ⟨m, hm, rfl⟩ := List.mem_map.mp hid
    exact hnone m hm ((h.isReady_iff hvalid hm).mpr hlayer)
  refine ⟨fun node hnode => h.succeeded node hnode (hno node hnode), fun node hnode j => ?_⟩
  rw [h.invoked node hnode j]
  refine ⟨And.right, fun hlayer => ⟨?_, hlayer⟩⟩
  by_contra hj
  exact hno node hnode (hlayer.1.mono (by omega))

/-- **A pass fills the next layer.** -/
theorem Between.next {st₀ : TaskId → TaskState} {L₀ L₁ : Ledger} {w₀ : World}
    {ready : List RunTask} (h₀ : Between created plan N st₀ L₀ w₀)
    (hL₁ : L₁ = { L₀ with passes := L₀.passes + 1 }) (hnonempty : ready ≠ [])
    (hready : ∀ task, task ∈ ready ↔ ∃ node ∈ plan.tasks, IsReady st₀ node ∧
      task = (N.task created.id node .planned).persisted)
    (h : During created plan N st₀ L₁ ready st L w) : Between created plan N st L w := by
  subst hL₁
  have hinj := h.here.injective
  have hmine : ∀ node ∈ plan.tasks, N.id node.id ∈ ready.map RunTask.id ↔ IsReady st₀ node := by
    intro node hnode
    constructor
    · intro hmem
      obtain ⟨task, htask, hid⟩ := List.mem_map.mp hmem
      obtain ⟨n, hn, hisReady, rfl⟩ := (hready task).mp htask
      obtain rfl := hinj n hn node hnode hid
      exact hisReady
    · intro hisReady
      exact List.mem_map.mpr ⟨_, (hready _).mpr ⟨node, hnode, hisReady, rfl⟩, rfl⟩
  have hinvoked : L.invoked = L₀.invoked ++ ready.map fun task => (L₀.passes + 1, task.id) :=
    h.invoked
  have hpasses : L.passes = L₀.passes + 1 := h.passes
  refine ⟨h.here, fun node hnode => ?_, fun node hnode => ?_, h.stopped.trans h₀.stopped,
    h.escaped.trans h₀.escaped, ?_, fun hs => ?_⟩
  · by_cases hmem : N.id node.id ∈ ready.map RunTask.id
    · exact .inr (h.mine node hnode hmem).1
    · rw [h.others node hnode hmem]
      exact h₀.resting node hnode
  · rw [hinvoked, List.map_append, List.mem_append, List.map_map]
    by_cases hmem : N.id node.id ∈ ready.map RunTask.id
    · refine iff_of_true (.inr hmem) fun hplanned => ?_
      have hover := (h.mine node hnode hmem).1
      rw [hplanned] at hover
      simp [isOver] at hover
    · rw [h.others node hnode hmem, ← h₀.started node hnode]
      exact or_iff_left hmem
  · have hpos := List.length_pos_iff.mpr hnonempty
    have hle := h₀.passes
    rw [hinvoked, hpasses, List.length_append, List.length_map]
    omega
  · have hl := h₀.layered (h.succeeding hs)
    have hlayer : ∀ node ∈ plan.tasks, IsReady st₀ node ↔
        Graph.Layer (edges plan) (L₀.passes + 1) node.id :=
      fun node hnode => hl.isReady_iff hvalid hnode
    rw [hpasses]
    refine ⟨fun node hnode hchain => ?_, fun node hnode hno => ?_, fun node hnode j => ?_⟩
    · have hnot : N.id node.id ∉ ready.map RunTask.id := fun hmem =>
        ((hlayer node hnode).mp ((hmine node hnode).mp hmem)).2 hchain
      rw [h.others node hnode hnot]
      exact hl.planned node hnode hchain.pred
    · by_cases hmem : N.id node.id ∈ ready.map RunTask.id
      · exact (h.mine node hnode hmem).2 hs
      · rw [h.others node hnode hmem]
        refine hl.succeeded node hnode fun hchain => hmem ?_
        exact (hmine node hnode).mpr ((hlayer node hnode).mpr ⟨hchain, hno⟩)
    · have hnow : (j, N.id node.id) ∈ ready.map (fun task => (L₀.passes + 1, task.id)) ↔
          j = L₀.passes + 1 ∧ N.id node.id ∈ ready.map RunTask.id := by
        simp only [List.mem_map, Prod.mk.injEq]
        exact ⟨fun ⟨t, ht, hj, hid⟩ => ⟨hj.symm, t, ht, hid⟩,
          fun ⟨hj, t, ht, hid⟩ => ⟨t, ht, hj.symm, hid⟩⟩
      rw [hinvoked, List.mem_append, hl.invoked node hnode j, hnow, hmine node hnode,
        hlayer node hnode]
      constructor
      · rintro (⟨hj, hlay⟩ | ⟨rfl, hlay⟩)
        · exact ⟨Nat.le_succ_of_le hj, hlay⟩
        · exact ⟨Nat.le_refl _, hlay⟩
      · rintro ⟨hj, hlay⟩
        rcases Nat.lt_or_eq_of_le hj with hlt | rfl
        · exact .inl ⟨Nat.le_of_lt_succ hlt, hlay⟩
        · exact .inr ⟨rfl, hlay⟩

/-- If nothing is ready and nothing failed or was cancelled, everything has succeeded: a planned task
would be waiting for a planned one, and so on without end. -/
theorem Between.succeeded (h : Between created plan N st L w)
    (hnone : ∀ node ∈ plan.tasks, ¬ IsReady st node)
    (hgood : ∀ node ∈ plan.tasks, st node.id ≠ .failed ∧ st node.id ≠ .cancelled) :
    ∀ node ∈ plan.tasks, st node.id = .succeeded := by
  suffices hall : ∀ id, Acc (fun d n => d ∈ edges plan n) id → ∀ node ∈ plan.tasks, node.id = id →
      st node.id = .succeeded from
    fun node hnode => hall _ (hvalid.acc (List.mem_map_of_mem hnode)) node hnode rfl
  intro id hacc
  induction hacc with
  | intro id _ ih =>
      rintro node hnode rfl
      have hdeps : ∀ d ∈ node.dependencies, st d = .succeeded := by
        intro d hd
        obtain ⟨dependency, hmem, rfl⟩ := List.mem_map.mp (hvalid.known hnode hd)
        refine ih _ ?_ dependency hmem rfl
        rw [edges, TaskGraph.edges_of_mem hvalid.nodup hnode]
        exact hd
      have hgood := hgood node hnode
      rcases h.resting node hnode with hplanned | hover
      · exact absurd ⟨hplanned, hdeps⟩ (hnone node hnode)
      · rcases hover with hs | hs | hs
        · exact hs
        · exact absurd hs hgood.1
        · exact absurd hs hgood.2

omit hvalid in
/-- There is room for one more pass: every pass before called a runner, each of a different node. -/
theorem Between.room (h : Between created plan N st L w) : L.passes ≤ plan.tasks.length := by
  refine h.passes.trans ?_
  have hsub : L.invoked.map Prod.snd ⊆ plan.tasks.map fun node => N.id node.id := by
    intro id hid
    obtain ⟨entry, hentry, rfl⟩ := List.mem_map.mp hid
    obtain ⟨node, hnode, heq⟩ := h.here.coherent.invoked entry hentry
    exact List.mem_map.mpr ⟨node, hnode, heq.symm⟩
  have hle := (List.subperm_of_subset h.here.coherent.once hsub).length_le
  rwa [List.length_map, List.length_map] at hle

end Between

/-! ## How a run ends -/

/-- What a run that returned without having seen a cancellation, all of whose runners reported a
success, has done: all tasks have succeeded, each runner was called in its layer's pass. -/
def Complete (created : Run) (plan : Plan) (w : World) : Prop :=
  w.ledger.stopped = false → w.ledger.succeeding = true →
    ∃ N : Naming, N.Injective plan.tasks ∧
      (w.db.tasksOf created.id).Perm (N.rows created.id plan.tasks fun _ => .succeeded) ∧
      (∀ node ∈ plan.tasks, N.id node.id ∈ w.ledger.invoked.map Prod.snd) ∧
      ∀ node ∈ plan.tasks, ∀ k, (k, N.id node.id) ∈ w.ledger.invoked ↔
        Graph.Layer (edges plan) k node.id

theorem Complete.cancel (h : Complete created plan w) :
    Complete created plan (w.cancel created.id) := by
  rw [Complete, cancel_ledger, cancel_db]
  exact h

theorem canTransition_cancelled {s : TaskState} (h : Scheduler.isOpen s = true) :
    s.canTransition .cancelled = true := by
  cases s <;> first | rfl | cases h

/-- **Cancelling the run** closes every open task, then the run; nothing it does can be called off. -/
theorem wp_cancelRun (hvalid : TaskGraph.Valid plan.tasks) {run : Run} {reason : String}
    (hid : run.id = created.id) (hstopped : L.stopped = true) (hescaped : L.escaped = false)
    (hw : At created plan N plan.tasks st .running L w) :
    wp (contract created plan .engine) (Scheduler.cancelRunAsync projectId run reason .none)
      (fun _ w => Ended created plan w ∧ Complete created plan w) (fun _ => Ended created plan) w := by
  have hnever : ∀ {A : World → Prop}, Escapes created plan .none A := fun h => by cases h
  simp only [Scheduler.cancelRunAsync, Prog.bind_eq]
  rw [hid]
  refine wp_seq (wp_listTasks At.kept hw hnever) fun tasks w ⟨hw, hperm⟩ => ?_
  have hrows := hperm.trans hw.stored.tasks
  have hinj := hw.injective
  have hnodup := hvalid.nodup
  have hids : (tasks.map RunTask.id).Nodup :=
    (hrows.map RunTask.id).nodup_iff.mpr (Naming.ids_nodup hinj hnodup)
  -- The tasks that had their turn are closed, the others are as they were read.
  refine wp_seq (M := fun _ w => ∃ st', At created plan N plan.tasks st' .running L w ∧
    ∀ node ∈ plan.tasks, Scheduler.isOpen (st' node.id) = false) ?_ ?_
  · refine wp_mono (wp_forEach (fun done w => ∃ st',
      At created plan N plan.tasks st' .running L w ∧
      (∀ node ∈ plan.tasks, N.id node.id ∉ done.map RunTask.id → st' node.id = st node.id) ∧
      ∀ node ∈ plan.tasks, N.id node.id ∈ done.map RunTask.id →
        Scheduler.isOpen (st' node.id) = false)
      ⟨st, hw, fun _ _ _ => rfl, fun _ _ h => by simp at h⟩ ?_) ?_ fun _ _ h => h
    · rintro done task rest w hall ⟨st', hw, hothers, hclosed⟩
      have hmem : task ∈ tasks := by rw [hall]; simp
      obtain ⟨node, hnode, rfl⟩ := Naming.mem_rows.mp (hrows.mem_iff.mp hmem)
      have hsplit : (done.map RunTask.id ++ N.id node.id :: rest.map RunTask.id).Nodup := by
        rw [hall, List.map_append] at hids
        exact hids
      have hnew : N.id node.id ∉ done.map RunTask.id := fun hdone =>
        (List.nodup_append.mp hsplit).2.2 _ hdone _ List.mem_cons_self rfl
      have hst : st' node.id = st node.id := hothers node hnode hnew
      have hsame : ∀ n ∈ plan.tasks, N.id n.id ∈ (done ++
          [(N.task created.id node (st node.id)).persisted]).map RunTask.id →
          N.id n.id ∈ done.map RunTask.id ∨ n = node := by
        intro n hn hmem
        rw [List.map_append, List.mem_append] at hmem
        rcases hmem with hdone | hlast
        · exact .inl hdone
        · exact .inr (hinj n hn node hnode (List.mem_singleton.mp hlast))
      split
      · next hopen =>
          have hopen : Scheduler.isOpen (st' node.id) = true := hst ▸ hopen
          refine wp_seq (wp_moveTask hnodup hnode (fun h => by cases h) (by rw [hst]; rfl)
            (canTransition_cancelled hopen) hw) fun _ w ⟨hw, _⟩ => ⟨_, hw, ?_, ?_⟩
          · intro n hn hnot
            rw [List.map_append, List.mem_append, not_or] at hnot
            have hne : n.id ≠ node.id := fun heq =>
              hnot.2 (List.mem_singleton.mpr (by rw [heq]; rfl))
            rw [Function.update_of_ne hne]
            exact hothers n hn hnot.1
          · intro n hn hmem
            by_cases heq : n.id = node.id
            · rw [heq, Function.update_self]
              rfl
            · rw [Function.update_of_ne heq]
              rcases hsame n hn hmem with hdone | rfl
              · exact hclosed n hn hdone
              · exact absurd rfl heq
      · next hopen =>
          refine ⟨st', hw, fun n hn hnot => ?_, fun n hn hmem => ?_⟩
          · rw [List.map_append, List.mem_append, not_or] at hnot
            exact hothers n hn hnot.1
          · rcases hsame n hn hmem with hdone | rfl
            · exact hclosed n hn hdone
            · rw [hst]
              exact Bool.eq_false_iff.mpr hopen
    · rintro _ w ⟨st', hw, -, hclosed⟩
      refine ⟨st', hw, fun node hnode => hclosed node hnode ?_⟩
      have hmem := hrows.mem_iff.mpr (Naming.mem_rows.mpr ⟨node, hnode, rfl⟩)
      exact List.mem_map.mpr ⟨_, hmem, rfl⟩
  · rintro _ w ⟨st', hw, hclosed⟩
    have hkept : Kept created plan fun w => At created plan N plan.tasks st' .running L w :=
      At.kept
    refine wp_seq (wp_findRun hkept hw hnever) fun current w ⟨hw, hcurrent⟩ => ?_
    rw [hw.stored.run] at hcurrent
    subst hcurrent
    simp only [Option.getD_some]
    show wp _ (Scheduler.moveRun projectId _ .cancelled .runFailed _ .none) _ _ w
    refine wp_mono (wp_moveRun (fun h => by cases h) (Run.persisted_persisted _) rfl
      (fun _ _ => rfl) hw) ?_ fun _ _ h => h
    · rintro _ w ⟨⟨hw, -⟩, -⟩
      have hledger : w.ledger = L := hw.ledger
      refine ⟨.inr ⟨⟨hw.settled, fun _ => ⟨fun r hr => ?_, fun task htask => ?_⟩⟩,
        by rw [hledger]; exact hescaped, .inr (by rw [hledger]; exact hstopped)⟩, fun hstop => ?_⟩
      · rw [hw.stored.run] at hr
        cases hr
        exact .inl rfl
      · obtain ⟨node, hnode, rfl⟩ := Naming.mem_rows.mp (hw.stored.tasks.mem_iff.mp htask)
        have hclosed := hclosed node hnode
        show st' node.id ≠ _ ∧ st' node.id ≠ _ ∧ st' node.id ≠ _
        refine ⟨fun h => ?_, fun h => ?_, fun h => ?_⟩ <;> rw [h] at hclosed <;> cases hclosed
      · rw [hledger, hstopped] at hstop
        cases hstop

/-- What the evaluation leaves: an empty plan's run as it was, any other run settled, before its token
was cancelled. -/
def Evaluated (created : Run) (plan : Plan) (N : Naming) (st : TaskId → TaskState) (L : Ledger)
    (w : World) : Prop :=
  (plan.tasks = [] ∧ At created plan N plan.tasks st .running L w) ∨
    ∃ rs, settles rs = true ∧ plan.tasks ≠ [] ∧ Moved created plan N plan.tasks st rs L .source w

/-- **The evaluation has a case for every run** whose tasks are over or waiting for one that did not
succeed, except for the run of an empty plan. -/
theorem wp_evaluate (hvalid : TaskGraph.Valid plan.tasks) {run : Run} {L₀ : Ledger} {w₀ : World}
    (hid : run.id = created.id) (hrun : run.persisted = { created with state := .running }.persisted)
    (hnone : ∀ node ∈ plan.tasks, ¬ IsReady st node) (hw : Between created plan N st L₀ w₀)
    (here : At created plan N plan.tasks st .running L w) :
    wp (contract created plan .engine)
      (Scheduler.evaluateCompletionAsync projectId run .source)
      (fun _ => Evaluated created plan N st L) (fun _ => Ended created plan) w := by
  simp only [Scheduler.evaluateCompletionAsync, Prog.bind_eq]
  rw [hid]
  refine wp_seq (wp_listTasks At.kept here (At.escapes fun _ => rfl))
    fun tasks w' ⟨here, hperm⟩ => ?_
  have hrows := hperm.trans here.stored.tasks
  have hany : ∀ s, (tasks.any fun task => task.state = s) = true ↔
      ∃ node ∈ plan.tasks, st node.id = s := by
    intro s
    rw [List.any_eq_true]
    constructor
    · rintro ⟨task, htask, hs⟩
      obtain ⟨node, hnode, rfl⟩ := Naming.mem_rows.mp (hrows.mem_iff.mp htask)
      exact ⟨node, hnode, of_decide_eq_true hs⟩
    · rintro ⟨node, hnode, hs⟩
      exact ⟨_, hrows.mem_iff.mpr (Naming.mem_rows.mpr ⟨node, hnode, rfl⟩), decide_eq_true hs⟩
  have hmove : ∀ {rs : RunState} {type : EventType}, settles rs = true →
      RunState.running.canTransition rs = true → plan.tasks ≠ [] → ∀ b : Bool,
      wp (contract created plan .engine)
        ((Scheduler.moveRun projectId run rs type [] .source).bind fun _ => .ret b)
        (fun _ => Evaluated created plan N st L) (fun _ => Ended created plan) w' := by
    intro rs type hrs hlegal hne b
    exact wp_seq (wp_moveRun (fun _ => rfl) hrun hlegal (fun _ _ => rfl) here)
      fun _ w hmoved => .inr ⟨rs, hrs, hne, hmoved.1⟩
  have hlength : tasks.length = plan.tasks.length := by
    rw [hrows.length_eq, Naming.rows, List.length_map]
  split
  · next hempty =>
      have hnil : plan.tasks = [] := List.length_eq_zero_iff.mp (hlength ▸ hempty)
      exact .inl ⟨hnil, here⟩
  · next hsome =>
      have hne : plan.tasks ≠ [] := fun hnil => hsome (by rw [hlength, hnil]; rfl)
      split
      · exact hmove rfl rfl hne false
      · next hfailed =>
          split
          · exact hmove rfl rfl hne false
          · next hcancelled =>
              have hall := hw.succeeded hvalid hnone fun node hnode =>
                ⟨fun h => hfailed ((hany _).mpr ⟨node, hnode, h⟩),
                  fun h => hcancelled ((hany _).mpr ⟨node, hnode, h⟩)⟩
              have hterminal : (tasks.all fun task => task.state.isTerminal) = true := by
                rw [List.all_eq_true]
                intro task htask
                obtain ⟨node, hnode, rfl⟩ := Naming.mem_rows.mp (hrows.mem_iff.mp htask)
                show (st node.id).isTerminal = true
                rw [hall node hnode]
                rfl
              rw [if_pos hterminal]
              exact hmove rfl rfl hne true

/-- **What follows the loop**: the run is settled, unless the plan is empty. -/
theorem wp_finish (hvalid : TaskGraph.Valid plan.tasks) {run : Run} {w₀ : World}
    (hid : run.id = created.id) (hrun : run.persisted = { created with state := .running }.persisted)
    (hnone : ∀ node ∈ plan.tasks, ¬ IsReady st node) (hw : Between created plan N st L w₀)
    (here : At created plan N plan.tasks st .running { L with passes := L.passes + 1 } w) :
    wp (contract created plan .engine) (RunEngine.finish projectId run .source)
      (fun x w => (∃ r, x = .inr r) ∧ Ended created plan w ∧ Complete created plan w)
      (fun _ => Ended created plan) w := by
  have hstopped := hw.stopped
  have hescaped := hw.escaped
  have hcomplete : ∀ {rs : RunState} {w : World},
      At created plan N plan.tasks st rs { L with passes := L.passes + 1 } w →
      Complete created plan w := by
    intro rs w' here hstop hsucceeding
    rw [here.ledger] at hsucceeding ⊢
    obtain ⟨hall, hlayers⟩ := (hw.layered hsucceeding).finished hvalid hnone
    refine ⟨N, here.injective, ?_, fun node hnode => ?_, hlayers⟩
    · refine here.stored.tasks.trans (List.Perm.of_eq (List.map_congr_left fun node hnode => ?_))
      rw [hall node hnode]
    · exact (hw.started node hnode).mpr (by rw [hall node hnode]; simp)
  simp only [RunEngine.finish, Prog.bind_eq]
  refine wp_seq (wp_evaluate hvalid hid hrun hnone hw here) fun _ w hevaluated => ?_
  rw [hid]
  rcases hevaluated with ⟨hnil, here⟩ | ⟨rs, hrs, hne, hmoved⟩
  · -- Nothing has moved the run of an empty plan.
    refine wp_seq (wp_findRun At.kept here (At.escapes fun _ => rfl)) fun _ w ⟨here, _⟩ =>
      ⟨⟨_, rfl⟩, .inl ⟨here.settled, fun horderly => ?_⟩, hcomplete here⟩
    rcases horderly.2 with hne | hstop
    · exact hne hnil
    · rw [here.ledger, hstopped] at hstop
      cases hstop
  · have hends : ∀ w, Moved created plan N plan.tasks st rs { L with passes := L.passes + 1 }
        .source w → Settles created w ∧ Orderly plan w := by
      rintro w ⟨here, hearly⟩
      refine ⟨⟨here.settled.trans hrs, fun h => ?_⟩, by rw [here.ledger]; exact hescaped, .inl hne⟩
      rw [hearly rfl hrs] at h
      cases h
    refine wp_seq (wp_findRun Moved.kept hmoved fun _ w hmoved => ?_) fun _ w ⟨hmoved, _⟩ =>
      ⟨⟨_, rfl⟩, .inr (hends w hmoved), hcomplete hmoved.1⟩
    exact (hends w hmoved).1.escape (hends w hmoved).2 (Moved.kept.sound w hmoved)

/-! ## The rounds of the loop -/

/-- Where the engine goes round: with the run it has moved to running, between two passes. -/
def Rounds (created : Run) (plan : Plan) (run : Run) (w : World) : Prop :=
  run.persisted = { created with state := .running }.persisted ∧
    ∃ N st L, Between created plan N st L w

/-- Where a round ends. -/
def Exit (created : Run) (plan : Plan) : RunEngine.Point ⊕ Run → World → Prop
  | .inl .start => fun _ => False
  | .inl (.pass run) => Rounds created plan run
  | .inr _ => fun w => Ended created plan w ∧ Complete created plan w

/-- **One round**: the run is cancelled, or settled, or another layer is done. -/
theorem wp_pass (hvalid : TaskGraph.Valid plan.tasks) {run : Run} (hw : Rounds created plan run w) :
    wp (contract created plan .engine) (RunEngine.pass projectId run .source) (Exit created plan)
      (fun _ => Ended created plan) w := by
  obtain ⟨hrun, N, st, L, hw⟩ := hw
  have hid : run.id = created.id := by
    show run.persisted.id = created.id
    rw [hrun]
    rfl
  simp only [RunEngine.pass, Prog.bind_eq, Prog.op_bind]
  refine wp_op At.kept hw.here (fun _ h => by cases h) fun w' r w'' here hexec => ?_
  have hw : Between created plan N st L w' :=
    ⟨here, hw.resting, hw.started, hw.stopped, hw.escaped, hw.passes, hw.layered⟩
  have hexec : (if r = w'.cancelled then some w'.look else none) = some w'' := hexec
  obtain ⟨hr, rfl⟩ : r = w'.cancelled ∧ w'.look = w'' := by simpa using hexec
  have hc := here.coherent
  cases hr' : r with
  | true =>
      have hlook : At created plan N plan.tasks st .running { L with stopped := true } w'.look := by
        rw [World.look, if_pos (hr ▸ hr'), here.ledger]
        exact ⟨here.stored, rfl, here.early, hc.injective, hc.saved, hc.all, hc.invoked, hc.once,
          hc.passes⟩
      refine ⟨⟨_, _, _, _, _, hlook⟩, ?_⟩
      exact wp_seq (wp_cancelRun (L := { L with stopped := true }) hvalid hid rfl hw.escaped hlook)
        fun _ _ h => h
  | false =>
      have hlook : At created plan N plan.tasks st .running { L with passes := L.passes + 1 }
          w'.look := by
        rw [World.look, if_neg (by rw [← hr, hr']; simp), here.ledger]
        exact ⟨here.stored, rfl, here.early, hc.injective, hc.saved, hc.all, hc.invoked, hc.once,
          Nat.succ_le_succ hw.room⟩
      refine ⟨⟨_, _, _, _, _, hlook⟩, ?_⟩
      show wp _ (Prog.bind (RunRepository.listTasksAsync run.id .source) _) _ _ _
      rw [hid]
      refine wp_seq (wp_listTasks At.kept hlook (At.escapes fun _ => rfl))
        fun tasks w ⟨here, hperm⟩ => ?_
      obtain ⟨ready, hready, hnodup, hmem⟩ :=
        readyTasks_rows hvalid here.injective (hperm.trans here.stored.tasks)
      rw [hready]
      simp only [Prog.ofExcept_ok, Prog.ret_bind]
      split
      · next hempty =>
          have hnil : ready = [] := List.length_eq_zero_iff.mp hempty
          have hnone : ∀ node ∈ plan.tasks, ¬ IsReady st node := fun node hnode hisReady => by
            have := (hmem _).mpr ⟨node, hnode, hisReady, rfl⟩
            rw [hnil] at this
            cases this
          refine wp_mono (wp_finish hvalid hid hrun hnone hw here) ?_ fun _ _ h => h
          rintro _ w ⟨⟨r, rfl⟩, hended⟩
          exact hended
      · next hsome =>
          have hne : ready ≠ [] := fun hnil => hsome (by rw [hnil]; rfl)
          have hfresh : ∀ node ∈ plan.tasks, IsReady st node →
              N.id node.id ∉ ({ L with passes := L.passes + 1 } : Ledger).invoked.map Prod.snd :=
            fun node hnode hisReady hinvoked =>
              (hw.started node hnode).mp hinvoked hisReady.1
          refine wp_seq (wp_ready hvalid hnodup (fun task htask => (hmem task).mp htask) hfresh here)
            fun _ w ⟨st', L', h⟩ => ⟨hrun, N, st', L', ?_⟩
          exact hw.next hvalid rfl hne hmem h

/-! ## Before the loop -/

/-- The dictionary `Materialize` builds: the keys in order, and no id twice. -/
structure Named (rewritten : List (TaskId × TaskId)) (keys : List TaskId) : Prop where
  keys : rewritten.map Prod.fst = keys
  distinct : (rewritten.map Prod.snd).Nodup

theorem wp_rewrite {rewritten : List (TaskId × TaskId)} {todo : List PlanTask}
    {F : Exn → World → Prop} (hkeys : (rewritten.map Prod.fst ++ todo.map PlanTask.id).Nodup)
    (hdistinct : (rewritten.map Prod.snd).Nodup)
    (hw : At created plan N nodes st rs L w ∧ ∀ id ∈ rewritten.map Prod.snd, id ∈ w.used) :
    wp (contract created plan .engine) (RunEngine.rewrite todo rewritten)
      (fun result w => At created plan N nodes st rs L w ∧
        Named result (rewritten.map Prod.fst ++ todo.map PlanTask.id)) F w := by
  induction todo generalizing rewritten w with
  | nil => exact ⟨hw.1, (List.append_nil _).symm, hdistinct⟩
  | cons node todo ih =>
      have hkept : Kept created plan fun w => At created plan N nodes st rs L w ∧
          ∀ id ∈ rewritten.map Prod.snd, id ∈ w.used :=
        At.kept.and fun w _ h => by rw [cancel_used]; exact h
      simp only [RunEngine.rewrite, Prog.bind_eq, Prog.op_bind]
      refine wp_op hkept hw (fun _ h => by cases h) fun w id w' ⟨here, hused⟩ hexec => ?_
      have hexec : (if id ∈ w.used then none else some { w with used := id :: w.used }) = some w' :=
        hexec
      split at hexec
      · cases hexec
      · next hfresh =>
          obtain rfl := Option.some.inj hexec
          have here' : At created plan N nodes st rs L { w with used := id :: w.used } :=
            ⟨here.stored, here.ledger, here.early, here.coherent⟩
          refine ⟨⟨_, _, _, _, _, here'⟩, ?_⟩
          have hnew : node.id ∉ rewritten.map Prod.fst := fun hmem =>
            (List.nodup_append.mp hkeys).2.2 _ hmem _ List.mem_cons_self rfl
          rw [if_neg]
          · have hsnoc : (rewritten ++ [(node.id, id)]).map Prod.fst ++ todo.map PlanTask.id =
                rewritten.map Prod.fst ++ (node :: todo).map PlanTask.id := by
              rw [List.map_append, List.append_assoc]
              rfl
            rw [← hsnoc] at hkeys ⊢
            refine ih hkeys ?_ ⟨here', fun id' hid' => ?_⟩
            · rw [List.map_append]
              refine List.nodup_append.mpr ⟨hdistinct, List.nodup_singleton _, ?_⟩
              intro a ha b hb heq
              have hb : b = id := List.mem_singleton.mp hb
              exact hfresh (hused id (hb ▸ heq ▸ ha))
            · rw [List.map_append, List.mem_append] at hid'
              rcases hid' with hold | hlast
              · exact List.mem_cons_of_mem id (hused id' hold)
              · rw [List.mem_singleton.mp hlast]
                exact List.mem_cons_self
          · intro hany
            obtain ⟨entry, hentry, heq⟩ := List.any_eq_true.mp hany
            exact hnew (List.mem_map.mpr ⟨entry, hentry, of_decide_eq_true heq⟩)

/-- The naming a dictionary stands for. -/
def Naming.of (rewritten : List (TaskId × TaskId)) (now : DateTimeOffset) : Naming where
  id key := ((Table.lookup Prod.fst key rewritten).map Prod.snd).getD key
  now := now

section Named

variable {rewritten : List (TaskId × TaskId)} (now : DateTimeOffset)
  (hnamed : Named rewritten (plan.tasks.map PlanTask.id)) (hvalid : TaskGraph.Valid plan.tasks)
include hvalid hnamed

/-- `rewritten[id]` for a node's id. -/
theorem Named.lookup {id : TaskId} (hid : id ∈ plan.tasks.map PlanTask.id) :
    Table.lookup Prod.fst id rewritten = some (id, (Naming.of rewritten now).id id) := by
  have hkeyed : Table.Keyed Prod.fst rewritten := by
    rw [Table.Keyed, hnamed.keys]
    exact hvalid.nodup
  rw [← hnamed.keys] at hid
  obtain ⟨entry, hentry, rfl⟩ := List.mem_map.mp hid
  have hlookup := Table.lookup_of_mem hkeyed hentry
  have hname : (Naming.of rewritten now).id entry.1 = entry.2 := by
    show ((Table.lookup Prod.fst entry.1 rewritten).map Prod.snd).getD entry.1 = entry.2
    rw [hlookup]
    rfl
  rw [hlookup, hname]

theorem Named.injective : (Naming.of rewritten now).Injective plan.tasks := by
  intro a ha b hb heq
  have hla := hnamed.lookup now hvalid (List.mem_map_of_mem ha)
  have hlb := hnamed.lookup now hvalid (List.mem_map_of_mem hb)
  have hentry := List.inj_on_of_nodup_map hnamed.distinct (Table.mem_of_lookup hla).1
    (Table.mem_of_lookup hlb).1 heq
  exact List.inj_on_of_nodup_map hvalid.nodup ha hb (congrArg Prod.fst hentry)

/-- `Materialize` finds every id it looks up. -/
theorem Named.materialized (runId : RunId) :
    plan.tasks.mapM (RunEngine.taskOf rewritten runId now) =
      .ok (plan.tasks.map fun node => (Naming.of rewritten now).task runId node .planned) := by
  have hid : ∀ id ∈ plan.tasks.map PlanTask.id,
      RunEngine.rewrittenId rewritten id = .ok ((Naming.of rewritten now).id id) := by
    intro id hid
    rw [RunEngine.rewrittenId, hnamed.lookup now hvalid hid]
  refine Attempts.mapM_ok fun node hnode => ?_
  have hdeps : node.dependencies.mapM (RunEngine.rewrittenId rewritten) =
      .ok (node.dependencies.map (Naming.of rewritten now).id) :=
    Attempts.mapM_ok fun d hd => hid d (hvalid.known hnode hd)
  rw [RunEngine.taskOf, hid _ (List.mem_map_of_mem hnode), hdeps]
  rfl

end Named

/-- Saving the tasks, one after the other. -/
theorem wp_saves (hvalid : TaskGraph.Valid plan.tasks) (hinj : N.Injective plan.tasks)
    (hst : ∀ node ∈ plan.tasks, st node.id = .planned)
    (hw : At created plan N [] st .planning L w) :
    wp (contract created plan .engine)
      (Prog.forEach (fun task => do Prog.ofExcept (← Prog.op (.execute (.task task) .source)))
        (plan.tasks.map fun node => N.task created.id node .planned))
      (fun _ => At created plan N plan.tasks st .planning L) (fun _ => Ended created plan) w := by
  refine wp_mono (wp_forEach (fun done w => ∃ saved, saved <+: plan.tasks ∧
    done = saved.map (fun node => N.task created.id node .planned) ∧
    At created plan N saved st .planning L w) ⟨[], List.nil_prefix, rfl, hw⟩ ?_) ?_ fun _ _ h => h
  · rintro done task rest w hall ⟨saved, ⟨others, hsaved⟩, rfl, hw⟩
    rw [← hsaved, List.map_append] at hall
    cases others with
    | nil =>
        have hrest := List.append_cancel_left hall
        cases hrest
    | cons node others =>
        obtain ⟨rfl, -⟩ := List.cons.inj (List.append_cancel_left hall)
        have hnode : node ∈ plan.tasks := by rw [← hsaved]; simp
        simp only [Prog.bind_eq, Prog.op_bind]
        refine wp_op At.kept hw (fun _ h => by cases h) fun w r w' hw hexec => ?_
        rcases answered_cases hexec with ⟨_, db, rfl, hdb, _, rfl⟩ | ⟨e, db, rfl, hdb, rfl⟩
        · obtain rfl := Option.some.inj hdb
          have hnew : ∀ n ∈ saved, N.id n.id ≠ N.id node.id := by
            intro n hn heq
            have hmem : n ∈ plan.tasks := by rw [← hsaved]; exact List.mem_append_left _ hn
            obtain rfl := hinj n hmem node hnode heq
            have hnodup := hvalid.nodup
            rw [← hsaved, List.map_append] at hnodup
            exact (List.nodup_append.mp hnodup).2.2 _ (List.mem_map_of_mem hn) _
              List.mem_cons_self rfl
          have hstored := hw.stored.task_saved hnew
          rw [hst node hnode] at hstored
          have hc := hw.coherent
          have here : At created plan N (saved ++ [node]) st .planning L
              { w with db := w.db.apply (.task (N.task created.id node .planned)) } :=
            ⟨hstored, hw.ledger, hw.early, hinj, ⟨others, by rw [← hsaved]; simp⟩,
              fun _ hne => absurd rfl hne, hc.invoked, hc.once, hc.passes⟩
          exact ⟨⟨_, _, _, _, _, here⟩, saved ++ [node], ⟨others, by rw [← hsaved]; simp⟩,
            by rw [List.map_append]; rfl, here⟩
        · have hended := hw.escape rfl
          exact ⟨hended.2, hended.1⟩
  · rintro _ w ⟨saved, ⟨others, hsaved⟩, hall, hw⟩
    have hlength := congrArg List.length hall
    rw [List.length_map, List.length_map, ← hsaved, List.length_append] at hlength
    obtain rfl : others = [] := List.length_eq_zero_iff.mp (by omega)
    rw [List.append_nil] at hsaved
    exact hsaved ▸ hw

/-- **Before the loop**: the run is planned, every node gets its task, and the run is running. -/
theorem wp_schedule (hvalid : TaskGraph.Valid plan.tasks) (hcreated : created.state = .created)
    {N₀ : Naming} (hw : At created plan N₀ [] (fun _ => .planned) .created {} w) :
    wp (contract created plan .engine) (RunEngine.schedule projectId created plan .source)
      (Exit created plan) (fun _ => Ended created plan) w := by
  have hrun : created.persisted = { created with state := .created }.persisted := by
    rw [← hcreated]
  simp only [RunEngine.schedule, Prog.bind_eq]
  refine wp_seq (wp_moveRun (fun _ => rfl) hrun rfl (fun _ h => absurd rfl h) hw)
    fun run w ⟨⟨hw, _⟩, hrun⟩ => ?_
  have hid : run.id = created.id := by
    show run.persisted.id = created.id
    rw [hrun]
    rfl
  rw [hid]
  -- No row depends on the naming yet, so it may be the one that is chosen now.
  refine wp_seq (M := fun tasks w => ∃ N : Naming, N.Injective plan.tasks ∧
    tasks = plan.tasks.map (fun node => N.task created.id node .planned) ∧
    At created plan N [] (fun _ => .planned) .planning {} w) ?_ ?_
  · simp only [RunEngine.materialize, Prog.bind_eq, Prog.op_bind]
    refine wp_quiet At.kept hw (fun _ h => by cases h) (fun _ _ => rfl) fun w now hw => ?_
    refine wp_seq (wp_rewrite (by simpa using hvalid.nodup) (by simp) ⟨hw, by simp⟩)
      fun rewritten w ⟨hw, hnamed⟩ => ?_
    rw [List.map_nil, List.nil_append] at hnamed
    rw [hnamed.materialized now hvalid]
    have hc := hw.coherent
    have hinj := hnamed.injective now hvalid
    refine ⟨Naming.of rewritten now, hinj, rfl, ?_⟩
    exact ⟨⟨hw.stored.run, hw.stored.tasks⟩, hw.ledger, hw.early,
      hinj, hc.saved, hc.all, fun _ h => by simp at h, hc.once, hc.passes⟩
  · rintro _ w ⟨N, hinj, rfl, hw⟩
    simp only [Scheduler.scheduleAsync, Prog.bind_eq, Prog.bind_assoc]
    refine wp_seq (wp_saves hvalid hinj (fun _ _ => rfl) hw) fun _ w hw => ?_
    refine wp_seq (wp_moveRun (fun _ => rfl) hrun rfl (fun _ _ => rfl) hw)
      fun run w ⟨⟨hw, _⟩, hrun⟩ => ?_
    refine wp_seq (wp_moveRun (fun _ => rfl) hrun rfl (fun _ _ => rfl) hw)
      fun run w ⟨⟨hw, _⟩, hrun⟩ => ⟨hrun, N, _, {}, hw, fun _ _ => .inl rfl, ?_, rfl, rfl, ?_, ?_⟩
    · intro node hnode
      simp
    · exact Nat.zero_le _
    · intro _
      refine ⟨fun _ _ _ => rfl, fun _ _ hno => absurd trivial hno, fun node hnode j => ?_⟩
      refine iff_of_false (by simp) ?_
      rintro ⟨hj, hlayer⟩
      obtain rfl : j = 0 := Nat.le_zero.mp hj
      exact hlayer.2 trivial

/-! ## Every execution -/

/-- The engine keeps to its contract, beside the canceller. -/
def outline (projectId : String) (created : Run) (plan : Plan) (hvalid : TaskGraph.Valid plan.tasks)
    (hcreated : created.state = .created) : Outline (system projectId created plan) where
  rely := rely created
  guar := guar created plan
  pre
    | .engine, .start => fun w => ∃ N, At created plan N [] (fun _ => .planned) .created {} w
    | .engine, .pass run => Rounds created plan run
    | .canceller, _ => fun _ => True
  post
    | .engine, _ => fun w => Ended created plan w ∧ Complete created plan w
    | .canceller, _ => fun _ => True
  fail
    | .engine, _ => Ended created plan
    | .canceller, _ => fun _ => True
  rely_refl i w := by
    cases i with
    | engine => exact .inl rfl
    | canceller => trivial
  rely_trans i a b c := by
    cases i with
    | engine =>
        rintro (rfl | rfl) (rfl | rfl)
        · exact .inl rfl
        · exact .inr rfl
        · exact .inr rfl
        · exact .inr (cancel_cancel ..)
    | canceller => exact fun _ _ => trivial
  guar_rely i j o w r w' hij h := by
    cases j with
    | canceller => trivial
    | engine =>
        cases i with
        | engine => exact absurd rfl hij
        | canceller => exact .inr h
  pre_stable i s w w' hrely h := by
    cases i with
    | canceller => trivial
    | engine =>
        rcases hrely with rfl | rfl
        · exact h
        · cases s with
          | start =>
              obtain ⟨N, hw⟩ := h
              exact ⟨N, hw.cancel⟩
          | pass run =>
              obtain ⟨hrun, N, st, L, hw⟩ := h
              exact ⟨hrun, N, st, L, hw.here.cancel, hw.resting, hw.started, hw.stopped, hw.escaped,
                hw.passes, hw.layered⟩
  post_stable i r w w' hrely h := by
    cases i with
    | canceller => trivial
    | engine =>
        rcases hrely with rfl | rfl
        · exact h
        · exact ⟨h.1.cancel, h.2.cancel⟩
  fail_stable i e w w' hrely h := by
    cases i with
    | canceller => trivial
    | engine =>
        rcases hrely with rfl | rfl
        · exact h
        · exact Ended.cancel h
  body i s w hw := by
    cases i with
    | canceller =>
        refine wp_call (fun _ => True) trivial (fun _ _ _ _ => trivial) fun w r w' _ hexec => ?_
        have hexec : some (w.cancel created.id) = some w' := hexec
        exact ⟨(Option.some.inj hexec).symm, trivial⟩
    | engine =>
        cases s with
        | start =>
            obtain ⟨N, hw⟩ := hw
            refine wp_mono (wp_schedule hvalid hcreated hw) (fun x w h => ?_) fun _ _ h => h
            rcases x with (_ | run) | run
            · exact h.elim
            · exact h
            · exact h
        | pass run =>
            refine wp_mono (wp_pass hvalid hw) (fun x w h => ?_) fun _ _ h => h
            rcases x with (_ | run) | run
            · exact h.elim
            · exact h
            · exact h

/-- An execution about to start. -/
def start (projectId : String) (created : Run) (plan : Plan) (db : Database) :
    Conf Party Op Ret Exn RunEngine.Point Run World :=
  (system projectId created plan).init (fun _ => .start) { db }

/-- The execution has ended: `ExecuteAsync` has returned, or thrown. -/
def HasEnded (c : Conf Party Op Ret Exn RunEngine.Point Run World) : Prop :=
  (∃ run, c.cur .engine = .ret (.inr run)) ∨ ∃ e, c.cur .engine = .raise e

section Runs

variable {db : Database} {c : Conf Party Op Ret Exn RunEngine.Point Run World}

theorem At.start (hvalid : TaskGraph.Valid plan.tasks) (hdb : Started created db) :
    At created plan ⟨id, default⟩ [] (fun _ => .planned) .created {} { db } := by
  refine ⟨⟨?_, ?_⟩, rfl, fun h => (by cases h), ⟨fun a ha b hb heq => ?_, List.nil_prefix,
    fun h => absurd rfl h, fun _ h => absurd h List.not_mem_nil, List.nodup_nil, Nat.zero_le _⟩⟩
  · rw [hdb.run, ← hdb.state]
  · rw [hdb.tasks]
    exact List.Perm.refl _
  · exact List.inj_on_of_nodup_map hvalid.nodup ha hb heq

theorem holds_start (projectId : String) (hvalid : TaskGraph.Valid plan.tasks)
    (hdb : Started created db) :
    (outline projectId created plan hvalid hdb.state).Holds (start projectId created plan db) := by
  refine Outline.holds_init _ fun i => ?_
  cases i with
  | engine => exact ⟨_, At.start hvalid hdb⟩
  | canceller => trivial

theorem Sound.steps (hvalid : TaskGraph.Valid plan.tasks) (hdb : Started created db)
    (h : (system projectId created plan).Steps (start projectId created plan db) c) :
    Sound created plan c.world := by
  refine Outline.world_steps (P := Sound created plan) _ ?_ (holds_start projectId hvalid hdb)
    ⟨_, _, _, _, _, At.start hvalid hdb⟩ h
  intro i o w r w' hguar hsound
  cases i with
  | engine => exact hguar.1
  | canceller =>
      have hw' : w' = w.cancel created.id := hguar
      obtain ⟨N, nodes, st, rs, L, hw⟩ := hsound
      exact hw' ▸ ⟨N, nodes, st, rs, L, hw.cancel⟩

/-- **When an execution settles its run**: exactly when no statement has thrown before the run was
settled, and the plan has a task or the loop has seen the cancellation. -/
theorem settles_iff (projectId : String) (created : Run) (plan : Plan)
    (hvalid : TaskGraph.Valid plan.tasks) (db : Database) (hdb : Started created db)
    (c : Conf Party Op Ret Exn RunEngine.Point Run World)
    (h : (system projectId created plan).Steps (start projectId created plan db) c)
    (hend : HasEnded c) : Settles created c.world ↔ Orderly plan c.world := by
  have hholds := Outline.holds_steps _ (holds_start projectId hvalid hdb) h
  rcases hend with ⟨run, hret⟩ | ⟨e, hraise⟩
  · have hpost := Outline.post_of_ret _ hholds hret
    exact Ended.iff hpost.1
  · have hfail := Outline.fail_of_raise _ hholds hraise
    exact Ended.iff hfail

/-- **Dependencies first, each task once.** In every reachable state the stored tasks are those of
distinct nodes of the plan, their dependencies translated with them, and of all nodes once the run
has been scheduled; no runner has been called twice, and there have been at most as many passes as
nodes, and one. A runner is only ever called for a stored task all of whose dependencies have
succeeded. An execution that returns without having seen a cancellation, all of whose runners reported
a success, has called every node's runner, each in the pass that is the length of its longest chain. -/
theorem dependencies_first (projectId : String) (created : Run) (plan : Plan)
    (hvalid : TaskGraph.Valid plan.tasks) (db : Database) (hdb : Started created db)
    (c : Conf Party Op Ret Exn RunEngine.Point Run World)
    (h : (system projectId created plan).Steps (start projectId created plan db) c) :
    (∃ (N : Naming) (nodes : List PlanTask) (st : TaskId → TaskState) (rs : RunState),
        N.Injective plan.tasks ∧ nodes <+: plan.tasks ∧
        StoredRun created N nodes st rs c.world.db ∧
        (rs ≠ .created → rs ≠ .planning → nodes = plan.tasks) ∧
        ∀ entry ∈ c.world.ledger.invoked, ∃ node ∈ plan.tasks, entry.2 = N.id node.id) ∧
      (c.world.ledger.invoked.map Prod.snd).Nodup ∧
      c.world.ledger.passes ≤ plan.tasks.length + 1 ∧
      (∀ task r c', (system projectId created plan).Step c (.call .engine (.runTask task) r) c' →
        Invocable created task c.world) ∧
      ((∃ run, c.cur .engine = .ret (.inr run)) → Complete created plan c.world) := by
  have hholds := Outline.holds_steps _ (holds_start projectId hvalid hdb) h
  obtain ⟨N, nodes, st, rs, L, hw⟩ := Sound.steps hvalid hdb h
  have hc := hw.coherent
  rw [hw.ledger]
  refine ⟨⟨N, nodes, st, rs, hc.injective, hc.saved, hw.stored, hc.all, hc.invoked⟩, hc.once,
    hc.passes, fun task r c' hstep => ?_, ?_⟩
  · have hallowed := (Outline.holds_step _ hholds hstep).2
    exact hallowed.2 task rfl
  · rintro ⟨run, hret⟩
    have hpost := Outline.post_of_ret _ hholds hret
    exact hpost.2

end Runs

/-! ### Executions of small plans -/

def newRun : Run where
  id := ⟨"run-1"⟩
  projectId := "atlas"
  goalId := ⟨"GOAL-1"⟩
  goalRevision := "r1"
  state := .created
  autonomy := .supervised
  createdAt := ⟨0, 0⟩

def newDb : Database := { runs := [newRun.persisted] }

theorem newDb_started : Started newRun newDb := ⟨rfl, rfl, rfl⟩

def emptyPlan : Plan := { (default : Plan) with state := .locked }

/-- Two tasks, the second after the first. -/
def chainPlan : Plan :=
  { emptyPlan with tasks := [
      { (default : PlanTask) with id := ⟨"a"⟩ },
      { (default : PlanTask) with id := ⟨"b"⟩, dependencies := [⟨"a"⟩] }] }

def answer : (o : Op) → World → Ret o
  | .selectRun id _, w => .ok (w.db.findRun id)
  | .selectTasks runId _, w => .ok (w.db.tasksOf runId)
  | .execute .., w => if w.cancelled then .error .operationCanceled else .ok ()
  | .executeInTransaction .., w => if w.cancelled then .error .operationCanceled else .ok ()
  | .newTaskId, w => ⟨String.ofList (List.replicate w.used.length '+')⟩
  | .isCancellationRequested, w => w.cancelled
  | .runTask _, _ => .ok ⟨true, ""⟩
  | _, _ => default

def turns (n : Nat) : List (Party × ((o : Op) → World → Ret o)) :=
  List.replicate n (.engine, answer)

def cancelling : List (Party × ((o : Op) → World → Ret o)) := [(.canceller, answer)]

theorem chainPlan_valid : TaskGraph.Valid chainPlan.tasks := by decide

/-- What a schedule leads to. -/
abbrev after (plan : Plan) (schedule : List (Party × ((o : Op) → World → Ret o))) :
    Conf Party Op Ret Exn RunEngine.Point Run World :=
  (system "atlas" newRun plan).play schedule (start "atlas" newRun plan newDb)

theorem settles_iff_chain : Settles newRun (after chainPlan (turns 58)).world :=
  (settles_iff "atlas" newRun chainPlan chainPlan_valid newDb newDb_started _
    (System.play_steps _ _ _) (.inl ⟨_, rfl⟩)).mpr ⟨rfl, .inl (by decide)⟩

/-- **Two runs left running**: the run of a plan without a task, and a run whose token is cancelled
before the first task of a pass is moved. -/
theorem left_running :
    (∃ c, (system "atlas" newRun emptyPlan).Steps (start "atlas" newRun emptyPlan newDb) c ∧
        HasEnded c ∧ ¬ Settles newRun c.world) ∧
      ∃ c, (system "atlas" newRun chainPlan).Steps (start "atlas" newRun chainPlan newDb) c ∧
        HasEnded c ∧ ¬ Settles newRun c.world := by
  constructor
  · refine ⟨after emptyPlan (turns 18), System.play_steps _ _ _, .inl ⟨_, rfl⟩, fun h => ?_⟩
    exact absurd h.settled (by decide)
  · refine ⟨after chainPlan (turns 20 ++ cancelling ++ turns 3), System.play_steps _ _ _,
      .inr ⟨_, rfl⟩, fun h => ?_⟩
    exact absurd h.settled (by decide)

theorem dependencies_first_chain :
    (after chainPlan (turns 58)).world.ledger.invoked = [(1, ⟨""⟩), (2, ⟨"+"⟩)] ∧
      Complete newRun chainPlan (after chainPlan (turns 58)).world :=
  ⟨rfl, (dependencies_first "atlas" newRun chainPlan chainPlan_valid newDb newDb_started _
    (System.play_steps _ _ _)).2.2.2.2 ⟨_, rfl⟩⟩

/-- **Half a schedule**: called off between the two tasks it saves, the execution ends with one task
for a plan of two. -/
theorem half_scheduled :
    ∃ c, (system "atlas" newRun chainPlan).Steps (start "atlas" newRun chainPlan newDb) c ∧
      HasEnded c ∧ (c.world.db.tasksOf newRun.id).length = 1 ∧ chainPlan.tasks.length = 2 :=
  ⟨after chainPlan (turns 8 ++ cancelling ++ turns 1), System.play_steps _ _ _, .inr ⟨_, rfl⟩,
    rfl, rfl⟩

end Execution

end AtlasFlow
