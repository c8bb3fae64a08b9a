import Mathlib
import AtlasFlow.Persistence.Columns
import AtlasFlow.Reference.Gates

/-!
# Rows the Python backend wrote, opened in C#

`_run_params`, `_task_params`, `_attempt_params`, `_event_params`, `save_plan` and `save_evidence`: the columns
a value is written as. Over them, what it is for such a row to read back as the same value, and exactly
when it does.

    value ──params──▶ columns ──read──▶ C# value

A plan is written as the object `{"tasks": […]}` and read as the bare array that C# writes, so that its
tasks are lost with no error.
-/

namespace AtlasFlow.Reference

open SqlValues

/-! ## Plans, with all the fields of a task -/

/-- `PlanTask`, with the field that a run does not read. -/
structure PlanTaskModel extends PlanTask where
  parallelizable : Bool := true
  deriving DecidableEq, Repr

/-- `PlanRecord`. -/
structure PlanModel where
  id : PlanId
  projectId : String
  goalId : String
  goalRevision : String
  state : PlanState := .draft
  autonomy : String := "agentic"
  runner : String := "dummy"
  integrationTarget : String := "main"
  createdAt : String
  tasks : List PlanTaskModel := []
  deriving DecidableEq, Repr

/-- `task.model_dump()`. -/
def PlanTaskModel.dump (task : PlanTaskModel) : Json :=
  .obj [("id", .str task.id), ("objective", .str task.objective), ("dependencies", json task.dependencies),
    ("write_scope", json task.writeScope), ("gates", json task.gates), ("risk", .str (text task.risk)),
    ("parallelizable", .bool task.parallelizable), ("capabilities", json task.capabilities)]

/-- `plan.model_dump_json(include={"tasks"})`. -/
def PlanModel.dumpTasks (plan : PlanModel) : Json := .obj [("tasks", .arr (plan.tasks.map PlanTaskModel.dump))]

/-! ## The columns of a value -/

/-- `_run_params`. -/
def runParams (run : Run) : RunColumns where
  id := run.id.value
  projectId := run.projectId
  goalId := run.goalId
  goalRevision := run.goalRevision
  state := text run.state
  autonomy := run.autonomy
  createdAt := run.createdAt
  startedAt := run.startedAt
  completedAt := run.completedAt

/-- `_task_params`. -/
def taskParams (task : Task) : TaskColumns where
  id := task.id.value
  runId := task.runId.value
  objective := task.objective
  role := task.role
  risk := task.risk
  scope := json task.scope
  state := text task.state
  dependencies := json (task.dependencies.map TaskId.value)
  createdAt := task.createdAt

/-- `_attempt_params`. -/
def attemptParams (attempt : Attempt) : AttemptColumns where
  id := attempt.id.value
  taskId := attempt.taskId.value
  runId := attempt.runId.value
  runner := attempt.runner
  modelProvider := attempt.modelProvider
  modelId := attempt.modelId
  state := text attempt.state
  createdAt := attempt.createdAt
  startedAt := attempt.startedAt
  completedAt := attempt.completedAt
  errorMsg := attempt.errorMsg

/-- `_event_params`. -/
def eventParams (event : DomainEvent) : EventColumns where
  id := event.id
  timestamp := event.timestamp
  projectId := event.projectId
  runId := event.runId.map RunId.value
  type := text event.type
  version := event.version
  payload := event.payload

/-- The parameters of `save_evidence`. -/
def evidenceParams (evidence : EvidenceItem) : EvidenceColumns where
  id := evidence.id
  goalId := evidence.goalId
  runId := evidence.runId.map RunId.value
  taskId := evidence.taskId.map TaskId.value
  gate := text evidence.gate
  kind := evidence.kind
  uri := evidence.uri
  digest := evidence.digest
  verdict := text evidence.verdict
  attachedAt := evidence.attachedAt

/-- The parameters of `save_plan`. -/
def planParams (plan : PlanModel) : PlanColumns where
  id := plan.id.value
  projectId := plan.projectId
  goalId := plan.goalId
  goalRevision := plan.goalRevision
  state := text plan.state
  autonomy := plan.autonomy
  runner := plan.runner
  integrationTarget := plan.integrationTarget
  createdAt := plan.createdAt
  tasks := plan.dumpTasks

/-! ## The same value in both languages -/

/-- A text that `datetime.now(UTC).isoformat()` gives. -/
def Stamp (stamp : String) : Prop := ∃ d : Moments.DateTime, stamp = d.isoformat

/-- A moment is the one a text names. -/
def SameMoment (stamp : String) (moment : DateTimeOffset) : Prop :=
  ∃ d : Moments.DateTime, stamp = d.isoformat ∧ moment.utcTicks = d.ticks

structure Run.Same (run : Run) (opened : AtlasFlow.Run) : Prop where
  id : opened.id = run.id
  projectId : opened.projectId = run.projectId
  goalId : opened.goalId.value = run.goalId
  goalRevision : opened.goalRevision = run.goalRevision
  state : opened.state = run.state
  autonomy : text opened.autonomy = run.autonomy
  createdAt : SameMoment run.createdAt opened.createdAt
  startedAt : Option.Rel SameMoment run.startedAt opened.startedAt
  completedAt : Option.Rel SameMoment run.completedAt opened.completedAt

structure Task.Same (task : Task) (opened : RunTask) : Prop where
  id : opened.id = task.id
  runId : opened.runId = task.runId
  objective : opened.objective = task.objective
  role : opened.role = task.role
  risk : text opened.risk = task.risk
  scope : opened.writeScope.map ProjectPath.value = task.scope
  state : opened.state = task.state
  dependencies : opened.dependencies = task.dependencies
  createdAt : SameMoment task.createdAt opened.createdAt

structure Attempt.Same (attempt : Attempt) (opened : AtlasFlow.Attempt) : Prop where
  id : opened.id = attempt.id
  taskId : opened.taskId = attempt.taskId
  runId : opened.runId = attempt.runId
  runner : opened.runner = attempt.runner
  modelProvider : opened.modelProvider = attempt.modelProvider
  modelId : opened.modelId = attempt.modelId
  state : opened.state = attempt.state
  createdAt : SameMoment attempt.createdAt opened.createdAt
  startedAt : Option.Rel SameMoment attempt.startedAt opened.startedAt
  completedAt : Option.Rel SameMoment attempt.completedAt opened.completedAt
  errorMsg : opened.error = attempt.errorMsg

structure DomainEvent.Same (event : DomainEvent) (opened : AtlasFlow.DomainEvent) : Prop where
  id : opened.id = event.id
  timestamp : SameMoment event.timestamp opened.timestamp
  projectId : opened.projectId = event.projectId
  runId : opened.runId = event.runId
  type : opened.type = event.type
  payload : opened.payload = event.payload

/-- The goal, the run and the digest of an evidence are no part of what C# keeps of one. -/
structure EvidenceItem.Same (evidence : EvidenceItem) (opened : AtlasFlow.Evidence) : Prop where
  id : opened.id.value = evidence.id
  gate : opened.gate = evidence.gate
  kind : opened.kind = evidence.kind
  uri : opened.uri = evidence.uri
  verdict : text opened.verdict = text evidence.verdict
  taskId : opened.taskId = evidence.taskId
  attachedAt : SameMoment evidence.attachedAt opened.attachedAt

structure PlanTaskModel.Same (task : PlanTaskModel) (opened : AtlasFlow.PlanTask) : Prop where
  id : opened.id.value = task.id
  objective : opened.objective = task.objective
  risk : opened.risk = task.risk
  parallelizable : opened.isParallelizable = task.parallelizable
  dependencies : opened.dependencies.map TaskId.value = task.dependencies
  writeScope : opened.writeScope.map ProjectPath.value = task.writeScope
  gates : opened.gates.map text = task.gates
  capabilities : opened.capabilities = task.capabilities

structure PlanModel.Same (plan : PlanModel) (opened : AtlasFlow.Plan) : Prop where
  id : opened.id = plan.id
  projectId : opened.projectId = plan.projectId
  goalId : opened.goalId.value = plan.goalId
  goalRevision : opened.goalRevision = plan.goalRevision
  state : opened.state = plan.state
  autonomy : text opened.autonomy = plan.autonomy
  runner : opened.runner = plan.runner
  integrationTarget : opened.integrationTarget = plan.integrationTarget
  createdAt : SameMoment plan.createdAt opened.createdAt
  tasks : List.Forall₂ PlanTaskModel.Same plan.tasks opened.tasks

/-! ## What is stored, and what opens -/

/-- A value the backend stores. -/
inductive Stored where
  | run (run : Run)
  | task (task : Task)
  | attempt (attempt : Attempt)
  | event (event : DomainEvent)
  | evidence (evidence : EvidenceItem)
  | plan (plan : PlanModel)

namespace Stored

/-- What every value has that the backend writes: its moments are those of its clock, and the payload of an
event is a dictionary. -/
def Written : Stored → Prop
  | .run r => Stamp r.createdAt ∧ (∀ s ∈ r.startedAt, Stamp s) ∧ ∀ s ∈ r.completedAt, Stamp s
  | .task t => Stamp t.createdAt
  | .attempt a => Stamp a.createdAt ∧ (∀ s ∈ a.startedAt, Stamp s) ∧ ∀ s ∈ a.completedAt, Stamp s
  | .event e => Stamp e.timestamp ∧ ∃ members, e.payload = .obj members
  | .evidence e => Stamp e.attachedAt
  | .plan p => Stamp p.createdAt

/-- The repositories read the row, and as the same value. -/
def Opens : Stored → Prop
  | .run r => ∃ opened, (runParams r).read = .ok opened ∧ r.Same opened
  | .task t => ∃ opened, (taskParams t).read = .ok opened ∧ t.Same opened
  | .attempt a => ∃ opened, (attemptParams a).read = .ok opened ∧ a.Same opened
  | .event e => ∃ opened, (eventParams e).read = .ok opened ∧ e.Same opened
  | .evidence e => ∃ opened, (evidenceParams e).read = .ok opened ∧ e.Same opened
  | .plan p => ∃ opened, (planParams p).read = .ok opened ∧ p.Same opened

/-- The values whose rows have the spellings and the shapes that C# reads. -/
def Portable : Stored → Prop
  | .run r => r.autonomy ∈ ["supervised", "agentic"]
  | .task t => t.risk ∈ ["low", "medium", "high"]
  | .attempt _ => True
  | .event e => e.payload.isStandard
  | .evidence _ => True
  | .plan p => p.autonomy ∈ ["supervised", "agentic"] ∧ p.tasks = []

end Stored

/-! ## Moments and spellings -/

theorem Stamp.read {stamp : String} (h : Stamp stamp) :
    ∃ ticks, instantOf stamp = .ok ticks ∧ SameMoment stamp (momentOf ticks) := by
  obtain ⟨d, rfl⟩ := h
  exact ⟨d.ticks, instantOf_isoformat d, d, rfl, rfl⟩

theorem Stamp.read_option {stamp : Option String} (h : ∀ s ∈ stamp, Stamp s) :
    ∃ ticks, stamp.mapM instantOf = .ok ticks ∧ Option.Rel SameMoment stamp (ticks.map momentOf) := by
  cases stamp with
  | none => exact ⟨none, rfl, .none⟩
  | some stamp =>
      obtain ⟨ticks, hticks, hsame⟩ := (h stamp rfl).read
      refine ⟨some ticks, ?_, .some hsame⟩
      simp only [Option.mapM_some, hticks]
      rfl

theorem text_autonomy (a : AutonomyLevel) : text a ∈ ["supervised", "agentic"] := by
  cases a <;> decide

theorem exists_autonomy {s : String} (h : s ∈ ["supervised", "agentic"]) : ∃ a : AutonomyLevel, s = text a := by
  simp only [List.mem_cons, List.not_mem_nil, or_false] at h
  rcases h with rfl | rfl
  · exact ⟨.supervised, rfl⟩
  · exact ⟨.agentic, rfl⟩

theorem text_risk (r : RiskLevel) : text r ∈ ["low", "medium", "high"] := by
  cases r <;> decide

theorem exists_risk {s : String} (h : s ∈ ["low", "medium", "high"]) : ∃ r : RiskLevel, s = text r := by
  simp only [List.mem_cons, List.not_mem_nil, or_false] at h
  rcases h with rfl | rfl | rfl
  · exact ⟨.low, rfl⟩
  · exact ⟨.medium, rfl⟩
  · exact ⟨.high, rfl⟩

/-- The two enumerations of verdicts have the same spellings. -/
theorem exists_verdict (verdict : GateVerdict) : ∃ v : Verdict, text verdict = text v := by
  cases verdict
  · exact ⟨.passed, rfl⟩
  · exact ⟨.failed, rfl⟩
  · exact ⟨.pending, rfl⟩

/-! ## Reading what was written -/

theorem run_opens_iff {run : Run} (h : Stored.Written (.run run)) :
    Stored.Opens (.run run) ↔ Stored.Portable (.run run) := by
  constructor
  · rintro ⟨opened, _, hsame⟩
    rw [Stored.Portable, ← hsame.autonomy]
    exact text_autonomy opened.autonomy
  · intro hportable
    obtain ⟨hcreated, hstarted, hcompleted⟩ := h
    obtain ⟨createdAt, hc, hcsame⟩ := hcreated.read
    obtain ⟨startedAt, hs, hssame⟩ := Stamp.read_option hstarted
    obtain ⟨completedAt, hd, hdsame⟩ := Stamp.read_option hcompleted
    obtain ⟨autonomy, ha⟩ := exists_autonomy hportable
    have hread : (runParams run).read = .ok ⟨run.id, run.projectId, ⟨run.goalId⟩, run.goalRevision, run.state,
        autonomy, momentOf createdAt, startedAt.map momentOf, completedAt.map momentOf⟩ := by
      simp [RunColumns.read, RunRow.read, runParams, hc, hs, hd, ha, bind, Except.bind, pure, Except.pure]
    exact ⟨_, hread, rfl, rfl, rfl, rfl, rfl, ha.symm, hcsame, hssame, hdsame⟩

theorem task_opens_iff {task : Task} (h : Stored.Written (.task task)) :
    Stored.Opens (.task task) ↔ Stored.Portable (.task task) := by
  constructor
  · rintro ⟨opened, _, hsame⟩
    rw [Stored.Portable, ← hsame.risk]
    exact text_risk opened.risk
  · intro hportable
    obtain ⟨createdAt, hc, hcsame⟩ := Stamp.read h
    obtain ⟨risk, hr⟩ := exists_risk hportable
    have hread : (taskParams task).read = .ok ⟨task.id, task.runId, task.objective, task.role, risk,
        task.scope.map ProjectPath.mk, task.state, task.dependencies, momentOf createdAt⟩ := by
      simp [TaskColumns.read, TaskRow.read, taskParams, hc, hr, bind, Except.bind, pure, Except.pure,
        Function.comp_def]
    refine ⟨_, hread, rfl, rfl, rfl, rfl, hr.symm, ?_, rfl, rfl, hcsame⟩
    simp [Function.comp_def]

theorem attempt_opens {attempt : Attempt} (h : Stored.Written (.attempt attempt)) :
    Stored.Opens (.attempt attempt) := by
  obtain ⟨hcreated, hstarted, hcompleted⟩ := h
  obtain ⟨createdAt, hc, hcsame⟩ := hcreated.read
  obtain ⟨startedAt, hs, hssame⟩ := Stamp.read_option hstarted
  obtain ⟨completedAt, hd, hdsame⟩ := Stamp.read_option hcompleted
  have hread : (attemptParams attempt).read = .ok ⟨attempt.id, attempt.taskId, attempt.runId, attempt.runner,
      attempt.modelProvider, attempt.modelId, attempt.state, momentOf createdAt, startedAt.map momentOf,
      completedAt.map momentOf, attempt.errorMsg⟩ := by
    simp [AttemptColumns.read, AttemptRow.read, attemptParams, hc, hs, hd, bind, Except.bind, pure, Except.pure]
  exact ⟨_, hread, rfl, rfl, rfl, rfl, rfl, rfl, rfl, hcsame, hssame, hdsame, rfl⟩

theorem event_opens_iff {event : DomainEvent} (h : Stored.Written (.event event)) :
    Stored.Opens (.event event) ↔ Stored.Portable (.event event) := by
  obtain ⟨hstamp, members, hmembers⟩ := h
  obtain ⟨ticks, ht, htsame⟩ := hstamp.read
  constructor
  · rintro ⟨opened, hread, _⟩
    simp only [EventColumns.read, eventParams, ht, ofText_text, bind, Except.bind] at hread
    split at hread
    · cases hread
    · next node hnode => exact (parseNode_eq_ok hnode).1
  · intro hportable
    have hread : (eventParams event).read = .ok ⟨event.id, momentOf ticks, event.type, event.projectId,
        event.runId, asObject event.payload⟩ := by
      simp [EventColumns.read, eventParams, ht, parseNode_of_isStandard hportable, bind, Except.bind, pure,
        Except.pure, Function.comp_def]
    refine ⟨_, hread, rfl, htsame, rfl, rfl, rfl, ?_⟩
    rw [hmembers]
    rfl

theorem evidence_opens {evidence : EvidenceItem} (h : Stored.Written (.evidence evidence)) :
    Stored.Opens (.evidence evidence) := by
  obtain ⟨ticks, ht, htsame⟩ := Stamp.read h
  obtain ⟨verdict, hv⟩ := exists_verdict evidence.verdict
  have hread : (evidenceParams evidence).read = .ok ⟨⟨evidence.id⟩, evidence.gate, evidence.kind, verdict,
      evidence.uri, evidence.taskId, momentOf ticks⟩ := by
    simp [EvidenceColumns.read, evidenceParams, ht, hv, bind, Except.bind, pure, Except.pure, Function.comp_def]
  exact ⟨_, hread, rfl, rfl, rfl, rfl, hv.symm, rfl, htsame⟩

/-! ### Plans -/

theorem isStandard_dump (task : PlanTaskModel) : task.dump.isStandard = true := by
  simp [PlanTaskModel.dump, Json.isStandard, Json.standardMembers, isStandard_json]

theorem isStandard_dumpTasks (plan : PlanModel) : plan.dumpTasks.isStandard = true := by
  have hitems : Json.standardItems (plan.tasks.map PlanTaskModel.dump) = true := by
    rw [Json.standardItems_eq_true]
    intro item hitem
    obtain ⟨task, _, rfl⟩ := List.mem_map.mp hitem
    exact isStandard_dump task
  simp [PlanModel.dumpTasks, Json.isStandard, Json.standardMembers, hitems]

/-- The document of the tasks is an object, in which the reader sees no task. -/
theorem deserializeTasks_dumpTasks (plan : PlanModel) : PlanRow.deserializeTasks plan.dumpTasks = .ok [] := rfl

/-- **Whatever plan was stored, the plan that is read has no tasks.** -/
theorem read_planParams {plan : PlanModel} {ticks : Nat} (h : instantOf plan.createdAt = .ok ticks) :
    (planParams plan).read = (ofText plan.autonomy).map fun autonomy =>
      ⟨plan.id, plan.projectId, ⟨plan.goalId⟩, plan.goalRevision, plan.state, autonomy, plan.runner,
        plan.integrationTarget, momentOf ticks, []⟩ := by
  simp only [PlanColumns.read, PlanRow.read, planParams, h, parseNode_of_isStandard (isStandard_dumpTasks plan),
    deserializeTasks_dumpTasks, ofText_text, bind, Except.bind, pure, Except.pure, Except.map]

theorem plan_opens_iff {plan : PlanModel} (h : Stored.Written (.plan plan)) :
    Stored.Opens (.plan plan) ↔ Stored.Portable (.plan plan) := by
  obtain ⟨ticks, ht, htsame⟩ := Stamp.read h
  constructor
  · rintro ⟨opened, hread, hsame⟩
    have htasks : opened.tasks = [] := by
      rw [read_planParams ht] at hread
      cases ha : (ofText plan.autonomy : Except Exn AutonomyLevel) with
      | error e => rw [ha] at hread; cases hread
      | ok autonomy => rw [ha] at hread; cases hread; rfl
    have hforall := hsame.tasks
    rw [htasks] at hforall
    refine ⟨?_, List.forall₂_nil_right_iff.mp hforall⟩
    rw [← hsame.autonomy]
    exact text_autonomy opened.autonomy
  · rintro ⟨hautonomy, htasks⟩
    obtain ⟨autonomy, ha⟩ := exists_autonomy hautonomy
    have hread := read_planParams ht
    rw [ha, ofText_text, Except.map] at hread
    refine ⟨_, hread, rfl, rfl, rfl, rfl, rfl, ha.symm, rfl, rfl, htsame, ?_⟩
    rw [htasks]
    exact .nil

theorem exists_morning : Moments.Exists 2026 8 11 9 15 0 := by decide

/-- 2026-08-11, a quarter past nine. -/
def morning : Moments.DateTime := ⟨2026, 8, 11, 9, 15, 0, 0, exists_morning, Nat.zero_lt_succ _⟩

/-- A plan of one task, as the routes draw one from a goal. -/
def drawnPlan : PlanModel where
  id := ⟨"plan-1"⟩
  projectId := "atlas-flow"
  goalId := "goal-1"
  goalRevision := "goal-1"
  state := .locked
  createdAt := morning.isoformat
  tasks := [{ id := "goal-1-t1", objective := "It opens.", gates := ["build"] }]

/-- A policy of the autonomy that C# has not. -/
def controlledRun : Run where
  id := ⟨"run-1"⟩
  projectId := "atlas-flow"
  goalId := "goal-1"
  goalRevision := "goal-1"
  autonomy := "controlled"
  createdAt := morning.isoformat

end AtlasFlow.Reference
