import AtlasFlow.Reference.Execution

/-!
# A coroutine's share of the world

Everything a coroutine of `gather` reads or changes of the run is about its own task, except the
budget, whose answers it does not choose. So `_run_task` is verified alone, on its `Share`, and the
world enters only through `act`: which answers a call may get, and what it does to the share. `keeps`
is what a call must respect so that the other coroutines' shares, and what is promised of the whole
run, are left alone.
-/

namespace AtlasFlow.Reference

open Concurrency

/-- The stored state of the task, the attempt at it that is not closed, the model the runner's task
in flight was started with, what has happened to it, the evidence that names it, and whether its
coroutine has learnt of a request to stop the run. -/
@[ext] structure Share where
  state : TaskState := .planned
  opened : Option AttemptId := none
  model : Option String := none
  marks : Marks := {}
  evidence : List Evidence := []
  asked : Bool := false

/-- The stored row of a task. -/
def Share.row (s : Share) (t : Task) : Task := { t with state := s.state }

/-- A call to the outside was answered. -/
def Share.outside {α : Type} (r : Except PyExn α) (s : Share) : Share :=
  match r with
  | .ok _ => s
  | .error _ => { s with marks := { s.marks with raised := true } }

/-! ## Reviewed, then merged -/

/-- The provider of a model, as far as the roster knows it. -/
def providerOf (model : String) : String :=
  ((ModelRouter.roster.find? fun m => m.commandCodeId = model).map ModelEntry.provider).getD ""

namespace Marks

/-- The first attempt that succeeded: the implementation. -/
def implementation (m : Marks) : Option Heard := m.heard.find? Heard.succeeded

/-- Something went wrong: an attempt that did not succeed, or a branch that was not merged. -/
def troubled (m : Marks) : Bool := (m.heard.any fun h => !h.succeeded) || m.integrations.contains false

end Marks

namespace Evidence

/-- Evidence of a cross-provider review. -/
def isReview (e : Evidence) (verdict : GateVerdict) : Bool :=
  e.gate = .review && e.kind = "review_comment" && e.verdict = verdict

/-- Evidence that a task was built. -/
def isBuild (e : Evidence) : Bool := e.gate = .build && e.verdict = .passed

end Evidence

/-- What is promised of a task at every moment: no branch is merged before an attempt succeeded, nor, for
a high-risk task, after a review that did not; and a review is recorded as passed only if a reviewer of
another provider than the implementation's succeeded. -/
structure Proper (node : TaskNode) (m : Marks) (evidence : List Evidence) : Prop where
  merged : m.integrations ≠ [] → m.implemented = true ∧
    (isHighRisk node = true → ∀ h ∈ m.reviews, h.succeeded = true)
  reviewed : ∀ e ∈ evidence, e.isReview .passed = true → ∃ impl reviewer,
    m.implementation = some impl ∧ reviewer ∈ ModelRouter.roster ∧
      reviewer.provider ≠ providerOf impl.model ∧
        ∃ h ∈ m.reviews, h.model = reviewer.commandCodeId ∧ h.succeeded = true

/-! ## What the calls do to a share -/

/-- The answers a call may get from the world, and what it does to the share of `t`'s coroutine. -/
def act (t : Task) : (o : Op) → Share → Ret o → Option Share
  | .loadTasks runId, s, r =>
    if runId = t.runId ∧ (r.find? fun row => row.id = t.id) ≠ some (s.row t) then none else some s
  | .saveAttempt attempt, s, _ => some { s with opened := some attempt.id }
  | .commitAttempt attempt _, s, _ =>
    some { s with
      opened := if attempt.state.isTerminal then none else some attempt.id
      marks := if attempt.state = .starting then { s.marks with reserved := false } else s.marks }
  | .commitTask task _, s, _ => some { s with state := task.state }
  | .saveEvidence evidence, s, _ => some { s with evidence := s.evidence ++ [evidence] }
  | .reserveAttempt, s, .ok () => some { s with marks := { s.marks with reserved := true } }
  | .reserveAttempt, s, .error _ =>
    some { s with marks := { s.marks with refused := s.marks.refused || s.marks.heard.isEmpty } }
  | .isRequested runId _, s, r =>
    if runId = t.runId then
      if s.asked && !r then none else some { s with asked := r }
    else some s
  | .resolve _, s, r => some (s.outside (if r then .ok () else .error .cancelledError : Except PyExn Unit))
  | .startRunner _ _ config, s, _ => some { s with model := some config.model }
  | .awaitRunner taskId, s, r =>
    if taskId = t.id then
      s.model.map fun model =>
        { s with
          model := none
          marks := { s.marks with heard := s.marks.heard ++ [⟨model, r⟩] }
          asked := s.asked || (⟨model, r⟩ : Heard).cancelled }
    else some s
  | .createWorktree .., s, r => if raises r then some (s.outside r) else none
  | .commitAll .., s, r => if raises r then some (s.outside r) else none
  | .integrate .., s, r =>
    if raises r then
      some { s.outside r with
        marks := { (s.outside r).marks with integrations := s.marks.integrations ++ [merged r] } }
    else none
  | _, s, _ => some s

/-- What a call of `t`'s coroutine must respect. -/
def keeps (t : Task) (node : TaskNode) : (o : Op) → Share → Ret o → Share → Prop
  | .saveAttempt attempt, s, _, _ => s.opened = none ∧ attempt.taskId = t.id
  | .commitAttempt attempt _, s, _, _ =>
    s.opened = some attempt.id ∧ attempt.taskId = t.id ∧
      (attempt.state = .starting → s.marks.reserved = true)
  | .commitTask task _, s, _, s' => s.state ≠ .succeeded ∧ task = s'.row t
  | .saveEvidence evidence, _, _, s' => evidence.taskId = some t.id ∧ Proper node s'.marks s'.evidence
  | .integrate .., _, _, s' => Proper node s'.marks s'.evidence
  | .startRunner taskId .., _, _, _ => taskId = t.id
  | .awaitRunner taskId, _, _, s' => taskId = t.id ∧ Proper node s'.marks s'.evidence
  | .loadTasks runId, _, _, _ => runId = t.runId
  | .isRequested runId poll, _, _, _ => runId = t.runId ∧ poll ≠ .afterLoop
  | .publish _, _, _, _ | .recordDecision .., _, _, _ | .recordObservation .., _, _, _
  | .newEvent, _, _, _ | .newAttempt, _, _, _ | .now, _, _, _ | .cancelRunner _, _, _, _
  | .recordUsage _, _, _, _ | .reason _, _, _, _ | .reserveAttempt, _, _, _ | .resolve _, _, _, _
  | .createWorktree .., _, _, _ | .commitAll .., _, _, _ => True
  | _, _, _, _ => False

/-- The contract `t`'s coroutine is verified against. -/
abbrev Share.contract (t : Task) (node : TaskNode) : Contract Op Ret Share :=
  alone (act t) (keeps t node)

end AtlasFlow.Reference
