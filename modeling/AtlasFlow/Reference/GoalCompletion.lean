import AtlasFlow.Reference.Gates

/-!
# The rule that a goal is done only with evidence

`verification/goal_completion.py`, and the route that shows a goal's gates. `checkCompletion` and the
coordinator judge the same evidence, each in its own way: both are compared with `verdictOf`, which says
what evidence means for a gate.
-/

namespace AtlasFlow.Reference

open SqlValues (text)

/-! ## Completion -/

structure CompletionCheck where
  goalId : String
  missing : List GateKind := []
  failed : List GateKind := []
  deriving DecidableEq, Repr

namespace CompletionCheck

def completable (check : CompletionCheck) : Bool := check.missing = [] && check.failed = []

/-- `", ".join(sorted(gates))`. -/
def sortedText (gates : List GateKind) : String :=
  ", ".intercalate ((gates.map text).mergeSort fun a b => decide (a ≤ b))

def describe (check : CompletionCheck) : String :=
  let missing := if check.missing = [] then []
    else ["no passing evidence for required gate(s): " ++ sortedText check.missing]
  let failed := if check.failed = [] then [] else ["failing evidence on gate(s): " ++ sortedText check.failed]
  match missing ++ failed with
  | [] => s!"{check.goalId}: ok"
  | parts =>
    let reasons := "; ".intercalate parts
    s!"{check.goalId}: {reasons}"

/-- The branches of both loops: a gate whose evidence fails, one that is not covered, one that is. -/
def judge (check : CompletionCheck) (gate : GateKind) (failing passing : Bool) : CompletionCheck :=
  if failing then { check with failed := check.failed ++ [gate] }
  else if !passing then { check with missing := check.missing ++ [gate] }
  else check

end CompletionCheck

/-- `check_completion`. -/
def checkCompletion (goal : Goal) (evidence : List EvidenceItem) : CompletionCheck :=
  let relevant := evidence.filter fun e => e.goalId = goal.id
  (requiredGates goal).foldl (fun check gate =>
    let forGate := relevant.filter fun e => e.gate = gate
    check.judge gate (forGate.any fun e => e.verdict = .failed) (forGate.any fun e => e.verdict = .passed))
    { goalId := goal.id }

/-! ## The route -/

/-- What the routes read of the open project: whether it can plan and, if not, why; and its goals. -/
structure Project where
  canPlan : Bool
  mode : String
  reason : String
  recommendation : String
  goals : Except PyExn (List Goal)

inductive RouteError where
  | http (status : Nat) (detail : String)
  | raised (exn : PyExn)
  deriving DecidableEq, Repr

/-- An exception that a route does not catch. -/
def orRaise {α : Type} (result : Except PyExn α) : Except RouteError α := result.mapError .raised

/-- `_goals`: of two goals with one id the last is served. -/
def Project.goalsById (project : Project) : Except RouteError (Dict String Goal) := do
  if !project.canPlan then
    throw (.http 409
      s!"Project is {project.mode}; can_plan is unavailable. {project.reason} {project.recommendation}")
  let goals ← orRaise project.goals
  return Dict.ofItems (goals.map fun goal => (goal.id, goal))

structure GateView where
  gate : String
  requirement : String
  verdict : String
  evidenceIds : List String := []
  details : String := ""
  deriving DecidableEq, Repr

structure EvidenceView where
  id : String
  gate : String
  kind : String
  verdict : String
  uri : String
  taskId : Option TaskId
  attachedAt : String
  deriving DecidableEq, Repr

def EvidenceView.of (evidence : EvidenceItem) : EvidenceView :=
  ⟨evidence.id, text evidence.gate, evidence.kind, text evidence.verdict, evidence.uri, evidence.taskId,
    evidence.attachedAt⟩

structure GoalVerification where
  goalId : String
  gates : List GateView := []
  evidence : List EvidenceView := []
  completable : Bool := false
  blocking : String := ""
  deriving DecidableEq, Repr

/-- One turn of the loop over `declared.items()`. -/
def gateView (coordinator : GateCoordinator) (name requirement : String) : Except PyExn GateView := do
  let gate ← member name
  let result := coordinator.evaluateGate gate
  return ⟨name, requirement, text result.verdict, result.evidenceIds, result.details⟩

/-- `get_goal_verification`. -/
def getGoalVerification (project : Project) (table : EvidenceTable) (goalId : String) :
    Except RouteError GoalVerification := do
  let goals ← project.goalsById
  match goals.get? goalId with
  | none => throw (.http 404 s!"Unknown Goal: {goalId}")
  | some goal =>
    let (evidence, coordinator) ← orRaise (({} : GateCoordinator).loadEvidence table goalId)
    let gates ← orRaise (goal.gates.modelDump.mapM fun (name, requirement) => gateView coordinator name requirement)
    let check := checkCompletion goal evidence
    return {
      goalId := goalId
      gates := gates
      evidence := evidence.map EvidenceView.of
      completable := check.completable
      blocking := if check.completable then "" else check.describe }

/-! ## What evidence means for a gate -/

/-- Some item of evidence gives the gate this verdict. -/
def Says (evidence : List EvidenceItem) (gate : GateKind) (verdict : GateVerdict) : Prop :=
  ∃ e ∈ evidence, e.gate = gate ∧ e.verdict = verdict

instance (evidence : List EvidenceItem) (gate : GateKind) (verdict : GateVerdict) :
    Decidable (Says evidence gate verdict) :=
  inferInstanceAs (Decidable (∃ e ∈ evidence, e.gate = gate ∧ e.verdict = verdict))

/-- One failed item outweighs any number of passed ones; without either, the gate is pending. -/
def verdictOf (evidence : List EvidenceItem) (gate : GateKind) : GateVerdict :=
  if Says evidence gate .failed then .failed
  else if Says evidence gate .passed then .passed
  else .pending

section Says

variable (evidence : List EvidenceItem) (gate : GateKind) (verdict : GateVerdict)

/-- How the coordinator asks. -/
theorem filter_filter_eq_nil : ((evidence.filter fun e => e.gate = gate).filter fun e => e.verdict = verdict) = [] ↔
    ¬ Says evidence gate verdict := by
  simp only [Says, List.filter_filter, List.filter_eq_nil_iff, Bool.and_eq_true, decide_eq_true_eq, not_exists,
    not_and]
  exact forall₂_congr fun e _ => ⟨fun h hgate hverdict => h hverdict hgate, fun h hverdict hgate => h hgate hverdict⟩

/-- How `check_completion` asks. -/
theorem any_filter_eq : ((evidence.filter fun e => e.gate = gate).any fun e => e.verdict = verdict) =
    decide (Says evidence gate verdict) := by
  rw [Bool.eq_iff_iff, decide_eq_true_iff]
  simp only [Says, List.any_filter, List.any_eq_true, Bool.and_eq_true, decide_eq_true_eq]

end Says

@[simp] theorem GateCoordinator.evaluateGate_verdict (coordinator : GateCoordinator) (gate : GateKind) :
    (coordinator.evaluateGate gate).verdict = verdictOf coordinator.evidence.values gate := by
  unfold evaluateGate verdictOf
  simp only [ne_eq, filter_filter_eq_nil, not_not]
  by_cases hfailed : Says coordinator.evidence.values gate .failed
  · rw [if_pos hfailed, if_pos hfailed]
  · by_cases hpassed : Says coordinator.evidence.values gate .passed
    · rw [if_neg hfailed, if_neg hfailed, if_neg (not_not.mpr hpassed), if_pos hpassed]
    · rw [if_neg hfailed, if_neg hfailed, if_pos hpassed, if_neg hpassed]

/-! ### The loop over the required gates -/

namespace CompletionCheck

/-- A loop that judges gate after gate sorts them by what is said of each. -/
theorem foldl_judge (failing passing : GateKind → Bool) (gates : List GateKind) (check : CompletionCheck) :
    gates.foldl (fun check gate => check.judge gate (failing gate) (passing gate)) check =
      { check with
        failed := check.failed ++ gates.filter failing
        missing := check.missing ++ gates.filter fun gate => !failing gate && !passing gate } := by
  induction gates generalizing check with
  | nil => simp
  | cons gate gates ih =>
      rw [List.foldl_cons, ih, judge]
      cases hfailing : failing gate <;> cases hpassing : passing gate <;> simp [hfailing, hpassing]

end CompletionCheck

/-- `check_completion` sorts the required gates by what the goal's evidence means for them. -/
theorem checkCompletion_eq (goal : Goal) (evidence : List EvidenceItem) :
    let verdict := verdictOf (evidence.filter fun e => e.goalId = goal.id)
    checkCompletion goal evidence = {
      goalId := goal.id
      failed := (requiredGates goal).filter fun gate => verdict gate = .failed
      missing := (requiredGates goal).filter fun gate => verdict gate = .pending } := by
  intro verdict
  have hfailed : ∀ gate, decide (Says (evidence.filter fun e => e.goalId = goal.id) gate .failed) =
      decide (verdict gate = .failed) := by
    grind [verdictOf]
  have hpending : ∀ gate, (!decide (verdict gate = .failed) &&
      !decide (Says (evidence.filter fun e => e.goalId = goal.id) gate .passed)) =
        decide (verdict gate = .pending) := by
    grind [verdictOf]
  unfold checkCompletion
  simp only [any_filter_eq, CompletionCheck.foldl_judge, hfailed, hpending, List.nil_append]

theorem completable_iff {goal : Goal} {evidence : List EvidenceItem} :
    (checkCompletion goal evidence).completable = true ↔
      ∀ gate ∈ requiredGates goal, verdictOf (evidence.filter fun e => e.goalId = goal.id) gate = .passed := by
  rw [checkCompletion_eq, CompletionCheck.completable]
  simp only [Bool.and_eq_true, decide_eq_true_eq, List.filter_eq_nil_iff, ← forall₂_and]
  refine forall₂_congr fun gate _ => ?_
  cases verdictOf (evidence.filter fun e => e.goalId = goal.id) gate <;> simp

/-! ### The coordinator over the required gates -/

theorem mem_requiredGates {goal : Goal} {gate : GateKind} :
    gate ∈ requiredGates goal ↔ (gate, "required") ∈ goal.gates.items := by
  simp [requiredGates]

theorem requiredGates_nodup (goal : Goal) : (requiredGates goal).Nodup := by
  have hkinds : (goal.gates.items.map Prod.fst).Nodup := by
    simp [GoalGates.items]
  exact hkinds.sublist (List.filter_sublist.map Prod.fst)

namespace GateCoordinator

variable (coordinator : GateCoordinator)

/-- The loop over the gates, from any results. -/
theorem foldlM_evaluate (items : List (GateKind × String)) (results : Dict GateKind GateResult) :
    (items.map fun item => (text item.1, item.2)).foldlM (fun results (gateStr, requirement) => do
      if requirement ≠ "required" then return results
      let gate ← member gateStr
      return results.set gate (coordinator.evaluateGate gate)) results =
    (.ok ((((items.filter fun item => item.2 = "required").map Prod.fst).map fun gate =>
      (gate, coordinator.evaluateGate gate)).foldl (fun d item => d.set item.1 item.2) results) :
      Except PyExn (Dict GateKind GateResult)) := by
  induction items generalizing results with
  | nil => rfl
  | cons item items ih =>
      rw [List.map_cons, List.foldlM_cons]
      by_cases hrequired : item.2 = "required"
      · simp only [hrequired, ne_eq, not_true_eq_false, if_false, member_text, decide_true, List.filter_cons_of_pos,
          List.map_cons, List.foldl_cons]
        exact ih (results.set item.1 (coordinator.evaluateGate item.1))
      · simp only [hrequired, ne_eq, not_false_eq_true, if_true, decide_false, Bool.false_eq_true,
          List.filter_cons_of_neg]
        exact ih results

/-- Of a goal's gates the required ones are evaluated, each once. -/
theorem evaluateAll_modelDump (goal : Goal) : coordinator.evaluateAll goal.gates.modelDump =
    .ok ((requiredGates goal).map fun gate => (gate, coordinator.evaluateGate gate)) := by
  have hkeys : ((requiredGates goal).map fun gate => (gate, coordinator.evaluateGate gate)).map Prod.fst =
      requiredGates goal := by
    rw [List.map_map]
    exact List.map_id (requiredGates goal)
  have hitems := Dict.ofItems_of_nodup (hkeys ▸ requiredGates_nodup goal)
  rw [evaluateAll, GoalGates.modelDump, foldlM_evaluate]
  exact congrArg Except.ok hitems

theorem pendingGates_modelDump (goal : Goal) : coordinator.pendingGates goal.gates.modelDump =
    .ok ((requiredGates goal).filter fun gate => verdictOf coordinator.evidence.values gate ≠ .passed) := by
  rw [pendingGates, evaluateAll_modelDump]
  refine congrArg Except.ok ?_
  induction requiredGates goal with
  | nil => rfl
  | cons gate gates ih =>
      simp only [Dict.keys, List.map_cons, List.filter_cons, evaluateGate_verdict] at ih ⊢
      split
      · rw [List.map_cons, ih]
      · exact ih

/-- Without a required gate the coordinator says no. -/
theorem allPassed_modelDump (goal : Goal) : coordinator.allPassed goal.gates.modelDump =
    .ok (requiredGates goal ≠ [] &&
      (requiredGates goal).all fun gate => verdictOf coordinator.evidence.values gate = .passed) := by
  rw [allPassed, evaluateAll_modelDump]
  cases hgates : requiredGates goal with
  | nil => rfl
  | cons gate gates =>
      refine congrArg Except.ok ?_
      simp only [Dict.values, List.all_map, Function.comp_def, evaluateGate_verdict]
      rfl

end GateCoordinator

/-! ### Both paths -/

section Loaded

variable {table : EvidenceTable} {goal : Goal} {evidence : List EvidenceItem} {coordinator : GateCoordinator}

/-- What a goal's coordinator holds is all that `check_completion` looks at. -/
theorem relevant_of_loadEvidence
    (h : ({} : GateCoordinator).loadEvidence table goal.id = .ok (evidence, coordinator)) :
    (evidence.filter fun e => e.goalId = goal.id) = evidence ∧ coordinator.evidence.values = evidence := by
  obtain ⟨hload, hvalues⟩ := GateCoordinator.values_of_loadEvidence h
  refine ⟨?_, hvalues⟩
  rw [List.filter_eq_self]
  intro e he
  exact decide_eq_true ((EvidenceTable.loadEvidence_spec hload).2 e he)

theorem mapM_gateView (items : List (GateKind × String)) (coordinator : GateCoordinator) :
    (items.map fun item => (text item.1, item.2)).mapM (fun (name, requirement) =>
      gateView coordinator name requirement) = .ok (items.map fun item =>
        let result := coordinator.evaluateGate item.1
        ⟨text item.1, item.2, text result.verdict, result.evidenceIds, result.details⟩) := by
  rw [List.mapM_map]
  refine Attempts.mapM_ok fun item _ => ?_
  change gateView coordinator (text item.1) item.2 = _
  rw [gateView, member_text]
  rfl

/-- The route answers with both verdicts on the same evidence. -/
theorem getGoalVerification_eq {project : Project} {goals : Dict String Goal}
    (hgoals : project.goalsById = .ok goals) (hgoal : goals.get? goal.id = some goal)
    (h : ({} : GateCoordinator).loadEvidence table goal.id = .ok (evidence, coordinator)) :
    getGoalVerification project table goal.id = .ok {
      goalId := goal.id
      gates := goal.gates.items.map fun item =>
        let result := coordinator.evaluateGate item.1
        ⟨text item.1, item.2, text result.verdict, result.evidenceIds, result.details⟩
      evidence := evidence.map EvidenceView.of
      completable := (checkCompletion goal evidence).completable
      blocking := if (checkCompletion goal evidence).completable then "" else
        (checkCompletion goal evidence).describe } := by
  unfold getGoalVerification
  simp only [hgoals, bind, Except.bind, hgoal, h, orRaise, Except.mapError, GoalGates.modelDump, mapM_gateView]
  rfl

/-- The verdicts of `evaluate_gate`, those of `check_completion` and what the route shows are one judgement of
the goal's evidence. Only a goal without a required gate is completable while `all_passed` says no. -/
theorem gate_paths_agree (h : ({} : GateCoordinator).loadEvidence table goal.id = .ok (evidence, coordinator)) :
    let check := checkCompletion goal evidence
    (∀ gate ∈ requiredGates goal,
      ((coordinator.evaluateGate gate).verdict = .failed ↔ gate ∈ check.failed) ∧
      ((coordinator.evaluateGate gate).verdict = .pending ↔ gate ∈ check.missing) ∧
      ((coordinator.evaluateGate gate).verdict = .passed ↔ gate ∉ check.failed ∧ gate ∉ check.missing)) ∧
    (check.completable = true ↔ coordinator.pendingGates goal.gates.modelDump = .ok []) ∧
    (requiredGates goal ≠ [] → coordinator.allPassed goal.gates.modelDump = .ok check.completable) ∧
    ∀ (project : Project) (goals : Dict String Goal), project.goalsById = .ok goals →
      goals.get? goal.id = some goal → ∃ view, getGoalVerification project table goal.id = .ok view ∧
        view.completable = check.completable ∧
        (∀ gate requirement, (gate, requirement) ∈ goal.gates.items → ∃ shown ∈ view.gates,
          shown.gate = text gate ∧ shown.requirement = requirement ∧
          shown.verdict = text (coordinator.evaluateGate gate).verdict) ∧
        (view.completable = true ↔
          ∀ shown ∈ view.gates, shown.requirement = "required" → shown.verdict = "PASSED") := by
  obtain ⟨hrelevant, hvalues⟩ := relevant_of_loadEvidence h
  have hcompletable : (checkCompletion goal evidence).completable = true ↔
      ∀ gate ∈ requiredGates goal, verdictOf evidence gate = .passed := by
    rw [completable_iff, hrelevant]
  refine ⟨fun gate hgate => ?_, ?_, fun hrequired => ?_, fun project goals hgoals hgoal => ?_⟩
  · simp only [checkCompletion_eq, hrelevant, GateCoordinator.evaluateGate_verdict, hvalues, List.mem_filter, hgate,
      true_and, decide_eq_true_eq]
    cases verdictOf evidence gate <;> simp
  · rw [hcompletable, GateCoordinator.pendingGates_modelDump, hvalues]
    simp
  · rw [GateCoordinator.allPassed_modelDump, hvalues, decide_eq_true hrequired, Bool.true_and, Except.ok.injEq,
      Bool.eq_iff_iff, hcompletable]
    simp
  · refine ⟨_, getGoalVerification_eq hgoals hgoal h, rfl, fun gate requirement hitem => ?_, ?_⟩
    · exact ⟨_, List.mem_map_of_mem hitem, rfl, rfl, rfl⟩
    · refine hcompletable.trans ?_
      rw [List.forall_mem_map]
      simp only [GateCoordinator.evaluateGate_verdict, hvalues]
      constructor
      · intro hpassed item hitem hrequired
        rw [hpassed item.1 (mem_requiredGates.mpr (hrequired ▸ hitem))]
        rfl
      · intro hshown gate hgate
        exact SqlValues.text_injective (hshown (gate, "required") (mem_requiredGates.mp hgate) rfl)

end Loaded

/-! ### One gate of each kind -/

def mixedGoal : Goal where
  id := "G1"
  gates := ⟨"required", "required", "required", "optional"⟩

def mixedEvidence : List EvidenceItem :=
  [{ id := "ev-1", goalId := "G1", gate := .build, kind := "ci_log", verdict := .passed, uri := "", runId := none,
      attachedAt := "2026-01-01" },
    { id := "ev-2", goalId := "G1", gate := .tests, kind := "ci_log", verdict := .failed, uri := "", runId := none,
      attachedAt := "2026-01-02" }]

def mixedTable : EvidenceTable :=
  mixedEvidence.foldl EvidenceTable.saveEvidence ⟨[], List.nodup_nil⟩

theorem load_mixed : ({} : GateCoordinator).loadEvidence mixedTable "G1" =
    .ok (mixedEvidence, ⟨mixedEvidence.map fun e => (e.id, e)⟩) := by
  have hselect : mixedTable.select "G1" = mixedEvidence.map EvidenceItem.row := by
    -- the rows are in the order of their moments already
    rw [EvidenceTable.select, List.mergeSort_of_pairwise (by decide +kernel)]
    decide +kernel
  rw [GateCoordinator.loadEvidence, EvidenceTable.loadEvidence, hselect]
  rfl

theorem gate_paths_agree_mixed :
    ((⟨mixedEvidence.map fun e => (e.id, e)⟩ : GateCoordinator).evaluateGate .tests).verdict = .failed ∧
      (checkCompletion mixedGoal mixedEvidence).failed = [.tests] ∧
      (checkCompletion mixedGoal mixedEvidence).missing = [.review] := by
  have hload : ({} : GateCoordinator).loadEvidence mixedTable mixedGoal.id =
      .ok (mixedEvidence, ⟨mixedEvidence.map fun e => (e.id, e)⟩) := load_mixed
  refine ⟨((gate_paths_agree hload).1 .tests (by decide)).1.mpr (by decide), by decide, by decide⟩

end AtlasFlow.Reference
