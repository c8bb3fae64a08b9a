import AtlasFlow.Concurrency.Monitor
import AtlasFlow.Reference.Transitions

/-!
# From a goal to a run of it

`create_plan`, `lock_plan` and `create_run` of `api/routes.py`, statement by statement over the connection of
`Persistence`, among any other coroutines that use it. A call is an `await`, or a look at what is outside: the files of
the project, and what the default factories of a `PlanRecord` generate.

Whatever is interleaved, the plan of a run is the one that was drawn from the goal when it was created, and it was
locked before (`launch_approved`). That every statement of `save_plan` looks at a row that may be old by then does not
matter: all that is ever written under an id is the plan that was created, in one state or another.
-/

namespace AtlasFlow.Reference.PlanRoutes

open Concurrency
open Connection (Query Row)
open SqlValues (text)

/-! ## Requests and answers -/

structure CreatePlanRequest where
  autonomy : String := "agentic"
  runner : String := "dummy"
  integrationTarget : String := "main"
  deriving DecidableEq, Repr

structure CreateRunRequest where
  goalId : String
  runner : String := "dummy"
  integrationTarget : String := "main"
  planId : Option PlanId := none
  deriving DecidableEq, Repr

/-- A request, or anything else that uses the connection. Nobody else writes plans. -/
inductive Request where
  | createPlan (goalId : String) (body : CreatePlanRequest)
  | lockPlan (planId : PlanId)
  | createRun (body : CreateRunRequest)
  | other (method : Connection.Method) (spares : ∀ plan, Row.plan plan ∉ method.rows)

structure HTTPException where
  statusCode : Nat
  detail : String
  deriving DecidableEq, Repr

inductive Answer where
  | plan (record : PlanRecord)
  | run (run : Run)
  | refused (exc : HTTPException)
  | done

/-- What the application is set up with; `harness.runners()` is sorted. -/
structure App where
  projectId : String
  runners : List String

/-! ## Calls -/

/-- The arguments of `runner.execute`. -/
structure Launch where
  plan : Plan
  goalRevision : String
  runnerName : String
  integrationTarget : String
  deriving DecidableEq, Repr

inductive Await where
  /-- `inspect_project`, asked for a capability -/
  | inspect (capability : String)
  /-- `resolve_project` -/
  | goals
  /-- the default factories of `id` and `created_at` -/
  | stamp
  | createTask (launch : Launch)
  | sleep

/-- `inspect` answers with the detail of the exception where the capability is missing. -/
abbrev Await.Ret : Await → Type
  | .inspect _ => Except PyExn (Option String)
  | .goals => Except PyExn (List Goal)
  | .stamp => PlanId × String
  | .createTask _ => Unit
  | .sleep => Except PyExn Unit

abbrev Op := Connection.Op ⊕ Await

abbrev Ret : Op → Type := Prog.RetSum Connection.Ret Await.Ret

abbrev Program (α : Type) := Prog Op Ret PyExn α

abbrev ask (a : Await) : Program a.Ret := .call (.inr a) .ret

abbrev onConnection {α : Type} (p : Connection.Program α) : Program α := Prog.inl p

/-! ## Routes -/

/-- `load_plan`. -/
def loadPlan (planId : PlanId) : Program (Option PlanRecord) := do
  match ← onConnection (Connection.load (.plan planId)) with
  | .plan record :: _ => return some record
  | _ => return none

def savePlan (record : PlanRecord) : Program Unit := onConnection (Connection.savePlan record)

/-- `_require_capability`. -/
def requireCapability (capability : String) (route : Program Answer) : Program Answer := do
  match ← Prog.ofExcept (← ask (.inspect capability)) with
  | none => route
  | some detail => return .refused ⟨409, detail⟩

/-- `{goal.id: goal ...}.get(goal_id)`. -/
def goalOf (goals : List Goal) (goalId : String) : Option Goal :=
  (Dict.ofItems (goals.map fun goal => (goal.id, goal))).get? goalId

/-- `_goals(request).get(goal_id)`, which must not be `None`. -/
def withGoal (goalId : String) (route : Goal → Program Answer) : Program Answer :=
  requireCapability "can_plan" do
    let goals ← Prog.ofExcept (← ask .goals)
    match goalOf goals goalId with
    | none => return .refused ⟨404, s!"Unknown Goal: {goalId}"⟩
    | some goal => route goal

/-- `load_plan`, which must not be `None`. -/
def withPlan (planId : PlanId) (route : PlanRecord → Program Answer) : Program Answer := do
  match ← loadPlan planId with
  | none => return .refused ⟨404, s!"Unknown plan: {planId.value}"⟩
  | some record => route record

/-- The record that `create_plan` makes of a goal. -/
def newRecord (app : App) (goal : Goal) (body : CreatePlanRequest) (stamp : PlanId × String) : PlanRecord where
  id := stamp.1
  projectId := app.projectId
  goalId := goal.id
  goalRevision := goal.id
  autonomy := body.autonomy
  runner := body.runner
  integrationTarget := body.integrationTarget
  createdAt := stamp.2
  tasks := (planForGoal goal).tasks.map PlanTask.of

def createPlan (app : App) (goalId : String) (body : CreatePlanRequest) : Program Answer :=
  requireCapability "can_plan" <| withGoal goalId fun goal =>
    if body.runner ∈ app.runners then do
      let stamp ← ask .stamp
      let record := newRecord app goal body stamp
      savePlan record
      return .plan record
    else return .refused ⟨400, s!"Unknown runner '{body.runner}'"⟩

def lockPlan (planId : PlanId) : Program Answer :=
  requireCapability "can_plan" <| withPlan planId fun plan =>
    if plan.state = .draft then do
      let locked := { plan with state := .locked }
      savePlan locked
      return .plan locked
    else return .refused ⟨409, s!"Plan {planId.value} is already {text plan.state}"⟩

/-- What `create_run` asks of the plan it is given. -/
def CreateRunRequest.accepts (body : CreateRunRequest) (goal : Goal) (record : PlanRecord) : Except HTTPException Unit :=
  if record.state ≠ .locked then .error ⟨409, s!"Plan {record.id.value} must be LOCKED before execution"⟩
  else if record.goalId ≠ goal.id ∨ record.goalRevision ≠ goal.id then
    .error ⟨409, "Plan does not match the current Goal revision"⟩
  else if body.runner ≠ record.runner ∨ body.integrationTarget ≠ record.integrationTarget then
    .error ⟨409, "Run settings do not match the locked plan"⟩
  else .ok ()

/-- A list of names, as an f-string shows it. -/
def shownNames (names : List String) : String := "[" ++ ", ".intercalate (names.map fun name => s!"'{name}'") ++ "]"

def unknownRunner (app : App) (name : String) : HTTPException :=
  ⟨400, s!"Unknown runner '{name}'. Available: {shownNames app.runners}"⟩

def runOf (goalId : String) : Row → Option Run
  | .run run => if run.goalId = goalId then some run else none
  | _ => none

/-- `for _ in range(polls)`. -/
def pollRuns (goalId : String) : Nat → Program Answer
  | 0 => return .refused ⟨504, "Run did not start in time"⟩
  | polls + 1 => do
    Prog.ofExcept (← ask .sleep)
    let rows ← onConnection (Connection.load .runs)
    match rows.filterMap (runOf goalId) with
    | run :: _ => return .run run
    | [] => pollRuns goalId polls

/-- The plan that was started is stored as consumed. -/
def consume : Option PlanRecord → Program Unit
  | some record => savePlan { record with state := .consumed }
  | none => return ()

/-- `create_run`, once its request is accepted. -/
def startRun (body : CreateRunRequest) (goal : Goal) (record : Option PlanRecord) : Program Answer := do
  let plan := (record.map PlanRecord.toPlan).getD (planForGoal goal)
  ask (.createTask ⟨plan, goal.id, body.runner, body.integrationTarget⟩)
  consume record
  pollRuns goal.id 50

/-- `create_run`, where the plan is known. -/
def resolveRunner (app : App) (body : CreateRunRequest) (goal : Goal) (record : Option PlanRecord) : Program Answer :=
  if body.runner ∈ app.runners then startRun body goal record
  else return .refused (unknownRunner app body.runner)

def createRun (app : App) (body : CreateRunRequest) : Program Answer :=
  requireCapability "can_run" <| withGoal body.goalId fun goal =>
    match body.planId with
    | none => resolveRunner app body goal none
    | some planId => withPlan planId fun record =>
      match body.accepts goal record with
      | .error exc => return .refused exc
      | .ok () => resolveRunner app body goal (some record)

def Request.program (app : App) : Request → Program Answer
  | .createPlan goalId body => PlanRoutes.createPlan app goalId body
  | .lockPlan planId => PlanRoutes.lockPlan planId
  | .createRun body => PlanRoutes.createRun app body
  | .other method _ => do
    onConnection (Connection.program method)
    return .done

/-! ## The application -/

/-- The connection, and the ids that were given to plans. -/
structure World extends Connection.World where
  given : List PlanId

/-- Generated ids do not repeat. -/
def exec (n : Nat) : (o : Op) → World → Ret o → Option World
  | .inl o, w, r => (Connection.exec n o w.toWorld r).map fun connection => { w with toWorld := connection }
  | .inr .stamp, w, r => if r.1 ∈ w.given then none else some { w with given := r.1 :: w.given }
  | .inr .sleep, w, r => if Connection.delivered r then some w else none
  | .inr _, w, _ => some w

/-- Any number of coroutines, each of which serves one request. -/
def application (app : App) (request : Nat → Request) : System Nat Op Ret PyExn Unit Answer World where
  exec := exec
  code n _ := ((request n).program app).bind fun answer => .ret (.inr answer)

/-- The application with the database that it opened. -/
abbrev start (app : App) (request : Nat → Request) (opened : Connection.Tables) :
    Conf Nat Op Ret PyExn Unit Answer World :=
  (application app request).init (fun _ => ()) ⟨{ opened }, opened.plans.map PlanRecord.id⟩

/-! ## What is promised -/

section Promises

variable (app : App) (request : Nat → Request) (opened : Connection.Tables) (ls : List (Label Nat Op Ret Unit))

/-- A request made the record of a goal that it had read. -/
def Drawn (record : PlanRecord) : Prop :=
  ∃ i goalId body goals goal stamp, request i = .createPlan goalId body ∧
    .call i (.inr .goals) (.ok goals) ∈ ls ∧ goalOf goals goalId = some goal ∧ .call i (.inr .stamp) stamp ∈ ls ∧
      record = newRecord app goal body stamp

/-- The record was made, or there before. -/
def Origin (record : PlanRecord) : Prop := record ∈ opened.plans ∨ Drawn app request ls record

/-- `lock_plan` was asked to lock the plan, and did; or the plan was no draft before. -/
def Approved (planId : PlanId) : Prop :=
  (∃ record ∈ opened.plans, record.id = planId ∧ record.state ≠ .draft) ∨
    ∃ i locked r, request i = .lockPlan planId ∧ .call i (.inl (.execute (.plan locked))) r ∈ ls ∧ r.done = true

/-- The record is one that was made, but for its state, and it is a draft as long as nobody locked it. -/
structure Known (record : PlanRecord) : Prop where
  origin : ∃ made, Origin app request opened ls made ∧ record = { made with state := record.state }
  approved : record.state ≠ .draft → Approved request opened ls record.id

/-- What is started for a request: a run of the locked plan that it names, with the settings of that plan, or of what
is drawn from the goal. -/
def Granted (i : Nat) (launch : Launch) : Prop :=
  ∃ body goals goal, request i = .createRun body ∧ .call i (.inr .goals) (.ok goals) ∈ ls ∧
    goalOf goals body.goalId = some goal ∧
      (body.planId = none → launch = ⟨planForGoal goal, goal.id, body.runner, body.integrationTarget⟩) ∧
        ∀ planId, body.planId = some planId → Approved request opened ls planId ∧
          ∃ made, Origin app request opened ls made ∧ made.id = planId ∧ made.goalId = goal.id ∧
            launch = ⟨made.toPlan, made.goalRevision, made.runner, made.integrationTarget⟩

end Promises

/-! ## What a coroutine has got -/

/-- What the connection answered. -/
def got : (o : Connection.Op) → Connection.Ret o → List (Query × Row)
  | .query query, answer => (answer.toOption.getD []).map fun row => (query, row)
  | .fetch query _, answer => (answer.toOption.getD []).map fun row => (query, row)
  | _, _ => []

structure Memory where
  goals : Option (List Goal) := none
  stamp : Option (PlanId × String) := none
  seen : List (Query × Row) := []

namespace Memory

def next : (o : Op) → Memory → Ret o → Memory
  | .inl o, v, r => { v with seen := v.seen ++ got o r }
  | .inr .goals, v, .ok goals => { v with goals := some goals }
  | .inr .stamp, v, stamp => { v with stamp := some stamp }
  | .inr _, v, _ => v

/-- The coroutine has loaded the plan. -/
def Holds (v : Memory) (planId : PlanId) (record : PlanRecord) : Prop := (.plan planId, .plan record) ∈ v.seen

/-- More has been read since. -/
structure Grown (v v' : Memory) : Prop where
  goals : v'.goals = v.goals
  stamp : v'.stamp = v.stamp
  seen : v.seen ⊆ v'.seen

theorem Grown.refl (v : Memory) : v.Grown v := ⟨rfl, rfl, fun _ h => h⟩

theorem Grown.trans {v v' v'' : Memory} (h : v.Grown v') (h' : v'.Grown v'') : v.Grown v'' :=
  ⟨h'.goals.trans h.goals, h'.stamp.trans h.stamp, fun _ hx => h'.seen (h.seen hx)⟩

theorem Grown.holds {v v' : Memory} (h : v.Grown v') {planId : PlanId} {record : PlanRecord} (hholds : v.Holds planId record) :
    v'.Holds planId record := h.seen hholds

end Memory

/-- What a request may write of a plan. -/
def Request.Writes (app : App) (v : Memory) : Request → PlanRecord → Prop
  | .createPlan goalId body, record => ∃ goals goal stamp, v.goals = some goals ∧ goalOf goals goalId = some goal ∧
      v.stamp = some stamp ∧ record = newRecord app goal body stamp
  | .lockPlan planId, record => ∃ plan, v.Holds planId plan ∧ record = { plan with state := .locked }
  | .createRun _, record => ∃ planId plan, v.Holds planId plan ∧ plan.state = .locked ∧
      record = { plan with state := .consumed }
  | .other .., _ => False

/-- What a request may start. -/
def Request.Starts (v : Memory) : Request → Launch → Prop
  | .createRun body, launch => ∃ goals goal, v.goals = some goals ∧ goalOf goals body.goalId = some goal ∧
      (body.planId = none → launch = ⟨planForGoal goal, goal.id, body.runner, body.integrationTarget⟩) ∧
        ∀ planId, body.planId = some planId → ∃ plan, v.Holds planId plan ∧ plan.state = .locked ∧ plan.goalId = goal.id ∧
          launch = ⟨plan.toPlan, plan.goalRevision, plan.runner, plan.integrationTarget⟩
  | _, _ => False

/-- A cursor is asked for the rows of its query, and goals and a stamp are asked for once. -/
def Request.monitor (app : App) (request : Request) : Monitor Op Ret Memory where
  next := Memory.next
  allows
    | .inl (.execute (.plan record)), v => request.Writes app v record
    | .inl (.fetch query cursor), v => ∀ row ∈ cursor, (query, row) ∈ v.seen
    | .inr .goals, v => v.goals = none
    | .inr .stamp, v => v.stamp = none
    | .inr (.createTask launch), v => request.Starts v launch
    | _, _ => True

/-! ## The texts of the routes -/

section Texts

variable {app : App} {request : Request} {v : Memory}

/-- The rest of a program keeps to the monitor of its request. -/
abbrev Safe {α : Type} (app : App) (request : Request) (p : Program α) (Q : α → Memory → Prop) (v : Memory) : Prop :=
  wp (request.monitor app).contract p Q (fun _ _ => True) v

theorem safe_load (query : Query) {Q : List Row → Memory → Prop}
    (hQ : ∀ rows v', v.Grown v' → (∀ row ∈ rows, (query, row) ∈ v'.seen) → Q rows v') :
    Safe app request (onConnection (Connection.load query)) Q v := by
  have hseen : ∀ (v : Memory) (rows : List Row),
      v.Grown { v with seen := v.seen ++ rows.map fun row => (query, row) } ∧
        ∀ row ∈ rows, (query, row) ∈ v.seen ++ rows.map fun row => (query, row) := by
    intro v rows
    exact ⟨⟨rfl, rfl, List.subset_append_left ..⟩,
      fun row hrow => List.mem_append_right _ (List.mem_map_of_mem hrow)⟩
  apply Monitor.wp_call trivial
  intro r
  cases r with
  | error exc => trivial
  | ok cursor =>
      obtain ⟨hgrown, hcursor⟩ := hseen v cursor
      apply Monitor.wp_call hcursor
      intro r
      cases r with
      | error exc => trivial
      | ok rows =>
          obtain ⟨hgrown', hrows⟩ := hseen _ rows
          exact hQ rows _ (hgrown.trans hgrown') hrows

/-- The calls of `Persistence` that neither read nor write a row. -/
def Plain : Connection.Op → Prop
  | .acquire | .release | .commit | .rollback | .publish _ => True
  | _ => False

section Calls

variable {ok : Connection.Op → Prop}

theorem calls_await {α : Type} {p : Connection.Program (Except PyExn α)} (h : p.Calls ok) :
    (Connection.await p).Calls ok := h.bind fun r => Prog.calls_ofExcept r

theorem calls_executeRow {row : Row} (hrow : ok (.execute row)) : (Connection.executeRow row).Calls ok :=
  ⟨hrow, fun r => Prog.calls_ofExcept r.outcome⟩

theorem calls_withLock (hplain : ∀ o, Plain o → ok o) {body : Connection.Program Unit} (hbody : body.Calls ok) :
    (Connection.withLock body).Calls ok := by
  have hrelease : (Connection.call .release).Calls ok := Prog.calls_op.mpr (hplain _ trivial)
  apply (calls_await (Prog.calls_op.mpr (hplain .acquire trivial))).bind
  intro _
  apply Prog.Calls.bind
  · apply hbody.handle
    intro exc
    exact hrelease.bind fun _ => Prog.calls_raise exc
  · intro result
    exact hrelease.bind fun _ => Prog.calls_ret result

theorem calls_execute (hplain : ∀ o, Plain o → ok o) {row : Row} (hrow : ok (.execute row)) :
    (Connection.execute row).Calls ok := by
  apply calls_withLock hplain
  exact (calls_executeRow hrow).bind fun _ => calls_await (Prog.calls_op.mpr (hplain .commit trivial))

theorem calls_transaction (hplain : ∀ o, Plain o → ok o) {rows : List Row} (hrows : ∀ row ∈ rows, ok (.execute row)) :
    (Connection.transaction rows).Calls ok := by
  apply calls_withLock hplain
  apply Prog.Calls.bind
  · apply Prog.Calls.handle
    · induction rows with
      | nil => trivial
      | cons row rows ih =>
          apply (calls_executeRow (hrows row List.mem_cons_self)).bind
          intro _
          exact ih fun row hrow => hrows row (List.mem_cons_of_mem _ hrow)
    · intro exc
      split
      · trivial
      · exact (calls_await (Prog.calls_op.mpr (hplain .rollback trivial))).bind fun _ => Prog.calls_raise exc
  · exact fun _ => calls_await (Prog.calls_op.mpr (hplain .commit trivial))

end Calls

/-- What neither reads nor writes a row, or writes what the request may write, leaves the memory as it is. -/
theorem spares_plain {o : Connection.Op} (h : Plain o) : (request.monitor app).Spares v (.inl o) := by
  have hmemory : ({ v with seen := v.seen ++ [] } : Memory) = v := by rw [List.append_nil]
  cases o with
  | acquire | release | commit | rollback | publish => exact ⟨trivial, fun _ => hmemory⟩
  | execute | query | fetch => cases h

theorem spares_execute {row : Row} (h : ∀ record, row = .plan record → request.Writes app v record) :
    (request.monitor app).Spares v (.inl (.execute row)) := by
  have hmemory : ({ v with seen := v.seen ++ [] } : Memory) = v := by rw [List.append_nil]
  cases row with
  | plan record => exact ⟨h record rfl, fun _ => hmemory⟩
  | run | task | attempt | event | evidence => exact ⟨trivial, fun _ => hmemory⟩

theorem safe_calls {p : Connection.Program Unit} (h : p.Calls fun o => (request.monitor app).Spares v (.inl o)) :
    Safe app request (onConnection p) (fun _ v' => v' = v) v :=
  wp_mono (Monitor.wp_spared (Prog.calls_inl.mpr h)) (fun _ _ heq => heq) fun _ _ _ => trivial

theorem Request.Writes.grown {v' : Memory} (hgrown : v.Grown v') {record : PlanRecord} (h : request.Writes app v record) :
    request.Writes app v' record := by
  cases request with
  | createPlan goalId body =>
      obtain ⟨goals, goal, stamp, hgoals, hgoal, hstamp, hrecord⟩ := h
      exact ⟨goals, goal, stamp, hgrown.goals.trans hgoals, hgoal, hgrown.stamp.trans hstamp, hrecord⟩
  | lockPlan planId =>
      obtain ⟨plan, hholds, hrecord⟩ := h
      exact ⟨plan, hgrown.holds hholds, hrecord⟩
  | createRun body =>
      obtain ⟨planId, plan, hholds, hlocked, hrecord⟩ := h
      exact ⟨planId, plan, hgrown.holds hholds, hlocked, hrecord⟩
  | other method hspares => exact h

/-- `save_plan` looks whether the plan is there, and then it writes the record it was given or nothing. -/
theorem safe_savePlan {record : PlanRecord} (h : request.Writes app v record) :
    Safe app request (savePlan record) (fun _ v' => v.Grown v') v := by
  have hexecute : ∀ v', v.Grown v' →
      Safe app request (onConnection (Connection.execute (.plan record))) (fun _ v'' => v.Grown v'') v' := by
    intro v' hgrown
    refine wp_mono (safe_calls (calls_execute (fun o ho => spares_plain ho) (spares_execute ?_))) ?_ fun _ _ _ => trivial
    · intro record' heq
      cases heq
      exact h.grown hgrown
    · intro _ v'' heq
      rw [heq]
      exact hgrown
  rw [savePlan, Connection.savePlan, onConnection, Prog.bind_eq, Prog.inl_bind]
  apply wp_bind.mpr
  apply safe_load
  intro rows v' hgrown _
  split
  · next existing _ =>
    split
    · exact hexecute v' hgrown
    · split
      · trivial
      · exact hgrown
  · exact hexecute v' hgrown

theorem safe_other {method : Connection.Method} (hspares : ∀ plan, Row.plan plan ∉ method.rows) :
    Safe app request (onConnection (Connection.program method)) (fun _ _ => True) v := by
  have hexecute : ∀ row ∈ method.rows, (request.monitor app).Spares v (.inl (.execute row)) := by
    intro row hrow
    apply spares_execute
    rintro record rfl
    exact absurd hrow (hspares record)
  have hplain : ∀ o, Plain o → (request.monitor app).Spares v (.inl o) := fun o ho => spares_plain ho
  have hcalls : ∀ p : Connection.Program Unit, p.Calls (fun o => (request.monitor app).Spares v (.inl o)) →
      Safe app request (onConnection p) (fun _ _ => True) v :=
    fun p hp => wp_mono (safe_calls hp) (fun _ _ _ => trivial) fun _ _ _ => trivial
  cases method with
  | transition change event =>
      apply hcalls
      show (Connection.recordTransition change event).Calls _
      unfold Connection.recordTransition
      split
      · exact (calls_transaction hplain hexecute).bind fun _ =>
          calls_await (Prog.calls_op.mpr (hplain (.publish event) trivial))
      · trivial
  | save row => exact hcalls _ (calls_execute hplain (hexecute row List.mem_cons_self))
  | saveEvent event =>
      apply hcalls
      exact (calls_execute hplain (hexecute _ List.mem_cons_self)).bind fun _ =>
        calls_await (Prog.calls_op.mpr (hplain (.publish event) trivial))
  | savePlan plan => exact absurd List.mem_cons_self (hspares plan)
  | load query =>
      show Safe app request (Prog.inl ((Connection.load query).bind fun _ => .ret ())) _ v
      rw [Prog.inl_bind]
      apply wp_bind.mpr
      exact safe_load query fun _ _ _ _ => trivial

/-! ### Routes -/

theorem safe_requireCapability {capability : String} {route : Program Answer}
    (h : Safe app request route (fun _ _ => True) v) :
    Safe app request (requireCapability capability route) (fun _ _ => True) v := by
  apply Monitor.wp_call trivial
  intro r
  cases r with
  | error exc => trivial
  | ok detail =>
      cases detail with
      | none => exact h
      | some detail => trivial

theorem safe_withGoal {goalId : String} {route : Goal → Program Answer} (hgoals : v.goals = none)
    (h : ∀ goals goal, goalOf goals goalId = some goal →
      Safe app request (route goal) (fun _ _ => True) { v with goals := some goals }) :
    Safe app request (withGoal goalId route) (fun _ _ => True) v := by
  apply safe_requireCapability
  apply Monitor.wp_call hgoals
  intro r
  cases r with
  | error exc => trivial
  | ok goals =>
      show Safe app request (match goalOf goals goalId with
        | none => return .refused ⟨404, s!"Unknown Goal: {goalId}"⟩
        | some goal => route goal) _ _
      split
      · trivial
      · next goal hgoal => exact h goals goal hgoal

theorem safe_withPlan {planId : PlanId} {route : PlanRecord → Program Answer}
    (h : ∀ record v', v.Grown v' → v'.Holds planId record → Safe app request (route record) (fun _ _ => True) v') :
    Safe app request (withPlan planId route) (fun _ _ => True) v := by
  rw [withPlan, loadPlan, Prog.bind_eq, Prog.bind_eq, Prog.bind_assoc]
  apply wp_bind.mpr
  apply safe_load
  intro rows v' hgrown hrows
  split
  · next record _ => exact h record v' hgrown (hrows _ List.mem_cons_self)
  · trivial

theorem safe_pollRuns (goalId : String) (polls : Nat) :
    Safe app request (pollRuns goalId polls) (fun _ _ => True) v := by
  induction polls generalizing v with
  | zero => trivial
  | succ polls ih =>
      apply Monitor.wp_call trivial
      intro r
      cases r with
      | error exc => trivial
      | ok _ =>
          apply (wp_bind (p := onConnection (Connection.load .runs))).mpr
          apply safe_load
          intro rows v' _ _
          split
          · trivial
          · exact ih

theorem safe_startRun {body : CreateRunRequest} {goal : Goal} {record : Option PlanRecord}
    (hstarts : request.Starts v
      ⟨(record.map PlanRecord.toPlan).getD (planForGoal goal), goal.id, body.runner, body.integrationTarget⟩)
    (hwrites : ∀ plan, record = some plan → request.Writes app v { plan with state := .consumed }) :
    Safe app request (startRun body goal record) (fun _ _ => True) v := by
  apply Monitor.wp_call hstarts
  intro _
  apply (wp_bind (p := consume record)).mpr
  cases record with
  | none => exact safe_pollRuns goal.id 50
  | some plan => exact wp_mono (safe_savePlan (hwrites plan rfl)) (fun _ _ _ => safe_pollRuns goal.id 50) fun _ _ h => h

/-- The accepted plan is locked, of the goal, and has the settings of the request. -/
theorem CreateRunRequest.accepts_ok {body : CreateRunRequest} {goal : Goal} {record : PlanRecord}
    (h : body.accepts goal record = .ok ()) :
    record.state = .locked ∧ record.goalId = goal.id ∧ record.goalRevision = goal.id ∧ body.runner = record.runner ∧
      body.integrationTarget = record.integrationTarget := by
  unfold CreateRunRequest.accepts at h
  split at h
  · cases h
  · next hlocked =>
    split at h
    · cases h
    · next hgoal =>
      split at h
      · cases h
      · next hsettings =>
        simp only [ne_eq, not_or, not_not] at hlocked hgoal hsettings
        exact ⟨hlocked, hgoal.1, hgoal.2, hsettings.1, hsettings.2⟩

theorem safe_createRun {body : CreateRunRequest} (hgoals : v.goals = none) :
    Safe app (.createRun body) (createRun app body) (fun _ _ => True) v := by
  apply safe_requireCapability
  apply safe_withGoal hgoals
  intro goals goal hgoal
  cases hplan : body.planId with
  | none =>
      show Safe app _ (resolveRunner app body goal none) _ _
      unfold resolveRunner
      split
      · apply safe_startRun
        · refine ⟨goals, goal, rfl, hgoal, fun _ => rfl, ?_⟩
          intro planId hsome
          rw [hplan] at hsome
          cases hsome
        · exact nofun
      · trivial
  | some planId =>
      apply safe_withPlan
      intro record v' hgrown hholds
      split
      · trivial
      · next haccepts =>
        obtain ⟨hlocked, hgoalId, hrevision, hrunner, htarget⟩ := CreateRunRequest.accepts_ok haccepts
        unfold resolveRunner
        split
        · apply safe_startRun
          · refine ⟨goals, goal, hgrown.goals.trans rfl, hgoal, ?_, ?_⟩
            · intro hnone
              rw [hplan] at hnone
              cases hnone
            · intro planId' hsome
              rw [hplan] at hsome
              cases hsome
              refine ⟨record, hholds, hlocked, hgoalId, ?_⟩
              rw [hrevision, ← hrunner, ← htarget]
              rfl
          · intro plan hsome
            cases hsome
            exact ⟨planId, record, hholds, hlocked, rfl⟩
        · trivial

theorem safe_lockPlan {planId : PlanId} : Safe app (.lockPlan planId) (lockPlan planId) (fun _ _ => True) v := by
  apply safe_requireCapability
  apply safe_withPlan
  intro plan v' _ hholds
  split
  · exact wp_bind.mpr (wp_mono (safe_savePlan ⟨plan, hholds, rfl⟩) (fun _ _ _ => trivial) fun _ _ h => h)
  · trivial

theorem safe_createPlan {goalId : String} {body : CreatePlanRequest} (hgoals : v.goals = none) (hstamp : v.stamp = none) :
    Safe app (.createPlan goalId body) (createPlan app goalId body) (fun _ _ => True) v := by
  apply safe_requireCapability
  apply safe_withGoal hgoals
  intro goals goal hgoal
  split
  · apply Monitor.wp_call hstamp
    intro stamp
    have hwrites : (Request.createPlan goalId body).Writes app { v with goals := some goals, stamp := some stamp }
        (newRecord app goal body stamp) := ⟨goals, goal, stamp, rfl, hgoal, rfl, rfl⟩
    apply (wp_bind (p := savePlan (newRecord app goal body stamp))).mpr
    exact wp_mono (safe_savePlan hwrites) (fun _ _ _ => trivial) fun _ _ h => h
  · trivial

/-- **Every coroutine keeps to its monitor.** -/
theorem safe_program (hgoals : v.goals = none) (hstamp : v.stamp = none) :
    Safe app request (request.program app) (fun _ _ => True) v := by
  cases request with
  | createPlan goalId body => exact safe_createPlan hgoals hstamp
  | lockPlan planId => exact safe_lockPlan
  | createRun body => exact safe_createRun hgoals
  | other method hspares => exact wp_bind.mpr (wp_mono (safe_other hspares) (fun _ _ _ => trivial) fun _ _ h => h)

end Texts

/-! ## What a call does -/

/-- The statement that was executed. -/
def Wrote (n : Nat) : (o : Connection.Op) → Connection.Ret o → Connection.Entry → Prop
  | .execute row, r, entry => r.done = true ∧ entry = (n, row)
  | _, _, _ => False

/-- What an `await` on the connection does: it writes its own statement at most, and what it reads is there or in the
cursor that it was given. -/
theorem connection_cases {n : Nat} {o : Connection.Op} {w w' : Connection.World} {r : Connection.Ret o}
    (h : Connection.exec n o w r = some w') :
    w'.opened = w.opened ∧
      (∀ entry ∈ w'.committed ++ w'.pending, entry ∈ w.committed ++ w.pending ∨ Wrote n o r entry) ∧
        ∀ x ∈ got o r, x.2 ∈ Connection.select x.1 w.visible ∨ ∃ cursor, o = .fetch x.1 cursor ∧ x.2 ∈ cursor := by
  -- nothing written, nothing read
  have hquiet : w'.opened = w.opened → w'.committed = w.committed → w'.pending = w.pending → got o r = [] →
      w'.opened = w.opened ∧
        (∀ entry ∈ w'.committed ++ w'.pending, entry ∈ w.committed ++ w.pending ∨ Wrote n o r entry) ∧
          ∀ x ∈ got o r, x.2 ∈ Connection.select x.1 w.visible ∨ ∃ cursor, o = .fetch x.1 cursor ∧ x.2 ∈ cursor := by
    intro hopened hcommitted hpending hgot
    refine ⟨hopened, fun entry hentry => .inl ?_, fun x hx => ?_⟩
    · rwa [hcommitted, hpending] at hentry
    · rw [hgot] at hx
      cases hx
  cases o with
  | acquire =>
      simp only [Connection.exec] at h
      split at h
      · split at h
        · cases h
          exact hquiet rfl rfl rfl rfl
        · cases h
      · split at h
        · cases h
          exact hquiet rfl rfl rfl rfl
        · cases h
  | release =>
      cases h
      exact hquiet rfl rfl rfl rfl
  | execute row =>
      simp only [Connection.exec] at h
      split at h
      · next hdone =>
        split at h
        · cases h
          refine ⟨rfl, fun entry hentry => ?_, fun _ hx => absurd hx List.not_mem_nil⟩
          rw [← List.append_assoc] at hentry
          rcases List.mem_append.mp hentry with hold | hnew
          · exact .inl hold
          · exact .inr ⟨hdone, List.mem_singleton.mp hnew⟩
        · cases h
      · split at h
        · cases h
          exact hquiet rfl rfl rfl rfl
        · cases h
  | commit =>
      simp only [Connection.exec] at h
      split at h
      · cases h
        refine ⟨rfl, fun entry hentry => .inl ?_, fun _ hx => absurd hx List.not_mem_nil⟩
        simpa using hentry
      · cases h
  | rollback =>
      simp only [Connection.exec] at h
      split at h
      · cases h
        refine ⟨rfl, fun entry hentry => .inl ?_, fun _ hx => absurd hx List.not_mem_nil⟩
        simp only [List.append_nil] at hentry
        exact List.mem_append_left _ hentry
      · cases h
  | query query =>
      simp only [Connection.exec] at h
      split at h
      · next cursor =>
        split at h
        · next hperm =>
          cases h
          refine ⟨rfl, fun _ hentry => .inl hentry, fun x hx => .inl ?_⟩
          obtain ⟨row, hrow, rfl⟩ := List.mem_map.mp hx
          exact hperm.mem_iff.mp hrow
        · cases h
      · cases h
        exact hquiet rfl rfl rfl rfl
  | fetch query cursor =>
      simp only [Connection.exec] at h
      split at h
      · next rows =>
        split at h
        · next hrows =>
          cases h
          refine ⟨rfl, fun _ hentry => .inl hentry, fun x hx => ?_⟩
          obtain ⟨row, hrow, rfl⟩ := List.mem_map.mp hx
          have hfrom := of_decide_eq_true (List.all_eq_true.mp hrows row hrow)
          exact hfrom.symm.imp_right fun hcursor => ⟨cursor, rfl, hcursor⟩
        · cases h
      · cases h
        exact hquiet rfl rfl rfl rfl
  | publish event =>
      simp only [Connection.exec] at h
      split at h
      · cases h
        exact hquiet rfl rfl rfl rfl
      · cases h

end AtlasFlow.Reference.PlanRoutes
