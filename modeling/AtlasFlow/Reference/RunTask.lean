import AtlasFlow.Reference.Share

/-!
# One task, alone

`_run_task` verified on its coroutine's `Share`: one lemma for each method, said with what it leaves of
the share. `Concluded` is how the coroutine leaves its task when it returns, `Broken` when it raises.
-/

namespace AtlasFlow.Reference

open Concurrency
open Persistence (recordTaskTransition recordAttemptTransition)

section Calls

variable {t : Task} {node : TaskNode} {α : Type} {Q : α → Share → Prop} {F : PyExn → Share → Prop}
  {s : Share}

/-- A call that leaves the share alone, whatever it answers. -/
theorem wp_idle {o : Op} {k : Ret o → Program α} (hact : ∀ r, act t o s r = some s)
    (hkeeps : ∀ r, keeps t node o s r s) (h : ∀ r, wp (Share.contract t node) (k r) Q F s) :
    wp (Share.contract t node) (.call o k) Q F s := by
  apply wp_alone_call
  intro r s' hs'
  rw [hact] at hs'
  cases hs'
  exact ⟨hkeeps r, h r⟩

theorem wp_newEvent {projectId : String} {runId : RunId} {type : EventType}
    {payload : List (String × Json)} {Q : DomainEvent → Share → Prop} (h : ∀ event, Q event s) :
    wp (Share.contract t node) (newEvent projectId runId type payload) Q F s :=
  wp_idle (fun _ => rfl) (fun _ => trivial) fun _ => h _

/-- A legal transition of the task. -/
theorem wp_recordTaskTransition {state toState : TaskState} {event : DomainEvent}
    {Q : Task → Share → Prop} (hs : s.state = state) (hallowed : state.canTransition toState = true)
    (hopen : state ≠ .succeeded) (h : Q { t with state := toState } { s with state := toState }) :
    wp (Share.contract t node) (recordTaskTransition { t with state } toState event) Q F s := by
  unfold recordTaskTransition Persistence.guard
  rw [if_pos hallowed]
  apply wp_alone_call
  intro r s' hs'
  cases hs'
  refine ⟨⟨by rw [hs]; exact hopen, rfl⟩, ?_⟩
  exact wp_idle (fun _ => rfl) (fun _ => trivial) fun _ => h

theorem wp_moveTask {projectId : String} {state toState : TaskState} {type : EventType}
    {extra : List (String × Json)} {Q : Task → Share → Prop} (hs : s.state = state)
    (hallowed : state.canTransition toState = true) (hopen : state ≠ .succeeded)
    (h : Q { t with state := toState } { s with state := toState }) :
    wp (Share.contract t node) (Scheduler.moveTask projectId { t with state } toState type extra) Q F
      s := by
  unfold Scheduler.moveTask
  apply wp_seq (wp_newEvent fun _ => rfl : wp _ _ (fun _ s' => s' = s) _ _)
  rintro event _ rfl
  exact wp_recordTaskTransition hs hallowed hopen h

/-- Reading the task back. -/
theorem wp_reload {state : TaskState} {Q : Task → Share → Prop} (h : Q (s.row t) s) :
    wp (Share.contract t node) (reload { t with state }) Q F s := by
  apply wp_alone_call
  intro stored s' hs'
  simp only [act] at hs'
  split at hs'
  · cases hs'
  · next hread =>
      cases hs'
      have hfound : (stored.find? fun row => row.id = t.id) = some (s.row t) := by
        by_contra hne
        exact hread ⟨trivial, hne⟩
      refine ⟨rfl, ?_⟩
      show Q ((stored.find? fun row => row.id = t.id).getD _) s
      rw [hfound]
      exact h

theorem wp_recordGate {run : Run} {state : TaskState} {gate : GateKind} {verdict : GateVerdict}
    {detail kind : String} {Q : Unit → Share → Prop}
    (hproper : ∀ e : Evidence, e.gate = gate → e.kind = kind → e.verdict = verdict →
      e.taskId = some t.id → Proper node s.marks (s.evidence ++ [e]))
    (h : ∀ e : Evidence, e.gate = gate → e.kind = kind → e.verdict = verdict →
      Q () { s with evidence := s.evidence ++ [e] }) :
    wp (Share.contract t node) (recordGate run { t with state } gate verdict detail kind) Q F s := by
  apply wp_alone_call
  intro r s' hs'
  cases hs'
  exact ⟨⟨rfl, hproper _ rfl rfl rfl rfl⟩, h _ rfl rfl rfl⟩

theorem wp_observe {g : GoalRunner} {run : Run} {task : Task} {modelKey role : String}
    {result : RunnerResult} {Q : Unit → Share → Prop} (h : Q () s) :
    wp (Share.contract t node) (g.observe run task modelKey role result) Q F s := by
  unfold GoalRunner.observe
  refine wp_idle (o := .recordUsage _) (fun _ => rfl) (fun _ => trivial) fun _ => ?_
  split
  · exact wp_idle (fun _ => rfl) (fun _ => trivial) fun _ => h
  · exact h

/-- The answer of the outside: an exception is raised where the call was made. -/
theorem wp_outside {β : Type} {r : Except PyExn β} {k : β → Program α}
    (hok : ∀ b, r = .ok b → wp (Share.contract t node) (k b) Q F s)
    (herror : ∀ e, r = .error e → F e s) :
    wp (Share.contract t node) (Prog.bind (Prog.ofExcept r) k) Q F s := by
  cases r with
  | ok b => exact hok b rfl
  | error e => exact herror e rfl

end Calls

/-! ## One attempt -/

/-- An attempt has been made: the task runs, and its runner has answered. -/
def Share.answered (s : Share) (h : Heard) : Share :=
  { s with
    state := .running
    marks := { s.marks with reserved := false, heard := s.marks.heard ++ [h] }
    asked := s.asked || h.cancelled }

section Attempt

variable {t : Task} {node : TaskNode} {F : PyExn → Share → Prop} {s : Share} {projectId : String}

/-- A legal transition of the open attempt. -/
theorem wp_moveAttempt {a : Attempt} {toState : AttemptState} {type : EventType}
    {Q : Attempt → Share → Prop} (hopened : s.opened = some a.id) (htask : a.taskId = t.id)
    (hallowed : a.state.canTransition toState = true)
    (hreserved : toState = .starting → s.marks.reserved = true)
    (h : Q { a with state := toState }
      { s with
        opened := if toState.isTerminal then none else some a.id
        marks := if toState = .starting then { s.marks with reserved := false } else s.marks }) :
    wp (Share.contract t node) (Harness.moveAttempt projectId a toState type) Q F s := by
  unfold Harness.moveAttempt
  apply wp_seq (wp_newEvent fun _ => rfl : wp _ _ (fun _ s' => s' = s) _ _)
  rintro event _ rfl
  unfold recordAttemptTransition Persistence.guard
  rw [if_pos hallowed]
  apply wp_alone_call
  intro r s' hs'
  cases hs'
  refine ⟨⟨hopened, htask, hreserved⟩, ?_⟩
  exact wp_idle (fun _ => rfl) (fun _ => trivial) fun _ => h

theorem wp_closeAttempt {a : Attempt} {state : AttemptState} {type : EventType} {error : String}
    {Q : Attempt → Share → Prop} (hopened : s.opened = some a.id) (htask : a.taskId = t.id)
    (hallowed : a.state.canTransition state = true) (hterminal : state.isTerminal = true)
    (h : ∀ a, Q a { s with opened := none }) :
    wp (Share.contract t node) (Harness.closeAttempt projectId a state type error) Q F s := by
  unfold Harness.closeAttempt
  refine wp_idle (o := .now) (fun _ => rfl) (fun _ => trivial) fun completedAt => ?_
  have hne : state ≠ .starting := by rintro rfl; cases hterminal
  refine wp_moveAttempt hopened htask hallowed (fun hstart => absurd hstart hne) ?_
  rw [if_pos hterminal, if_neg hne]
  exact h _

/-- The rows of an attempt up to the call of its runner. -/
theorem wp_startAttempt {runnerName : String} {task : Task} {config : RunnerConfig}
    {Q : Attempt → Share → Prop} (htask : task.id = t.id) (hopened : s.opened = none)
    (hreserved : s.marks.reserved = true)
    (h : ∀ a : Attempt, a.taskId = t.id → a.state = .running →
      Q a { s with opened := some a.id, marks := { s.marks with reserved := false } }) :
    wp (Share.contract t node) (Harness.startAttempt projectId runnerName task config) Q F s := by
  unfold Harness.startAttempt
  simp only [Prog.bind_eq, Prog.op_bind]
  refine wp_idle (o := .newAttempt) (fun _ => rfl) (fun _ => trivial) fun fresh => ?_
  apply wp_alone_call
  intro r s' hs'
  cases hs'
  refine ⟨⟨hopened, htask⟩, ?_⟩
  apply wp_bind.mpr
  refine wp_moveAttempt rfl htask (by rfl) (fun _ => hreserved) ?_
  refine wp_idle (o := .now) (fun _ => rfl) (fun _ => trivial) fun startedAt => ?_
  refine wp_moveAttempt rfl htask (by rfl) nofun ?_
  exact h _ htask rfl

/-- What follows the runner's answer. -/
theorem wp_endAttempt {a : Attempt} {answer : Except PyExn RunnerResult} {m : String}
    {Q : RunnerResult × Attempt → Share → Prop} (hopened : s.opened = some a.id)
    (htask : a.taskId = t.id) (hrunning : a.state = .running)
    (hreturn : ∀ result a, (⟨m, answer⟩ : Heard).succeeded = result.success →
      (⟨m, answer⟩ : Heard).cancelled = false → Q (result, a) { s with opened := none })
    (hraise : (⟨m, answer⟩ : Heard).cancelled = true → F .cancelledError { s with opened := none }) :
    wp (Share.contract t node) (Harness.endAttempt projectId t.id a answer) Q F s := by
  have hallowed : ∀ state : AttemptState, state.isTerminal = true →
      a.state.canTransition state = true := by
    intro state hterminal
    rw [hrunning]
    cases state <;> first | rfl | cases hterminal
  cases answer with
  | ok result =>
      unfold Harness.endAttempt
      dsimp only
      split
      all_goals
        apply wp_bind.mpr
        apply wp_closeAttempt hopened htask (hallowed _ rfl) rfl
        intro a'
        exact hreturn result a' rfl rfl
  | error exc =>
      cases exc with
      | cancelledError =>
          unfold Harness.endAttempt
          simp only [Prog.bind_eq, Prog.op_bind]
          refine wp_idle (o := .cancelRunner _) (fun _ => rfl) (fun _ => trivial) fun _ => ?_
          apply wp_bind.mpr
          apply wp_closeAttempt hopened htask (hallowed _ rfl) rfl
          intro _
          exact hraise rfl
      | _ =>
          apply wp_bind.mpr
          apply wp_closeAttempt hopened htask (hallowed _ rfl) rfl
          intro a'
          exact hreturn _ a' rfl rfl

/-- The runner's task, from its start to the end of the attempt. -/
theorem wp_callRunner {a : Attempt} {prompt : String} {config : RunnerConfig}
    {Q : RunnerResult × Attempt → Share → Prop} (htask : a.taskId = t.id) (hrunning : a.state = .running)
    (hopened : s.opened = none) (hmodel : s.model = none)
    (hproper : ∀ h, Proper node (s.answered h).marks s.evidence)
    (hreturn : ∀ result a h, h.model = config.model → h.succeeded = result.success →
      h.cancelled = false → Q (result, a) (s.answered h))
    (hcancelled : ∀ h, h.cancelled = true → F .cancelledError (s.answered h)) {s₁ : Share}
    (hs₁ : s₁ = { s with
      state := .running, opened := some a.id, marks := { s.marks with reserved := false } }) :
    wp (Share.contract t node)
      (Prog.call (.startRunner t.id prompt config) fun _ => Prog.call (.awaitRunner t.id) fun answer =>
        Harness.endAttempt projectId t.id a answer) Q F s₁ := by
  subst hs₁
  apply wp_alone_call
  intro _ s' hs'
  cases hs'
  refine ⟨rfl, ?_⟩
  apply wp_alone_call
  intro answer s' hs'
  simp only [act, Option.map_some, if_true, Option.some.injEq] at hs'
  subst hs'
  refine ⟨⟨rfl, hproper ⟨config.model, answer⟩⟩, ?_⟩
  have hanswered : s.answered ⟨config.model, answer⟩ =
      { s with
        state := .running
        opened := none
        model := none
        marks := { s.marks with reserved := false, heard := s.marks.heard ++ [⟨config.model, answer⟩] }
        asked := s.asked || (⟨config.model, answer⟩ : Heard).cancelled } := by
    rw [Share.answered, ← hopened, ← hmodel]
  refine wp_endAttempt (m := config.model) rfl htask hrunning ?_ ?_
  · intro result a' hsucceeded hgone
    rw [← hanswered]
    exact hreturn result a' _ rfl hsucceeded hgone
  · intro hgone
    rw [← hanswered]
    exact hcancelled _ hgone

/-- **One attempt**: it returns what its runner answered, or raises because the runner is unknown or was
cancelled. -/
theorem wp_execute {runnerName prompt : String} {state : TaskState} {config : RunnerConfig}
    {Q : RunnerResult × Attempt → Share → Prop} (hs : s.state = state)
    (hstate : state = .ready ∨ state = .running) (hopened : s.opened = none)
    (hmodel : s.model = none) (hreserved : s.marks.reserved = true)
    (hproper : ∀ h, Proper node (s.answered h).marks s.evidence)
    (hreturn : ∀ result a h, h.model = config.model → h.succeeded = result.success →
      h.cancelled = false → Q (result, a) (s.answered h))
    (hunknown : ∀ message, F (.valueError message) { s with marks := { s.marks with raised := true } })
    (hcancelled : ∀ h, h.cancelled = true → F .cancelledError (s.answered h)) :
    wp (Share.contract t node)
      (Harness.execute projectId runnerName { t with state } prompt config) Q F s := by
  unfold Harness.execute
  simp only [Prog.bind_eq, Prog.op_bind, Prog.throw_eq]
  apply wp_alone_call
  intro resolved s' hs'
  refine ⟨trivial, ?_⟩
  cases resolved with
  | false =>
      cases hs'
      exact hunknown _
  | true =>
      cases hs'
      apply wp_bind.mpr
      refine wp_startAttempt rfl hopened hreserved fun a htask hrunning => ?_
      rcases hstate with rfl | rfl
      · -- the first attempt sets the task running
        rw [if_pos rfl, if_pos rfl]
        apply wp_seq (wp_newEvent fun _ => rfl : wp _ _ (fun _ s' => s' =
          { s with opened := some a.id, marks := { s.marks with reserved := false } }) _ _)
        rintro event _ rfl
        apply wp_bind.mpr
        refine wp_recordTaskTransition hs (by rfl) nofun ?_
        exact wp_callRunner htask hrunning hopened hmodel hproper hreturn hcancelled rfl
      · rw [if_pos rfl, if_neg nofun]
        exact wp_callRunner htask hrunning hopened hmodel hproper hreturn hcancelled (by cases s; cases hs; rfl)

end Attempt

/-! ## The fallback loop -/

namespace ModelRouter

theorem modelByKey_mem {key : String} {m : ModelEntry} (h : modelByKey.get? key = some m) :
    m ∈ roster := by
  obtain ⟨entry, hentry, heq⟩ := List.mem_map.mp (Dict.mem_of_get?_ofItems h)
  cases heq
  exact hentry

/-- A route only names models of the roster. -/
theorem route_mem {r : ModelRouter} {role : String} {m : ModelEntry} :
    m ∈ (r.route role).candidates ∨ (r.route role).selected = some m → m ∈ roster := by
  have hcandidates : ∀ keys : List String, m ∈ keys.filterMap modelByKey.get? → m ∈ roster := by
    intro keys hm
    obtain ⟨key, _, hkey⟩ := List.mem_filterMap.mp hm
    exact modelByKey_mem hkey
  unfold route
  dsimp only
  split
  · next candidate idx hfind =>
      rintro (hm | hm)
      · exact hcandidates _ hm
      · cases hm
        exact hcandidates _ (List.fst_mem_of_mem_zipIdx (List.mem_of_find?_eq_some hfind))
  · rintro (hm | hm)
    · exact hcandidates _ hm
    · cases hm

/-- A candidate of the fallback loop is the harness's default model or a model of the roster. -/
theorem fallbackCandidates_mem {r : ModelRouter} {role : String} {m : ModelEntry}
    (h : some m ∈ r.fallbackCandidates (r.route role)) : m ∈ roster := by
  apply @route_mem r role
  have hlisted : ∀ l : List ModelEntry, some m ∈ (if l = [] then [none] else l.map some) → m ∈ l := by
    intro l hl
    split at hl
    · exact absurd (List.mem_singleton.mp hl) nofun
    · obtain ⟨n, hn, heq⟩ := List.mem_map.mp hl
      cases heq
      exact hn
  unfold fallbackCandidates at h
  have hm := hlisted _ h
  split at hm
  · next selected hselected =>
      rcases List.mem_cons.mp hm with rfl | hmem
      · exact .inr hselected
      · exact .inl (List.mem_of_mem_filter (List.mem_of_mem_filter hmem))
  · exact .inl (List.mem_of_mem_filter hm)

/-- Every model of the roster is known by its own provider. -/
theorem providerOf_roster : ∀ m ∈ roster, providerOf m.commandCodeId = m.provider := by
  decide

/-- The provider that is remembered of an attempt is the provider of its model. -/
theorem providerOf_candidate {r : ModelRouter} {role : String} {candidate : Option ModelEntry}
    (h : candidate ∈ r.fallbackCandidates (r.route role)) :
    providerOf ((candidate.map ModelEntry.commandCodeId).getD "default") =
      (candidate.map ModelEntry.provider).getD "" := by
  cases candidate with
  | none => decide
  | some m => exact providerOf_roster m (fallbackCandidates_mem h)

end ModelRouter

/-- Attempts of the fallback loop after which it goes on. -/
def Fruitless (hs : List Heard) : Prop := ∀ h ∈ hs, h.succeeded = false ∧ h.cancelled = false

/-- The share after the attempts of the fallback loop. -/
def Share.tried (hs : List Heard) : Share where
  state := if hs = [] then .ready else .running
  marks := { heard := hs }

/-- How the fallback loop ends. -/
inductive Trial : GoalRunner.Tried → Share → Prop
  | refused {outcome : TaskOutcome} (hcancelled : outcome.cancelled = false) :
      Trial (none, outcome) { state := .ready, marks := { refused := true } }
  | cancelled {last : Option (RunnerResult × Attempt)} {outcome : TaskOutcome} {hs : List Heard}
      {h : Heard} (hcancelled : outcome.cancelled = true) (hhs : Fruitless hs)
      (hh : h.cancelled = true) : Trial (last, outcome) { Share.tried (hs ++ [h]) with asked := true }
  | failed {result : RunnerResult} {attempt : Attempt} {outcome : TaskOutcome} {hs : List Heard}
      (hcancelled : outcome.cancelled = false) (hresult : result.success = false) (hhs : Fruitless hs)
      (hne : hs ≠ []) : Trial (some (result, attempt), outcome) (Share.tried hs)
  | succeeded {result : RunnerResult} {attempt : Attempt} {outcome : TaskOutcome} {hs : List Heard}
      {h : Heard} (hcancelled : outcome.cancelled = false) (hresult : result.success = true)
      (hhs : Fruitless hs) (hh : h.succeeded = true)
      (hprovider : outcome.provider = providerOf h.model) :
      Trial (some (result, attempt), outcome) (Share.tried (hs ++ [h]))

/-- What the fallback loop carries from one candidate to the next. -/
def Carried (hs : List Heard) : Option (RunnerResult × Attempt) → Prop
  | none => hs = []
  | some (result, _) => hs ≠ [] ∧ result.success = false

/-- How a coroutine leaves its task when it raises. -/
structure Broken (s : Share) : Prop where
  opened : s.opened = none
  cause : s.marks.raised = true ∨ s.marks.cut = true

section Loop

variable {t : Task} {node : TaskNode} {g : GoalRunner} {run : Run} {s : Share}

theorem wp_attempt {modelId : String} {state : TaskState}
    {Q : Except String (RunnerResult × Attempt) → Share → Prop} {F : PyExn → Share → Prop}
    (hrun : run.id = t.runId) (hs : s.state = state) (hstate : state = .ready ∨ state = .running)
    (hopened : s.opened = none) (hmodel : s.model = none) (hreserved : s.marks.reserved = true)
    (hproper : ∀ h, Proper node (s.answered h).marks s.evidence)
    (hreturn : ∀ result a h, h.model = modelId → h.succeeded = result.success →
      h.cancelled = false → Q (.ok (result, a)) (s.answered h))
    (hunknown : ∀ message, F (.valueError message) { s with marks := { s.marks with raised := true } })
    (hcancelled : ∀ reason h, h.cancelled = true → Q (.error reason) (s.answered h)) :
    wp (Share.contract t node) (g.attempt run { t with state } node modelId) Q F s := by
  unfold GoalRunner.attempt
  rw [Prog.tryCatch_eq, wp_handle, Prog.bind_eq, wp_bind]
  refine wp_execute hs hstate hopened hmodel hreserved hproper ?_ ?_ ?_
  · intro result a h hh hsucceeded hgone
    exact hreturn result a h hh hsucceeded hgone
  · exact hunknown
  · intro h hgone
    -- a runner's task is cancelled only for a request, so the question is answered yes
    apply wp_alone_call
    intro requested s' hs'
    have hasked : (s.answered h).asked = true := by simp [Share.answered, hgone]
    simp only [act, if_pos hrun, hasked, Bool.true_and] at hs'
    cases requested with
    | false => cases hs'
    | true =>
        cases hs'
        refine ⟨⟨hrun, nofun⟩, ?_⟩
        simp only [Prog.ret_bind, if_true, Prog.bind_eq, Prog.op_bind, Prog.pure_eq]
        refine wp_idle (o := .reason _) (fun _ => rfl) (fun _ => trivial) fun reason => ?_
        have h' := hcancelled reason h hgone
        rw [show s.answered h = { s.answered h with asked := true } by rw [← hasked]] at h'
        exact h'

/-- Nothing is merged or reviewed before the fallback loop ends. -/
theorem Proper.of_nil {m : Marks} (h : m.integrations = []) : Proper node m [] :=
  ⟨fun hne => absurd h hne, nofun⟩

theorem Share.tried_append (hs : List Heard) (h : Heard) :
    { Share.tried hs with marks := { (Share.tried hs).marks with reserved := true } }.answered h =
      { Share.tried (hs ++ [h]) with asked := h.cancelled } := by
  simp [Share.tried, Share.answered]

/-- **The fallback loop**: it goes on until an attempt succeeds, a request or the budget stops it, or
there is no candidate left. -/
theorem wp_tryCandidates {limit : Nat} {candidates : List (Option ModelEntry)} {index : Nat}
    {last : Option (RunnerResult × Attempt)} {outcome : TaskOutcome} {l : List Heard}
    (hrun : run.id = t.runId) (hcandidates : ∀ candidate ∈ candidates,
      providerOf ((candidate.map ModelEntry.commandCodeId).getD "default") =
        (candidate.map ModelEntry.provider).getD "")
    (hne : candidates ≠ [] ∨ l ≠ []) (hl : Fruitless l) (hcarried : Carried l last)
    (hcancelled : outcome.cancelled = false) (hsucceeded : outcome.succeeded = false) :
    wp (Share.contract t node)
      (g.tryCandidates run node limit candidates index ((Share.tried l).row t) (last, outcome))
      (fun tried s => Trial tried s ∧ tried.2.succeeded = false) (fun _ s => Broken s)
      (Share.tried l) := by
  induction candidates generalizing index last outcome l with
  | nil =>
      have hl' : l ≠ [] := hne.resolve_left fun h => h rfl
      cases last with
      | none => exact absurd hcarried hl'
      | some tried => exact ⟨.failed hcancelled hcarried.2 hl hl', hsucceeded⟩
  | cons candidate rest ih =>
      unfold GoalRunner.tryCandidates
      simp only [Prog.bind_eq, Prog.op_bind, Prog.pure_eq]
      apply wp_alone_call
      intro answer s' l'
      refine ⟨trivial, ?_⟩
      cases answer with
      | error exc =>
          cases l'
          cases last with
          | none =>
              -- no attempt has been made, so the task is left ready
              have : l = [] := hcarried
              subst this
              exact ⟨.refused hcancelled, hsucceeded⟩
          | some tried =>
              have hsame : { Share.tried l with marks := { (Share.tried l).marks with
                  refused := (Share.tried l).marks.refused || (Share.tried l).marks.heard.isEmpty } } =
                  Share.tried l := by
                simp [Share.tried, hcarried.1]
              rw [hsame]
              exact ⟨.failed hcancelled hcarried.2 hl hcarried.1, hsucceeded⟩
      | ok _ =>
          cases l'
          have hstate : (Share.tried l).state = .ready ∨ (Share.tried l).state = .running := by
            unfold Share.tried
            split
            · exact .inl rfl
            · exact .inr rfl
          apply wp_bind.mpr
          refine wp_attempt hrun rfl hstate rfl rfl rfl (fun h => Proper.of_nil rfl) ?_ ?_ ?_
          · intro result a h hmodel hresult hgone
            have hnext := Share.tried_append l h
            rw [hgone] at hnext
            rw [hnext, show { Share.tried (l ++ [h]) with asked := false } = Share.tried (l ++ [h])
              from rfl]
            apply wp_bind.mpr
            apply wp_observe
            split
            · next hsuccess =>
                refine ⟨.succeeded hcancelled hsuccess hl (hresult.trans hsuccess) ?_, hsucceeded⟩
                rw [hmodel, hcandidates candidate List.mem_cons_self]
            · next hfailure =>
                have hfailed : result.success = false := by simpa using hfailure
                have hl' : Fruitless (l ++ [h]) := by
                  intro h' hmem
                  rcases List.mem_append.mp hmem with hold | hlast
                  · exact hl h' hold
                  · rw [List.mem_singleton.mp hlast]
                    exact ⟨hresult.trans hfailed, hgone⟩
                have hkept : ¬(index + 1 < limit ∧ ((Share.tried (l ++ [h])).row t).state = .failed) := by
                  rintro ⟨_, hstate⟩
                  simp [Share.row, Share.tried] at hstate
                apply wp_bind.mpr
                apply wp_reload
                -- the task is running, not failed: it is not put back
                rw [if_neg hkept]
                apply ih (fun c hc => hcandidates c (List.mem_cons_of_mem _ hc)) (.inr (by simp)) hl'
                · exact ⟨by simp, hfailed⟩
                · exact hcancelled
                · exact hsucceeded
          · intro message
            exact ⟨rfl, .inl rfl⟩
          · intro reason h hgone
            rw [Share.tried_append, hgone]
            exact ⟨.cancelled rfl hl hgone, hsucceeded⟩

end Loop

/-! ## After the fallback loop -/

/-- How a coroutine that returns has left the state of its task. -/
inductive Ended (succeeded : Bool) (s : Share) : Prop
  | succeeded (hsucceeded : succeeded = true) (hstate : s.state = .succeeded)
  | failed (hsucceeded : succeeded = false) (hstate : s.state = .failed)
      (htroubled : s.marks.troubled = true)
  | refused (hsucceeded : succeeded = false) (hstate : s.state = .ready)
      (hrefused : s.marks.refused = true)
  | cancelled (hsucceeded : succeeded = false) (hstate : s.state = .cancelled ∨ s.state = .planned)
      (hasked : s.asked = true)

/-- How a coroutine leaves its task when it returns. -/
structure Concluded (g : GoalRunner) (node : TaskNode) (outcome : TaskOutcome) (s : Share) : Prop where
  opened : s.opened = none
  reserved : s.marks.reserved = false
  raised : s.marks.raised = false
  cut : s.marks.cut = false
  ended : Ended outcome.succeeded s
  refused : s.marks.refused = true → s.state = .ready
  built : (∃ e ∈ s.evidence, e.isBuild = true) ↔ s.state = .succeeded
  merged : s.state = .succeeded → g.worktrees = true → node.writeScope ≠ [] →
    true ∈ s.marks.integrations
  pending : isHighRisk node = true → s.marks.implemented = true → s.marks.reviews = [] →
    ∃ e ∈ s.evidence, e.isReview .pending = true

theorem Concluded.not_running {g : GoalRunner} {node : TaskNode} {outcome : TaskOutcome} {s : Share}
    (h : Concluded g node outcome s) : s.state ≠ .running := by
  rcases h.ended with ⟨_, hs⟩ | ⟨_, hs, _⟩ | ⟨_, hs, _⟩ | ⟨_, hs | hs, _⟩ <;> rw [hs] <;> nofun

/-- A task that is ready to be merged: it was implemented, and reviewed where it had to be. -/
structure Reviewed (node : TaskNode) (s : Share) : Prop where
  state : s.state = .running
  opened : s.opened = none
  marks : s.marks = { heard := s.marks.heard }
  implemented : s.marks.implemented = true
  reviews : ∀ h ∈ s.marks.reviews, h.succeeded = true
  proper : Proper node s.marks s.evidence
  unbuilt : ∀ e ∈ s.evidence, e.isBuild = false
  pending : isHighRisk node = true → s.marks.reviews = [] → ∃ e ∈ s.evidence, e.isReview .pending = true

namespace Marks

variable {hs rest : List Heard} {impl : Heard}

/-- After fruitless attempts the first that succeeds is the implementation. -/
theorem implementation_eq (hhs : Fruitless hs) (himpl : impl.succeeded = true) :
    ({ heard := hs ++ impl :: rest } : Marks).implementation = some impl := by
  have hnone : hs.find? Heard.succeeded = none := by
    apply List.find?_eq_none.mpr
    intro h hmem
    simp [(hhs h hmem).1]
  simp [implementation, List.find?_append, hnone, himpl]

theorem implemented_eq (himpl : impl.succeeded = true) :
    ({ heard := hs ++ impl :: rest } : Marks).implemented = true := by
  simp [implemented, himpl]

/-- What comes after the implementation is reviews. -/
theorem reviews_eq (hhs : Fruitless hs) (himpl : impl.succeeded = true) :
    ({ heard := hs ++ impl :: rest } : Marks).reviews = rest := by
  have hdrop : (hs ++ impl :: rest).dropWhile (fun h => !h.succeeded) = impl :: rest := by
    rw [List.dropWhile_append_of_pos fun h hmem => by simp [(hhs h hmem).1]]
    exact List.dropWhile_cons_of_neg (by simp [himpl])
  rw [reviews, hdrop, List.tail_cons]

/-- Attempts none of which succeeded are no implementation, and none of them is a review. -/
theorem reviews_of_unsuccessful (hhs : ∀ h ∈ hs, h.succeeded = false) :
    ({ heard := hs } : Marks).reviews = [] ∧ ({ heard := hs } : Marks).implemented = false := by
  constructor
  · rw [reviews, List.dropWhile_eq_nil_iff.mpr fun h hmem => by simp [hhs h hmem], List.tail_nil]
  · simpa [implemented] using hhs

end Marks

/-- A runner that succeeded was not cancelled. -/
theorem Heard.cancelled_of_succeeded {h : Heard} (hh : h.succeeded = true) : h.cancelled = false := by
  obtain ⟨model, answer⟩ := h
  cases answer with
  | ok result => rfl
  | error e => cases hh

theorem Heard.succeeded_of_cancelled {h : Heard} (hh : h.cancelled = true) : h.succeeded = false := by
  cases hsucceeded : h.succeeded with
  | false => rfl
  | true => rw [h.cancelled_of_succeeded hsucceeded] at hh; cases hh

variable {node : TaskNode}

theorem Proper.append {m : Marks} {evidence : List Evidence} {e : Evidence}
    (h : Proper node m evidence) (he : e.isReview .passed = false) : Proper node m (evidence ++ [e]) := by
  refine ⟨h.merged, fun e' he' hpassed => ?_⟩
  rcases List.mem_append.mp he' with hold | hlast
  · exact h.reviewed e' hold hpassed
  · rw [List.mem_singleton.mp hlast, he] at hpassed
    cases hpassed

section Conclude

variable {t : Task} {g : GoalRunner} {run : Run} {s : Share}

theorem wp_failBuild {outcome : TaskOutcome} {error : String} {Q : TaskOutcome → Share → Prop}
    {F : PyExn → Share → Prop} (hs : s.state = .running) (hproper : Proper node s.marks s.evidence)
    (h : ∀ e : Evidence, e.isBuild = false → Q { outcome with error }
      { s with state := .failed, evidence := s.evidence ++ [e] }) :
    wp (Share.contract t node) (g.failBuild run (s.row t) outcome error) Q F s := by
  unfold GoalRunner.failBuild
  simp only [Prog.bind_eq, Prog.pure_eq]
  apply wp_bind.mpr
  refine wp_recordGate (fun e hgate _ _ _ => hproper.append (by simp [Evidence.isReview, hgate])) ?_
  intro e hgate _ hverdict
  apply wp_bind.mpr
  refine wp_moveTask rfl (by rw [hs]; rfl) (by rw [hs]; nofun) ?_
  exact h e (by simp [Evidence.isBuild, hverdict])

theorem wp_passBuild {outcome : TaskOutcome} {attempt : Attempt} {Q : TaskOutcome → Share → Prop}
    {F : PyExn → Share → Prop} (hs : s.state = .running) (hproper : Proper node s.marks s.evidence)
    (h : ∀ e : Evidence, e.isBuild = true → Q { outcome with succeeded := true }
      { s with state := .succeeded, evidence := s.evidence ++ [e] }) :
    wp (Share.contract t node) (g.passBuild run (s.row t) outcome attempt) Q F s := by
  unfold GoalRunner.passBuild
  simp only [Prog.bind_eq, Prog.pure_eq]
  apply wp_bind.mpr
  refine wp_recordGate (fun e hgate _ _ _ => hproper.append (by simp [Evidence.isReview, hgate])) ?_
  intro e hgate _ hverdict
  apply wp_bind.mpr
  refine wp_moveTask rfl (by rw [hs]; rfl) (by rw [hs]; nofun) ?_
  exact h e (by simp [Evidence.isBuild, hgate, hverdict])

theorem Reviewed.cut {s : Share} (h : Reviewed node s) : s.marks.cut = false := by
  unfold Marks.cut
  apply List.any_eq_false.mpr
  intro x hx
  simp [Heard.cancelled_of_succeeded (h.reviews x hx)]

/-- Evidence that a task was built, whatever else is known of it. -/
theorem exists_build_append {evidence : List Evidence} {e : Evidence}
    (hold : ∀ e ∈ evidence, e.isBuild = false) :
    (∃ e' ∈ evidence ++ [e], e'.isBuild = true) ↔ e.isBuild = true := by
  constructor
  · intro ⟨e', hmem, hbuild⟩
    rcases List.mem_append.mp hmem with hmem | hmem
    · rw [hold e' hmem] at hbuild
      cases hbuild
    · rwa [← List.mem_singleton.mp hmem]
  · intro hbuild
    exact ⟨e, by simp, hbuild⟩

theorem Reviewed.proper_of_heard {m : Marks} (hs : Reviewed node s) (hm : m.heard = s.marks.heard) :
    Proper node m s.evidence := by
  constructor
  · intro _
    unfold Marks.implemented Marks.reviews
    rw [hm]
    exact ⟨hs.implemented, fun _ => hs.reviews⟩
  · unfold Marks.implementation Marks.reviews
    rw [hm]
    exact hs.proper.reviewed

/-- A reviewed task that was built, and merged if it has a worktree. -/
theorem Reviewed.concluded {outcome : TaskOutcome} {integrations : List Bool} {e : Evidence}
    (hs : Reviewed node s) (he : e.isBuild = true) (hsucceeded : outcome.succeeded = true)
    (hmerged : g.worktrees = true → node.writeScope ≠ [] → true ∈ integrations) :
    Concluded g node outcome
      { s with
        state := .succeeded
        marks := { s.marks with integrations }
        evidence := s.evidence ++ [e] } where
  opened := hs.opened
  reserved := by rw [hs.marks]
  raised := by rw [hs.marks]
  cut := hs.cut
  ended := .succeeded hsucceeded rfl
  refused h := by rw [hs.marks] at h; cases h
  built := by simp [he]
  merged _ := hmerged
  pending hrisk _ hnone := by
    obtain ⟨e', hmem, he'⟩ := hs.pending hrisk hnone
    exact ⟨e', List.mem_append_left _ hmem, he'⟩

/-- A reviewed task whose branch could not be merged. -/
theorem Reviewed.concluded_conflict {outcome : TaskOutcome} {e : Evidence} (hs : Reviewed node s)
    (he : e.isBuild = false) (hsucceeded : outcome.succeeded = false) :
    Concluded g node outcome
      { s with
        state := .failed
        marks := { s.marks with integrations := [false] }
        evidence := s.evidence ++ [e] } where
  opened := hs.opened
  reserved := by rw [hs.marks]
  raised := by rw [hs.marks]
  cut := hs.cut
  ended := .failed hsucceeded rfl (by simp [Marks.troubled])
  refused h := by rw [hs.marks] at h; cases h
  built := (exists_build_append hs.unbuilt).trans (by simp [he])
  merged := nofun
  pending hrisk _ hnone := by
    obtain ⟨e', hmem, he'⟩ := hs.pending hrisk hnone
    exact ⟨e', List.mem_append_left _ hmem, he'⟩

/-- **Merging**: the branch is merged and the task succeeds, or it is not and the task fails. -/
theorem wp_mergeTask {outcome : TaskOutcome} {worktree : Option Worktree} {attempt : Attempt}
    (hs : Reviewed node s) (hsucceeded : outcome.succeeded = false)
    (hworktree : g.worktrees = true → node.writeScope ≠ [] → worktree ≠ none) :
    wp (Share.contract t node) (g.mergeTask run (s.row t) outcome worktree attempt)
      (Concluded g node) (fun _ => Broken) s := by
  have hnone : s.marks.integrations = [] := by rw [hs.marks]
  unfold GoalRunner.mergeTask
  cases worktree with
  | none =>
      refine wp_passBuild hs.state hs.proper fun e he => ?_
      exact hs.concluded he rfl fun hg hscope => absurd rfl (hworktree hg hscope)
  | some worktree =>
      simp only [Prog.bind_eq, Prog.op_bind]
      apply wp_alone_call
      intro committed s' hs'
      simp only [act] at hs'
      split at hs'
      · cases hs'
        refine ⟨trivial, wp_outside ?_ ?_⟩
        · rintro _ rfl
          apply wp_alone_call
          intro answer s' hs'
          simp only [act] at hs'
          split at hs'
          · cases answer with
            | error e =>
                cases hs'
                exact ⟨hs.proper_of_heard rfl, hs.opened, .inl rfl⟩
            | ok integration =>
                cases hs'
                have hproper : ∀ integrations, Proper node { s.marks with integrations } s.evidence :=
                  fun _ => hs.proper_of_heard rfl
                refine ⟨hproper _, ?_⟩
                simp only [Prog.ofExcept_ok, Prog.ret_bind, Share.outside, hnone, List.nil_append]
                split
                · next hmerged =>
                    refine wp_passBuild hs.state (hproper _) fun e he => ?_
                    exact hs.concluded he rfl fun _ _ => by simp [merged, hmerged]
                · next hconflict =>
                    refine wp_failBuild hs.state (hproper _) fun e he => ?_
                    have hmerged : merged (.ok integration) = false := by simpa [merged] using hconflict
                    rw [hmerged]
                    exact hs.concluded_conflict he hsucceeded
          · cases hs'
        · rintro e rfl
          exact ⟨hs.opened, .inl rfl⟩
      · cases hs'

/-- A task whose implementation succeeded, with what its review has said so far. -/
theorem reviewed_of_implemented {hs rest : List Heard} {impl : Heard} {evidence : List Evidence}
    (hhs : Fruitless hs) (himpl : impl.succeeded = true) (hrest : ∀ h ∈ rest, h.succeeded = true)
    (hproper : Proper node { heard := hs ++ impl :: rest } evidence)
    (hunbuilt : ∀ e ∈ evidence, e.isBuild = false)
    (hpending : isHighRisk node = true → rest = [] → ∃ e ∈ evidence, e.isReview .pending = true) :
    Reviewed node { Share.tried (hs ++ impl :: rest) with evidence } where
  state := by simp [Share.tried]
  opened := rfl
  marks := rfl
  implemented := Marks.implemented_eq himpl
  reviews := by
    show ∀ h ∈ ({ heard := hs ++ impl :: rest } : Marks).reviews, _
    rw [Marks.reviews_eq hhs himpl]
    exact hrest
  proper := hproper
  unbuilt := hunbuilt
  pending := by
    show _ → ({ heard := hs ++ impl :: rest } : Marks).reviews = [] → _
    rw [Marks.reviews_eq hhs himpl]
    exact hpending

/-- A reviewer is a model of the roster, of another provider. -/
theorem ModelRouter.reviewer_mem {r : ModelRouter} {provider : String} {reviewer : ModelEntry}
    (h : r.selectHighRiskReviewer provider = some reviewer) :
    reviewer ∈ roster ∧ reviewer.provider ≠ provider := by
  unfold selectHighRiskReviewer at h
  have hcross : reviewer ∈ roster.filter fun m => m.provider ≠ provider && r.isReachable m := by
    have hmem := List.mem_of_mem_head? h
    split at hmem
    · exact hmem
    · exact List.mem_of_mem_filter hmem
  obtain ⟨hroster, hne⟩ := List.mem_filter.mp hcross
  simp only [ne_eq, Bool.and_eq_true, decide_eq_true_eq] at hne
  exact ⟨hroster, hne.1⟩

/-- What a review answers: the change may be merged, or its task fails. -/
def Answer (g : GoalRunner) (node : TaskNode) : Bool × TaskOutcome → Share → Prop
  | (true, outcome), s => outcome.succeeded = false ∧ Reviewed node s
  | (false, outcome), s => s.state = .running ∧ Concluded g node outcome { s with state := .failed }

/-- **A review**: only a reviewer of another provider that succeeds lets the change through. -/
theorem wp_review {outcome : TaskOutcome} {worktree : Option Worktree} {reviewer : ModelEntry}
    {hs : List Heard} {impl : Heard} (hhs : Fruitless hs) (himpl : impl.succeeded = true)
    (hprovider : outcome.provider = providerOf impl.model) (hsucceeded : outcome.succeeded = false)
    (hreviewer : reviewer ∈ ModelRouter.roster ∧ reviewer.provider ≠ outcome.provider) :
    wp (Share.contract t node)
      (g.review run ((Share.tried (hs ++ [impl])).row t) node outcome worktree reviewer)
      (Answer g node) (fun _ => Broken)
      { Share.tried (hs ++ [impl]) with
        marks := { (Share.tried (hs ++ [impl])).marks with reserved := true } } := by
  have happend : ∀ h : Heard, hs ++ [impl] ++ [h] = hs ++ impl :: [h] := by simp
  have hrunning : (Share.tried (hs ++ [impl])).state = .running := by simp [Share.tried]
  unfold GoalRunner.review
  simp only [Prog.bind_eq, Prog.pure_eq]
  apply wp_bind.mpr
  refine wp_execute rfl (.inr hrunning) rfl rfl rfl (fun h => Proper.of_nil rfl) ?_ ?_ ?_
  · intro result a h hmodel hresult hgone
    rw [Share.tried_append, hgone, happend]
    apply wp_bind.mpr
    apply wp_observe
    apply wp_bind.mpr
    -- what the reviewer said is recorded as it was
    cases hsuccess : result.success with
    | true =>
        have hh : h.succeeded = true := hresult.trans hsuccess
        have hproper : ∀ e : Evidence, Proper node { heard := hs ++ impl :: [h] } [e] := by
          intro e
          refine ⟨nofun, fun _ _ _ => ⟨impl, reviewer, Marks.implementation_eq hhs himpl, hreviewer.1, ?_⟩⟩
          rw [Marks.reviews_eq hhs himpl, ← hprovider]
          exact ⟨hreviewer.2, h, List.mem_singleton_self h, hmodel, hh⟩
        refine wp_recordGate (fun e _ _ _ _ => hproper e) fun e hgate _ hverdict => ?_
        refine ⟨hsucceeded, reviewed_of_implemented hhs himpl (by simpa using hh) (hproper e) ?_ nofun⟩
        simp [Evidence.isBuild, Share.tried, hgate]
    | false =>
        have hh : h.succeeded = false := hresult.trans hsuccess
        have hproper : ∀ e : Evidence, e.verdict = .failed → Proper node { heard := hs ++ impl :: [h] } [e] := by
          intro e hverdict
          refine ⟨nofun, fun e' he' hpassed => ?_⟩
          rw [List.mem_singleton.mp he'] at hpassed
          simp [Evidence.isReview, hverdict] at hpassed
        refine wp_recordGate (fun e _ _ hverdict _ => hproper e hverdict) fun e hgate _ hverdict => ?_
        refine ⟨by simp [Share.tried], ?_⟩
        exact {
          opened := rfl
          reserved := rfl
          raised := rfl
          cut := by
            show ({ heard := hs ++ impl :: [h] } : Marks).cut = false
            rw [Marks.cut, Marks.reviews_eq hhs himpl]
            simp [hgone]
          ended := .failed hsucceeded rfl (by simp [Marks.troubled, Share.tried, hh])
          refused := nofun
          built := by simp [Share.tried, Evidence.isBuild, hgate]
          merged := nofun
          pending := fun _ _ hnone => by
            have hreviews : ({ heard := hs ++ impl :: [h] } : Marks).reviews = [] := hnone
            rw [Marks.reviews_eq hhs himpl] at hreviews
            cases hreviews }
  · intro message
    exact ⟨rfl, .inl rfl⟩
  · intro h hgone
    rw [Share.tried_append, happend]
    refine ⟨rfl, .inr ?_⟩
    show ({ heard := hs ++ impl :: [h] } : Marks).cut = true
    rw [Marks.cut, Marks.reviews_eq hhs himpl]
    simp [hgone]

/-- The review of a high-risk task: where nobody can review it, that is what the evidence says. -/
theorem wp_crossProviderReview {outcome : TaskOutcome} {worktree : Option Worktree} {hs : List Heard}
    {impl : Heard} (hhs : Fruitless hs) (himpl : impl.succeeded = true)
    (hprovider : outcome.provider = providerOf impl.model) (hsucceeded : outcome.succeeded = false) :
    wp (Share.contract t node)
      (g.crossProviderReview run ((Share.tried (hs ++ [impl])).row t) node outcome worktree)
      (Answer g node) (fun _ => Broken) (Share.tried (hs ++ [impl])) := by
  -- no review: the change is let through, with evidence that the review is pending
  have hpending : ∀ detail, wp (Share.contract t node) (Prog.bind
      (recordGate run ((Share.tried (hs ++ [impl])).row t) .review .pending detail "review_comment")
      fun _ => Prog.ret (true, outcome)) (Answer g node) (fun _ => Broken)
      (Share.tried (hs ++ [impl])) := by
    intro detail
    have hproper : ∀ e : Evidence, e.verdict = .pending → Proper node { heard := hs ++ [impl] } [e] := by
      intro e hverdict
      exact (Proper.of_nil rfl : Proper node _ []).append (by simp [Evidence.isReview, hverdict])
    apply wp_bind.mpr
    refine wp_recordGate (fun e _ _ hverdict _ => hproper e hverdict) fun e hgate hkind hverdict => ?_
    refine ⟨hsucceeded, reviewed_of_implemented hhs himpl nofun (hproper e hverdict) ?_ ?_⟩
    · simp [Evidence.isBuild, Share.tried, hgate]
    · intro _ _
      exact ⟨e, by simp, by simp [Evidence.isReview, hgate, hkind, hverdict]⟩
  unfold GoalRunner.crossProviderReview
  simp only [Prog.bind_eq, Prog.op_bind, Prog.pure_eq]
  split
  · exact hpending _
  · next reviewer hreviewer =>
      apply wp_alone_call
      intro answer s' hs'
      refine ⟨trivial, ?_⟩
      cases answer with
      | error exc =>
          cases hs'
          have hsame : { Share.tried (hs ++ [impl]) with marks := { (Share.tried (hs ++ [impl])).marks with
              refused := (Share.tried (hs ++ [impl])).marks.refused ||
                (Share.tried (hs ++ [impl])).marks.heard.isEmpty } } = Share.tried (hs ++ [impl]) := by
            simp [Share.tried]
          rw [hsame]
          exact hpending _
      | ok _ =>
          cases hs'
          exact wp_review hhs himpl hprovider hsucceeded (ModelRouter.reviewer_mem hreviewer)

theorem wp_acceptTask {outcome : TaskOutcome} {worktree : Option Worktree} {attempt : Attempt}
    {hs : List Heard} {impl : Heard} (hhs : Fruitless hs) (himpl : impl.succeeded = true)
    (hprovider : outcome.provider = providerOf impl.model) (hsucceeded : outcome.succeeded = false)
    (hworktree : g.worktrees = true → node.writeScope ≠ [] → worktree ≠ none) :
    wp (Share.contract t node)
      (g.acceptTask run ((Share.tried (hs ++ [impl])).row t) node outcome worktree attempt)
      (Concluded g node) (fun _ => Broken) (Share.tried (hs ++ [impl])) := by
  have hrow : ∀ s' : Share, s'.state = .running → (Share.tried (hs ++ [impl])).row t = s'.row t := by
    intro s' hs'
    simp [Share.row, Share.tried, hs']
  unfold GoalRunner.acceptTask
  simp only [Prog.bind_eq, Prog.pure_eq]
  split
  · refine wp_seq (wp_crossProviderReview hhs himpl hprovider hsucceeded) ?_
    rintro ⟨accepted, outcome'⟩ s' hanswer
    cases accepted with
    | true =>
        rw [hrow s' hanswer.2.state]
        exact wp_mergeTask hanswer.2 hanswer.1 hworktree
    | false =>
        rw [hrow s' hanswer.1]
        apply wp_bind.mpr
        refine wp_moveTask rfl (by rw [hanswer.1]; rfl) (by rw [hanswer.1]; nofun) ?_
        exact hanswer.2
  · next hrisk =>
      refine wp_mergeTask ?_ hsucceeded hworktree
      show Reviewed node { Share.tried (hs ++ [impl]) with evidence := [] }
      exact reviewed_of_implemented hhs himpl nofun (Proper.of_nil rfl) nofun fun h => absurd h hrisk

/-- Fruitless attempts, or a request, before any attempt succeeded. -/
theorem concluded_of_unsuccessful {s : Share} {outcome : TaskOutcome} (heard : List Heard)
    (hheard : ∀ h ∈ heard, h.succeeded = false) (hopened : s.opened = none)
    (hmarks : s.marks = { heard, refused := s.marks.refused })
    (hended : Ended outcome.succeeded s) (hrefused : s.marks.refused = true → s.state = .ready)
    (hunbuilt : ∀ e ∈ s.evidence, e.isBuild = false) (hstate : s.state ≠ .succeeded) :
    Concluded g node outcome s := by
  have hunsuccessful := Marks.reviews_of_unsuccessful hheard
  exact {
    opened := hopened
    reserved := by rw [hmarks]
    raised := by rw [hmarks]
    cut := by
      rw [hmarks]
      show ({ heard } : Marks).reviews.any Heard.cancelled = false
      rw [hunsuccessful.1]
      rfl
    ended := hended
    refused := hrefused
    built := by
      refine ⟨fun ⟨e, he, hbuild⟩ => ?_, fun h => absurd h hstate⟩
      rw [hunbuilt e he] at hbuild
      cases hbuild
    merged := fun h => absurd h hstate
    pending := fun _ himplemented _ => by
      rw [hmarks] at himplemented
      exact absurd (hunsuccessful.2.symm.trans himplemented) nofun }

/-- What follows the fallback loop. -/
theorem wp_concludeTask {state : TaskState} {worktree : Option Worktree} {tried : GoalRunner.Tried}
    (htrial : Trial tried s) (hsucceeded : tried.2.succeeded = false)
    (hworktree : g.worktrees = true → node.writeScope ≠ [] → worktree ≠ none) :
    wp (Share.contract t node) (g.concludeTask run { t with state } node worktree tried)
      (Concluded g node) (fun _ => Broken) s := by
  unfold GoalRunner.concludeTask
  simp only [Prog.bind_eq, Prog.pure_eq]
  apply wp_bind.mpr
  apply wp_reload
  cases htrial with
  | @refused outcome hcancelled =>
      rw [hcancelled, if_neg nofun]
      dsimp only
      unfold GoalRunner.stopTask
      simp only [Prog.bind_eq, Prog.pure_eq]
      apply wp_bind.mpr
      refine wp_recordGate (fun e hgate _ _ _ => (Proper.of_nil rfl).append
        (by simp [Evidence.isReview, hgate])) fun e hgate _ hverdict => ?_
      -- the task is ready, not running: it is left as it is
      exact concluded_of_unsuccessful [] nofun rfl rfl (.refused hsucceeded rfl rfl)
        (fun _ => rfl) (by simp [Evidence.isBuild, hverdict]) nofun
  | @cancelled last outcome hs h hcancelled hhs hh =>
      have hunsuccessful : ∀ x ∈ hs ++ [h], x.succeeded = false := by
        intro x hx
        rcases List.mem_append.mp hx with hold | hlast
        · exact (hhs x hold).1
        · rw [List.mem_singleton.mp hlast]
          exact h.succeeded_of_cancelled hh
      have hrunning : (Share.tried (hs ++ [h])).state = .running := by simp [Share.tried]
      rw [hcancelled, if_pos rfl, if_pos (.inl hrunning)]
      apply wp_bind.mpr
      refine wp_moveTask rfl (by rw [hrunning]; rfl) (by rw [hrunning]; nofun) ?_
      exact concluded_of_unsuccessful _ hunsuccessful rfl rfl (.cancelled hsucceeded (.inl rfl) rfl)
        nofun nofun nofun
  | @failed result attempt outcome hs hcancelled hresult hhs hne =>
      have hunsuccessful : ∀ x ∈ hs, x.succeeded = false := fun x hx => (hhs x hx).1
      have hrunning : (Share.tried hs).state = .running := by simp [Share.tried, hne]
      rw [hcancelled, if_neg nofun]
      dsimp only
      rw [hresult, if_neg nofun]
      refine wp_failBuild hrunning (Proper.of_nil rfl) fun e he => ?_
      refine concluded_of_unsuccessful _ hunsuccessful rfl rfl (.failed hsucceeded rfl ?_) nofun
        (by simpa [Share.tried] using he) nofun
      obtain ⟨h, hh⟩ := List.exists_mem_of_ne_nil hs hne
      simp only [Marks.troubled, Bool.or_eq_true, List.any_eq_true]
      exact .inl ⟨h, hh, by simp [hunsuccessful h hh]⟩
  | @succeeded result attempt outcome hs h hcancelled hresult hhs hh hprovider =>
      rw [hcancelled, if_neg nofun]
      dsimp only
      rw [hresult, if_pos rfl]
      exact wp_acceptTask hhs hh hprovider hsucceeded hworktree

/-- The worktree of a task: there is one where the task writes and worktrees are used. -/
theorem wp_isolate {state : TaskState} {Q : Option Worktree → Share → Prop}
    (h : ∀ worktree, (g.worktrees = true → node.writeScope ≠ [] → worktree ≠ none) → Q worktree s)
    (hs : s.opened = none) :
    wp (Share.contract t node) (g.isolate run { t with state } node) Q (fun _ => Broken) s := by
  unfold GoalRunner.isolate
  simp only [Prog.bind_eq, Prog.op_bind, Prog.pure_eq]
  split
  · apply wp_alone_call
    intro answer s' hs'
    simp only [act] at hs'
    split at hs'
    · cases answer with
      | error e =>
          cases hs'
          exact ⟨trivial, hs, .inl rfl⟩
      | ok worktree =>
          cases hs'
          exact ⟨trivial, h (some worktree) nofun⟩
    · cases hs'
  · next hwhole =>
      refine h none fun hg hscope => ?_
      simp [hg, WorktreePolicy.requiresIsolation, List.length_pos_iff, hscope] at hwhole

/-- **`_run_task`, alone**: from the share of a task nothing has happened to, it returns with the task
concluded or raises with a cause. -/
theorem wp_runTask {task : Task} (hrun : run.id = task.runId) (hplanned : task.state = .planned) :
    wp (Share.contract task node) (g.runTask run (task, node)) (Concluded g node) (fun _ => Broken)
      {} := by
  have htask : task = { task with state := .planned } := by rw [← hplanned]
  unfold GoalRunner.runTask
  simp only [Prog.bind_eq, Prog.op_bind, Prog.pure_eq]
  apply wp_alone_call
  intro requested s' hs'
  simp only [act, if_pos hrun] at hs'
  cases hs'
  refine ⟨⟨hrun, nofun⟩, ?_⟩
  cases requested with
  | true =>
      exact concluded_of_unsuccessful [] nofun rfl rfl (.cancelled rfl (.inr rfl) rfl)
        nofun nofun nofun
  | false =>
      have hrest : wp (Share.contract task node)
          (Prog.bind (Scheduler.markTaskReady g.projectId task) fun ready =>
            Prog.bind (g.isolate run ready node) fun worktree =>
              Prog.bind (g.attemptWithFallback run ready node (g.router.route (roleFor node))
                { taskId := task.id, objective := task.objective, worktree }) fun tried =>
                g.concludeTask run ready node worktree tried)
          (Concluded g node) (fun _ => Broken) {} := by
        apply wp_bind.mpr
        unfold Scheduler.markTaskReady
        rw [htask]
        refine wp_moveTask rfl (by rfl) nofun ?_
        apply wp_bind.mpr
        refine wp_isolate (fun worktree hworktree => ?_) rfl
        unfold GoalRunner.attemptWithFallback
        have hsome := g.router.fallbackCandidates_ne_nil (g.router.route (roleFor node))
        refine wp_seq (wp_tryCandidates (l := []) hrun (fun candidate hcandidate => ?_) (.inl ?_)
          nofun rfl rfl rfl) fun tried s htried => ?_
        · exact ModelRouter.providerOf_candidate (List.mem_of_mem_take hcandidate)
        · -- at least one candidate is tried
          have hlength := List.length_pos_iff.mpr hsome
          rw [Ne, List.take_eq_nil_iff]
          rintro (hzero | hnil)
          · omega
          · exact hsome hnil
        · exact wp_concludeTask htried.1 htried.2 hworktree
      rw [if_neg nofun]
      split
      · exact wp_idle (fun _ => rfl) (fun _ => trivial) fun _ => hrest
      · exact hrest

end Conclude

end AtlasFlow.Reference
