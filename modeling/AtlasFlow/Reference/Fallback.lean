import Mathlib.Data.List.ReduceOption
import AtlasFlow.Reference.Asides
import AtlasFlow.Reference.Outcomes

/-!
# The fallback loop

Which models `_attempt_with_fallback` tries, in which order, when it stops, and what it hands back. The
loop is watched by a listener that writes down the refusals of the budget, the attempts started, what
their runners answer and how they are closed.
-/

namespace AtlasFlow.Reference

open Concurrency

/-! ## The candidates -/

namespace ModelRouter

variable {r : ModelRouter} {decision : RouteDecision} {tried tried' : List (Option ModelEntry)}

/-- A decision made from candidates with distinct keys: it selects one that is reachable, or none because
none is. -/
structure Decided (r : ModelRouter) (decision : RouteDecision) : Prop where
  distinct : (decision.candidates.map ModelEntry.key).Nodup
  selected : ∀ m, decision.selected = some m → m ∈ decision.candidates ∧ r.isReachable m = true
  unselected : decision.selected = none → ∀ m ∈ decision.candidates, r.isReachable m = false

/-- The candidates that are reachable. -/
def reachable (r : ModelRouter) (decision : RouteDecision) : List ModelEntry :=
  decision.candidates.filter r.isReachable

/-- Models in the order of the router: distinct and reachable, the selected one first, then the others in
the order of preference; the default model only if nothing is reachable. -/
structure Preferred (r : ModelRouter) (decision : RouteDecision) (tried : List (Option ModelEntry)) : Prop where
  distinct : (tried.map (Option.map ModelEntry.key)).Nodup
  reachable : ∀ m, some m ∈ tried → m ∈ r.reachable decision
  default : none ∈ tried → r.reachable decision = []
  first : ∀ candidate, tried.head? = some candidate → candidate = decision.selected
  others : tried.tail.reduceOption.Sublist decision.candidates

theorem Preferred.of_prefix (h : Preferred r decision tried) (htried : tried' <+: tried) :
    Preferred r decision tried' := by
  refine ⟨h.distinct.sublist (htried.map _).sublist, fun m hm => h.reachable m (htried.subset hm),
    fun hnone => h.default (htried.subset hnone), fun candidate hhead => ?_, ?_⟩
  · cases tried' with
    | nil => cases hhead
    | cons c rest =>
        obtain ⟨more, rfl⟩ := htried
        exact h.first candidate hhead
  · exact (htried.sublist.tail.filterMap _).trans h.others

/-- The candidates in the order they are tried are the reachable ones, the selected one moved to the front. -/
theorem Decided.perm (h : Decided r decision) {m : ModelEntry} (hselected : decision.selected = some m) :
    (m :: (r.reachable decision).filter fun candidate => candidate.key ≠ m.key).Perm (r.reachable decision) := by
  obtain ⟨hmem, hreachable⟩ := h.selected m hselected
  have hm : m ∈ r.reachable decision := List.mem_filter.mpr ⟨hmem, hreachable⟩
  have hnodup : (r.reachable decision).Nodup := (List.Nodup.of_map _ h.distinct).filter _
  have herase : ((r.reachable decision).filter fun candidate => candidate.key ≠ m.key) =
      (r.reachable decision).erase m := by
    rw [hnodup.erase_eq_filter]
    refine List.filter_congr fun x hx => ?_
    have hkey : x.key = m.key ↔ x = m :=
      ⟨fun heq => List.inj_on_of_nodup_map h.distinct (List.mem_of_mem_filter hx) hmem heq, congrArg _⟩
    by_cases heq : x = m <;> simp [hkey, heq]
  rw [herase]
  exact (List.perm_cons_erase hm).symm

theorem Decided.candidates_default (h : Decided r decision) (hselected : decision.selected = none) :
    r.reachable decision = [] ∧ r.fallbackCandidates decision = [none] := by
  have hempty : decision.candidates.filter r.isReachable = [] := List.filter_eq_nil_iff.mpr fun m hm => by
    simp [h.unselected hselected m hm]
  refine ⟨hempty, ?_⟩
  simp only [fallbackCandidates, hselected]
  rw [if_pos hempty]

theorem candidates_selected {m : ModelEntry} (hselected : decision.selected = some m) :
    r.fallbackCandidates decision =
      (m :: (r.reachable decision).filter fun candidate => candidate.key ≠ m.key).map some := by
  simp only [fallbackCandidates, hselected]
  rw [if_neg (List.cons_ne_nil _ _)]
  rfl

/-- **The candidates are tried in order.** -/
theorem Decided.preferred (h : Decided r decision) : Preferred r decision (r.fallbackCandidates decision) := by
  cases hselected : decision.selected with
  | none =>
      obtain ⟨hempty, hcandidates⟩ := h.candidates_default hselected
      rw [hcandidates]
      refine ⟨List.nodup_singleton _, fun m hm => ?_, fun _ => hempty, fun candidate hhead => ?_, List.nil_sublist _⟩
      · cases List.mem_singleton.mp hm
      · cases hhead
        exact hselected.symm
  | some m =>
      have hperm := h.perm hselected
      have hkeys : ((r.reachable decision).map ModelEntry.key).Nodup :=
        h.distinct.sublist (List.filter_sublist.map _)
      rw [candidates_selected hselected]
      refine ⟨?_, fun m' hm => ?_, fun hnone => ?_, fun candidate hhead => ?_, ?_⟩
      · rw [List.map_map, show Option.map ModelEntry.key ∘ some = some ∘ ModelEntry.key from rfl, ← List.map_map]
        exact ((hperm.map _).nodup_iff.mpr hkeys).map (Option.some_injective _)
      · obtain ⟨m'', hmem, heq⟩ := List.mem_map.mp hm
        cases heq
        exact hperm.subset hmem
      · obtain ⟨m'', _, heq⟩ := List.mem_map.mp hnone
        cases heq
      · cases hhead
        exact hselected.symm
      · rw [List.map_cons, List.tail_cons, List.reduceOption, List.filterMap_map, Function.id_comp, List.filterMap_some]
        exact List.filter_sublist.trans List.filter_sublist

/-- There are as many as are reachable, and at least one. -/
theorem Decided.length (h : Decided r decision) :
    (r.fallbackCandidates decision).length = max 1 (r.reachable decision).length := by
  cases hselected : decision.selected with
  | none =>
      obtain ⟨hempty, hcandidates⟩ := h.candidates_default hselected
      rw [hcandidates, hempty]
      rfl
  | some m =>
      have hlength := (h.perm hselected).length_eq
      rw [candidates_selected hselected, List.length_map, ← hlength, List.length_cons]
      omega

/-- The router decides so, for every role. -/
theorem route_decided (r : ModelRouter) (role : String) : Decided r (r.route role) := by
  have horders : ∀ order ∈ ["deepseek-v4-pro", "mimo-v2.5-pro", "gpt-5.6-luna"] :: roleDefaults.map Prod.snd,
      ((order.filterMap modelByKey.get?).map ModelEntry.key).Nodup := by
    decide +kernel
  have hdistinct : ((((roleDefaults.get? role).getD
      ["deepseek-v4-pro", "mimo-v2.5-pro", "gpt-5.6-luna"]).filterMap modelByKey.get?).map ModelEntry.key).Nodup := by
    apply horders
    cases horder : roleDefaults.get? role with
    | none => exact List.mem_cons_self
    | some order => exact List.mem_cons_of_mem _ (List.mem_map_of_mem (Dict.mem_of_get? horder))
  unfold route
  dsimp only
  split
  · next candidate idx hfind =>
      refine ⟨hdistinct, fun m hm => ?_, nofun⟩
      cases hm
      have hmem := List.mem_of_find?_eq_some hfind
      exact ⟨(List.mem_zipIdx hmem).2.2 ▸ List.getElem_mem _, by simpa using List.find?_some hfind⟩
  · next hfind =>
      refine ⟨hdistinct, nofun, fun _ m hm => ?_⟩
      obtain ⟨i, hi, rfl⟩ := List.getElem_of_mem hm
      have := List.find?_eq_none.mp hfind (_, i) (List.mk_mem_zipIdx_iff_getElem?.mpr (List.getElem?_eq_getElem hi))
      simpa using this

end ModelRouter

/-! ## What the loop does -/

namespace Fallback

/-- What happens of which the loop takes notice. -/
inductive Event
  | refused (e : BudgetExceeded)
  | started (model : String)
  | answered (answer : Except PyExn RunnerResult)
  | closed (attempt : Attempt)

namespace Event

/-- The model of an attempt that is started. -/
def model : Event → Option String
  | .started model => some model
  | _ => none

/-- The result the harness makes of a runner's answer. A cancelled attempt has none. -/
def result : Event → Option RunnerResult
  | .answered (.ok result) => some result
  | .answered (.error .cancelledError) => none
  | .answered (.error exc) => some { success := false, error := exc.str }
  | _ => none

/-- An attempt that is closed, and not because it was cancelled. -/
def attempt : Event → Option Attempt
  | .closed attempt => if attempt.state = .cancelled then none else some attempt
  | _ => none

/-- The budget refuses, an attempt succeeds or it is cancelled. -/
def stops : Event → Bool
  | .refused _ => true
  | .answered (.ok result) => result.success
  | .answered (.error .cancelledError) => true
  | _ => false

end Event

/-- What is noticed of a write of an attempt's row. -/
def written (attempt : Attempt) : Option Event :=
  if attempt.state = .starting then some (.started (attempt.modelId.getD ""))
  else if attempt.state.isTerminal then some (.closed attempt)
  else none

/-- What is noticed of a call with its answer. -/
def event : (o : Op) → Ret o → Option Event
  | .reserveAttempt, .error e => some (.refused e)
  | .commitAttempt attempt _, _ => written attempt
  | .awaitRunner _, answer => some (.answered answer)
  | _, _ => none

/-- What is noticed of calls with their answers. -/
def events (h : List ((o : Op) × Ret o)) : List Event := h.filterMap fun x => event x.1 x.2

/-- The models of the attempts started, in order. -/
def models (es : List Event) : List String := es.filterMap Event.model

/-- Nothing is started after the loop has been stopped. -/
def Stops (es : List Event) : Prop := es.Pairwise fun earlier later => earlier.stops = true → later.model = none

/-- The pair of the last attempt that was not cancelled, or nothing. -/
def Last (es : List Event) (last : Option (RunnerResult × Attempt)) : Prop :=
  last.map Prod.fst = (es.filterMap Event.result).getLast? ∧
    last.map Prod.snd = (es.filterMap Event.attempt).getLast?

/-- The id a candidate is run with. -/
def modelId (candidate : Option ModelEntry) : String := (candidate.map ModelEntry.commandCodeId).getD "default"

/-- It writes down what is noticed. -/
def listener : Monitor Op Ret (List Event) where
  next o es r := es ++ (event o r).toList
  allows _ _ := True

theorem listener_ignores (o : Op) (ho : o.Aside) : listener.Ignores o := by
  intro es
  cases o <;> first | exact ⟨trivial, fun _ => List.append_nil _⟩ | exact absurd ho id

/-- The rule for a call that is not noticed. -/
theorem wp_unnoticed {α : Type} {o : Op} {k : Ret o → Program α} {Q : α → List Event → Prop}
    {F : PyExn → List Event → Prop} {es : List Event} (ho : ∀ r, event o r = none)
    (hk : ∀ r, wp listener.contract (k r) Q F es) : wp listener.contract (.call o k) Q F es := by
  refine Monitor.wp_call trivial fun r => ?_
  show wp listener.contract (k r) Q F (es ++ (event o r).toList)
  rw [ho r, Option.toList_none, List.append_nil]
  exact hk r

/-- The listener has written down the events. -/
theorem read_listener (h : List ((o : Op) × Ret o)) (es : List Event) : listener.read es h = es ++ events h := by
  induction h generalizing es with
  | nil => exact (List.append_nil _).symm
  | cons x h ih =>
      show listener.read (es ++ (event x.1 x.2).toList) h = _
      rw [ih, List.append_assoc]
      cases hx : event x.1 x.2 <;> simp [events, hx]

/-! ### One attempt -/

section Attempts

variable {es : List Event} {attempt : Attempt} {projectId model : String}

/-- What an attempt leaves when an exception escapes from it. -/
structure Broken (model : String) (e : PyExn) (es : List Event) : Prop where
  models : models es <+: [model]
  stops : Stops es
  cancelled : e = .cancelledError → es.filterMap Event.result = [] ∧ es.filterMap Event.attempt = []

/-- What an attempt leaves that comes to a result. -/
def Answered (model : String) (result : RunnerResult) (attempt : Attempt) (es : List Event) : Prop :=
  ∃ answer, es = [.started model, .answered answer, .closed attempt] ∧
    (Event.answered answer).result = some result ∧ attempt.state ≠ .cancelled

theorem wp_moveAttempt {toState : AttemptState} {type : EventType} {Q : Attempt → List Event → Prop}
    {F : PyExn → List Event → Prop} (hraise : ∀ message, F (.invalidTransition message) es)
    (hreturn : Q { attempt with state := toState } (es ++ (written { attempt with state := toState }).toList)) :
    wp listener.contract (Harness.moveAttempt projectId attempt toState type) Q F es := by
  unfold Harness.moveAttempt newEvent Persistence.recordAttemptTransition Persistence.guard
  refine wp_unnoticed (fun _ => rfl) fun made => ?_
  simp only [Prog.ret_bind, Prog.bind_eq, Prog.pure_eq]
  split
  · refine Monitor.wp_call trivial fun _ => wp_unnoticed (fun _ => rfl) fun _ => ?_
    exact hreturn
  · exact hraise _

theorem wp_closeAttempt {state : AttemptState} {type : EventType} {error : String} {Q : Attempt → List Event → Prop}
    {F : PyExn → List Event → Prop} (hterminal : state.isTerminal = true)
    (hraise : ∀ message, F (.invalidTransition message) es)
    (hreturn : ∀ closed : Attempt, closed.state = state → Q closed (es ++ [.closed closed])) :
    wp listener.contract (Harness.closeAttempt projectId attempt state type error) Q F es := by
  refine wp_unnoticed (fun _ => rfl) fun completedAt => wp_moveAttempt hraise ?_
  have hstate : state ≠ .starting := by
    rintro rfl
    cases hterminal
  rw [written, if_neg hstate, if_pos hterminal]
  exact hreturn _ rfl

theorem wp_endAttempt {taskId : TaskId} {answer : Except PyExn RunnerResult}
    {Q : RunnerResult × Attempt → List Event → Prop} {F : PyExn → List Event → Prop}
    (hreturn : ∀ result (closed : Attempt), (Event.answered answer).result = some result → closed.state ≠ .cancelled →
      Q (result, closed) (es ++ [.closed closed]))
    (hcancelled : answer = .error .cancelledError → ∀ closed : Attempt, closed.state = .cancelled →
      F .cancelledError (es ++ [.closed closed]))
    (hraise : ∀ message, F (.invalidTransition message) es) :
    wp listener.contract (Harness.endAttempt projectId taskId attempt answer) Q F es := by
  unfold Harness.endAttempt
  split
  · refine wp_unnoticed (fun _ => rfl) fun cancelled => ?_
    simp only [Prog.ret_bind]
    refine wp_bind.mpr (wp_closeAttempt rfl hraise fun closed hclosed => ?_)
    exact hcancelled rfl closed hclosed
  · next exc hexc =>
      refine wp_bind.mpr (wp_closeAttempt rfl hraise fun closed hclosed => ?_)
      refine hreturn _ closed ?_ (by rw [hclosed]; nofun)
      cases exc <;> first | rfl | exact absurd rfl hexc
  · next result =>
      split
      · refine wp_bind.mpr (wp_closeAttempt rfl hraise fun closed hclosed => ?_)
        exact hreturn result closed rfl (by rw [hclosed]; nofun)
      · refine wp_bind.mpr (wp_closeAttempt rfl hraise fun closed hclosed => ?_)
        exact hreturn result closed rfl (by rw [hclosed]; nofun)

/-- What the harness does of which the loop takes notice. -/
theorem wp_execute {runnerName prompt : String} {task : Task} {config : RunnerConfig}
    {Q : RunnerResult × Attempt → List Event → Prop} {F : PyExn → List Event → Prop}
    (hreturn : ∀ result closed es', Answered config.model result closed es' → Q (result, closed) (es ++ es'))
    (hraise : ∀ e es', Broken config.model e es' → F e (es ++ es')) :
    wp listener.contract (Harness.execute projectId runnerName task prompt config) Q F es := by
  have hnone : ∀ e, e ≠ .cancelledError → F e es := by
    intro e he
    rw [← List.append_nil es]
    exact hraise e [] ⟨List.nil_prefix, .nil, fun h => absurd h he⟩
  have hstarted : ∀ e, e ≠ .cancelledError → F e (es ++ [.started config.model]) :=
    fun e he => hraise e _ ⟨List.prefix_rfl, List.pairwise_singleton _ _, fun h => absurd h he⟩
  unfold Harness.execute
  refine wp_unnoticed (fun _ => rfl) fun resolved => ?_
  simp only [Prog.ret_bind]
  split
  · refine wp_seq (M := fun _ v => v = es ++ [.started config.model]) ?_ ?_
    · unfold Harness.startAttempt
      refine wp_unnoticed (fun _ => rfl) fun made => wp_unnoticed (fun _ => rfl) fun _ => ?_
      simp only [Prog.ret_bind]
      refine wp_bind.mpr (wp_moveAttempt (fun _ => hnone _ nofun) ?_)
      rw [written, if_pos rfl]
      refine wp_unnoticed (fun _ => rfl) fun startedAt => wp_moveAttempt (fun _ => hstarted _ nofun) ?_
      exact List.append_nil _
    · rintro attempt _ rfl
      have hrest : wp listener.contract (Prog.call (.startRunner task.id prompt config) fun _ =>
          Prog.call (.awaitRunner task.id) fun answer => Harness.endAttempt projectId task.id attempt answer) Q F
          (es ++ [.started config.model]) := by
        refine wp_unnoticed (fun _ => rfl) fun _ => Monitor.wp_call trivial fun answer => ?_
        rw [show listener.next (.awaitRunner task.id) _ answer = es ++ [.started config.model, .answered answer] by
          simp [listener, event]]
        refine wp_endAttempt (fun result closed hresult hclosed => ?_) (fun hanswer closed hclosed => ?_) fun message => ?_
        · rw [List.append_assoc]
          exact hreturn result closed _ ⟨answer, rfl, hresult, hclosed⟩
        · subst hanswer
          rw [List.append_assoc]
          refine hraise _ _ ⟨List.prefix_rfl, ?_, fun _ => ⟨rfl, ?_⟩⟩
          · simp [Stops, Event.model]
          · simp [Event.attempt, hclosed]
        · refine hraise _ _ ⟨List.prefix_rfl, ?_, nofun⟩
          simp [Stops, Event.model]
      split
      · refine wp_unnoticed (fun _ => rfl) fun made => ?_
        simp only [Prog.ret_bind, Prog.bind_eq, Prog.pure_eq]
        unfold Persistence.recordTaskTransition Persistence.guard
        split
        · exact wp_unnoticed (fun _ => rfl) fun _ => wp_unnoticed (fun _ => rfl) fun _ => hrest
        · exact hstarted _ nofun
      · exact hrest
  · exact hnone _ nofun

end Attempts

/-! ### The loop -/

section Loop

variable {g : GoalRunner} {run : Run} {node : TaskNode} {es : List Event}

/-- An attempt of the loop. A cancelled one comes to no result. -/
theorem wp_attempt {task : Task} {model : String} {Q : Except String (RunnerResult × Attempt) → List Event → Prop}
    {F : PyExn → List Event → Prop}
    (hreturn : ∀ result closed es', Answered model result closed es' → Q (.ok (result, closed)) (es ++ es'))
    (hcancelled : ∀ reason es', Broken model .cancelledError es' → Q (.error reason) (es ++ es'))
    (hraise : ∀ e es', Broken model e es' → F e (es ++ es')) :
    wp listener.contract (g.attempt run task node model) Q F es := by
  unfold GoalRunner.attempt
  refine wp_handle.mpr (wp_bind.mpr (wp_execute hreturn fun e es' hbroken => ?_))
  split
  · refine wp_unnoticed (fun _ => rfl) fun requested => ?_
    simp only [Prog.ret_bind]
    split
    · exact wp_unnoticed (fun _ => rfl) fun reason => hcancelled reason es' hbroken
    · exact hraise _ es' hbroken
  · exact hraise _ es' hbroken

/-- What the loop has done when it ends: it has tried some first of the candidates, in order, and nothing
after it was stopped. -/
def Walked (candidates : List (Option ModelEntry)) (es : List Event) : Prop :=
  (∃ tried, tried <+: candidates ∧ models es = tried.map modelId) ∧ Stops es

theorem models_append (es es' : List Event) : models (es ++ es') = models es ++ models es' :=
  List.filterMap_append

/-- What has not been stopped goes on. -/
theorem Stops.append {es' : List Event} (hes : ∀ x ∈ es, x.stops = false) (hes' : Stops es') : Stops (es ++ es') := by
  refine List.pairwise_append.mpr ⟨?_, hes', fun x hx _ _ hstops => ?_⟩
  · exact List.pairwise_iff_forall_sublist.mpr fun hsub hstops => by
      rw [hes _ (hsub.subset List.mem_cons_self)] at hstops
      cases hstops
  · rw [hes x hx] at hstops
    cases hstops

/-- What an attempt at the next candidate leaves, whether it comes to a result or not. -/
theorem Walked.of_broken {candidates done rest : List (Option ModelEntry)} {candidate : Option ModelEntry}
    {es' : List Event} (hall : candidates = done ++ candidate :: rest) (hes : ∀ x ∈ es, x.stops = false)
    (hmodels : models es = done.map modelId) (htried : models es' <+: [modelId candidate]) (hes' : Stops es') :
    Walked candidates (es ++ es') := by
  refine ⟨?_, .append hes hes'⟩
  rw [models_append, hmodels]
  rcases List.prefix_cons_iff.mp htried with hnone | ⟨more, hsome, hmore⟩
  · refine ⟨done, ⟨candidate :: rest, hall.symm⟩, ?_⟩
    rw [hnone, List.append_nil]
  · rw [List.prefix_nil.mp hmore] at hsome
    refine ⟨done ++ [candidate], ⟨rest, by rw [hall, List.append_assoc]; rfl⟩, ?_⟩
    rw [hsome, List.map_append]
    rfl

/-- The pair of the last attempt is what an attempt that comes to a result hands back. -/
theorem Last.of_answered {model : String} {result : RunnerResult} {closed : Attempt} {es' : List Event}
    (h : Answered model result closed es') : Last (es ++ es') (some (result, closed)) := by
  obtain ⟨answer, rfl, hresult, hclosed⟩ := h
  have hresults : [Event.started model, .answered answer, .closed closed].filterMap Event.result = [result] := by
    rw [List.filterMap_cons_none rfl, List.filterMap_cons_some hresult]
    rfl
  have hattempts : [Event.started model, .answered answer, .closed closed].filterMap Event.attempt = [closed] := by
    rw [List.filterMap_cons_none rfl, List.filterMap_cons_none rfl,
      List.filterMap_cons_some (show Event.attempt (.closed closed) = some closed from if_neg hclosed)]
    rfl
  constructor
  · rw [List.filterMap_append, hresults, List.getLast?_concat]
    rfl
  · rw [List.filterMap_append, hattempts, List.getLast?_concat]
    rfl

/-- An answer that comes to a failure does not stop the loop. -/
theorem stops_answered {answer : Except PyExn RunnerResult} {result : RunnerResult}
    (hresult : (Event.answered answer).result = some result) (hfailed : result.success = false) :
    (Event.answered answer).stops = false := by
  cases answer with
  | ok answered =>
      cases hresult
      exact hfailed
  | error e => cases e <;> first | rfl | cases hresult

/-- What comes to no result changes nothing in what the last attempt was. -/
theorem Last.append {last : Option (RunnerResult × Attempt)} {es' : List Event} (h : Last es last)
    (hresult : es'.filterMap Event.result = []) (hattempt : es'.filterMap Event.attempt = []) : Last (es ++ es') last := by
  constructor
  · rw [List.filterMap_append, hresult, List.append_nil]
    exact h.1
  · rw [List.filterMap_append, hattempt, List.append_nil]
    exact h.2

/-- **The loop.** The induction is on the candidates that are left; `done` have been tried without success. -/
theorem wp_tryCandidates {candidates done rest : List (Option ModelEntry)} {limit index : Nat} {task : Task}
    {last : Option (RunnerResult × Attempt)} {outcome : TaskOutcome} (hall : candidates = done ++ rest)
    (hes : ∀ x ∈ es, x.stops = false) (hmodels : models es = done.map modelId) (hlast : Last es last) :
    wp listener.contract (g.tryCandidates run node limit rest index task (last, outcome))
      (fun tried es => Walked candidates es ∧ Last es tried.1) (fun _ es => Walked candidates es) es := by
  induction rest generalizing done index task last outcome es with
  | nil =>
      rw [List.append_nil] at hall
      refine ⟨⟨⟨done, hall ▸ List.prefix_rfl, hmodels⟩, ?_⟩, hlast⟩
      rw [← List.append_nil es]
      exact .append hes .nil
  | cons candidate rest ih =>
      unfold GoalRunner.tryCandidates
      simp only [Prog.bind_eq, Prog.op_bind, Prog.pure_eq]
      refine Monitor.wp_call trivial fun answer => ?_
      cases answer with
      | error exc =>
          show Walked candidates (es ++ [.refused exc]) ∧ Last (es ++ [.refused exc]) last
          exact ⟨.of_broken hall hes hmodels List.nil_prefix (List.pairwise_singleton _ _), hlast.append rfl rfl⟩
      | ok _ =>
          rw [show listener.next .reserveAttempt es (.ok _) = es from List.append_nil es]
          refine wp_bind.mpr (wp_attempt ?_ ?_ ?_)
          · intro result closed es' hanswered
            obtain ⟨answer, rfl, hresult, hclosed⟩ := id hanswered
            have hstops : Stops [.started (modelId candidate), .answered answer, .closed closed] := by
              simp [Stops, Event.model]
            have hwalked := Walked.of_broken hall hes hmodels List.prefix_rfl hstops
            refine Monitor.wp_calls_bind ((g.observe_calls ..).mono listener_ignores) (fun _ => hwalked) fun _ => ?_
            split
            · exact ⟨hwalked, .of_answered hanswered⟩
            · next hfailed =>
                refine Monitor.wp_calls_bind ((reload_calls _).mono listener_ignores) (fun _ => hwalked) fun task => ?_
                have hgoing : ∀ x ∈ es ++ [.started (modelId candidate), .answered answer, .closed closed],
                    x.stops = false := by
                  intro x hx
                  rcases List.mem_append.mp hx with hold | hnew
                  · exact hes x hold
                  · simp only [List.mem_cons, List.not_mem_nil, or_false] at hnew
                    rcases hnew with rfl | rfl | rfl
                    · rfl
                    · exact stops_answered hresult (by simpa using hfailed)
                    · rfl
                have hnext : models (es ++ [.started (modelId candidate), .answered answer, .closed closed]) =
                    (done ++ [candidate]).map modelId := by
                  rw [models_append, hmodels, List.map_append]
                  rfl
                have hall' : candidates = (done ++ [candidate]) ++ rest := by rw [hall, List.append_assoc]; rfl
                split
                · refine Monitor.wp_calls_bind ((Scheduler.moveTask_calls ..).mono listener_ignores) (fun _ => hwalked)
                    fun task => ?_
                  exact ih hall' hgoing hnext (.of_answered hanswered)
                · exact ih hall' hgoing hnext (.of_answered hanswered)
          · intro reason es' hbroken
            obtain ⟨hresult, hattempt⟩ := hbroken.cancelled rfl
            exact ⟨.of_broken hall hes hmodels hbroken.models hbroken.stops, hlast.append hresult hattempt⟩
          · intro e es' hbroken
            exact .of_broken hall hes hmodels hbroken.models hbroken.stops

/-- The loop is bounded, ordered and stops: the models tried are in the order of the router, there are no more
of them than reachable candidates, nor than the configuration allows, and nothing is started after a success,
a refusal of the budget or a cancellation. -/
structure Bounded (g : GoalRunner) (decision : RouteDecision) (es : List Event) : Prop where
  tried : ∃ tried, models es = tried.map modelId ∧ g.router.Preferred decision tried ∧
    tried.length ≤ min (max 1 (g.router.reachable decision).length) (1 + g.maxFallbackAttempts.toNat)
  stops : Stops es

variable (g run node) in
/-- The whole loop, from its first candidate. -/
theorem wp_attemptWithFallback (task : Task) (decision : RouteDecision) (outcome : TaskOutcome) :
    wp listener.contract (g.attemptWithFallback run task node decision outcome)
      (fun tried es => Walked ((g.router.fallbackCandidates decision).take
        (min (g.router.fallbackCandidates decision).length (1 + g.maxFallbackAttempts.toNat))) es ∧ Last es tried.1)
      (fun _ es => Walked ((g.router.fallbackCandidates decision).take
        (min (g.router.fallbackCandidates decision).length (1 + g.maxFallbackAttempts.toNat))) es) [] :=
  wp_tryCandidates (List.nil_append _).symm (fun _ hx => absurd hx List.not_mem_nil) rfl ⟨rfl, rfl⟩

/-- The candidates of the loop are in order, and not too many. -/
theorem Walked.bounded {decision : RouteDecision} (hdecided : g.router.Decided decision)
    (h : Walked ((g.router.fallbackCandidates decision).take
      (min (g.router.fallbackCandidates decision).length (1 + g.maxFallbackAttempts.toNat))) es) :
    Bounded g decision es := by
  obtain ⟨⟨tried, hprefixed, hmodels⟩, hstops⟩ := h
  refine ⟨⟨tried, hmodels, hdecided.preferred.of_prefix (hprefixed.trans (List.take_prefix _ _)), ?_⟩, hstops⟩
  have hle := hprefixed.length_le
  rw [List.length_take, hdecided.length] at hle
  omega

end Loop

end Fallback

open Fallback in
/-- **The fallback loop is bounded, ordered and stops**, and it hands back the pair of the last attempt that
was not cancelled. -/
theorem fallback_bounded (g : GoalRunner) (run : Run) (task : Task) (node : TaskNode) (decision : RouteDecision)
    (outcome : TaskOutcome) (out : Except PyExn GoalRunner.Tried) (h : List ((o : Op) × Ret o))
    (hdecided : g.router.Decided decision)
    (hruns : Prog.Runs Prog.recording (g.attemptWithFallback run task node decision outcome) [] out h) :
    Bounded g decision (events h) ∧ ∀ tried, out = .ok tried → Last (events h) tried.1 := by
  obtain ⟨hreturned, hraised⟩ := Monitor.wp_recorded (wp_attemptWithFallback g run node task decision outcome) hruns
  have hread : listener.read [] h = events h := read_listener h []
  rw [hread] at hreturned hraised
  constructor
  · cases out with
    | ok tried => exact (hreturned tried rfl).1.bounded hdecided
    | error e => exact (hraised e rfl).bounded hdecided
  · rintro tried rfl
    exact (hreturned tried rfl).2

/-- The loop for a task that is ready, with two reachable models. -/
def readyLoop : Program GoalRunner.Tried :=
  mockRunner.attemptWithFallback { (default : Run) with id := ⟨"run"⟩ }
    { id := ⟨"a"⟩, runId := ⟨"run"⟩, objective := "write", state := .ready, createdAt := "" } { id := "a", objective := "write" }
    (mockRunner.router.route "core-implementer") { taskId := ⟨"a"⟩, objective := "write" }

/-- A run that somebody has asked to stop. -/
def stopping : World :=
  { db := {}, budget := { maxAttempts := 4, maxTokens := 0, maxCostUsd := 0 }, requested := [(⟨"run"⟩, "enough")] }

open Fallback in
/-- Both models fail, and the pair of the second is handed back. -/
theorem fallback_bounded_failing : ∃ (out : Except PyExn GoalRunner.Tried) (h : List ((o : Op) × Ret o)),
    models (events h) = ["xiaomi/mimo-v2.5-pro", "deepseek/deepseek-v4-pro"] ∧
      Bounded mockRunner (mockRunner.router.route "core-implementer") (events h) ∧
        ∀ tried, out = .ok tried → Last (events h) tried.1 := by
  obtain ⟨out, h, hruns, hmodels⟩ := Prog.exists_recorded readyLoop
    (fun o => answer mockRunner { runner := .ok { success := false } } 0 o stopping)
    (fun _ h => models (events h) = ["xiaomi/mimo-v2.5-pro", "deepseek/deepseek-v4-pro"]) (by decide +kernel)
  exact ⟨out, h, of_decide_eq_true hmodels,
    fallback_bounded mockRunner _ _ _ _ _ _ _ (ModelRouter.route_decided _ _) hruns⟩

open Fallback in
/-- An attempt that is cancelled on request was started, and nothing is handed back. -/
theorem cancelled_not_returned : mockRunner.router.Decided (mockRunner.router.route "core-implementer") ∧
    ∃ tried h, Prog.Runs Prog.recording readyLoop [] (.ok tried) h ∧
      models (events h) = ["xiaomi/mimo-v2.5-pro"] ∧ tried.1 = none := by
  refine ⟨ModelRouter.route_decided _ _, ?_⟩
  obtain ⟨out, h, hruns, hcheck⟩ := Prog.exists_recorded readyLoop
    (fun o => answer mockRunner { runner := .error .cancelledError } 0 o stopping)
    (fun out h => match out with
      | .ok tried => tried.1.isNone && models (events h) = ["xiaomi/mimo-v2.5-pro"]
      | .error _ => false)
    (by decide +kernel)
  cases out with
  | error e => cases hcheck
  | ok tried =>
      obtain ⟨hnone, hmodels⟩ := Bool.and_eq_true_iff.mp hcheck
      exact ⟨tried, h, hruns, of_decide_eq_true hmodels, Option.isNone_iff_eq_none.mp hnone⟩

end AtlasFlow.Reference
