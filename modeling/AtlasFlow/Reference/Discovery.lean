import AtlasFlow.Reference.Router

/-!
# The live registry

`routing/discovery.py`: probes ask which models are live, and the router is told what a probe that reached the
registry reported. What the router makes of a report is `isReachable`: a search for names in names.
-/

namespace AtlasFlow.Reference.Discovery

open ModelRouter (roster lower)

/-! ## Probes -/

structure DiscoveryResult where
  available : List String := []
  reachable : Bool := false
  reason : String := ""
  probedAt : String := ""
  probed : Bool := true
  deriving DecidableEq, Repr

/-- `DiscoveryResult.pending`. -/
def pending : DiscoveryResult where
  reason := "The live registry has not answered yet"
  probed := false

/-- A registry with its router, and the class attribute `_cached`. -/
structure ModelRegistry where
  router : ModelRouter
  current : DiscoveryResult
  cached : Option DiscoveryResult

/-- A result is applied to the router if the probe reached the registry. -/
def applied (router : ModelRouter) (result : DiscoveryResult) : ModelRouter :=
  if result.reachable then { router with available := result.available } else router

namespace ModelRegistry

/-- `__init__`. -/
def new (router : ModelRouter) (cached : Option DiscoveryResult) : ModelRegistry :=
  let current := cached.getD pending
  { router := applied router current, current, cached }

/-- `refresh`, with what `discover_models` returned. -/
def refresh (registry : ModelRegistry) (result : DiscoveryResult) : ModelRegistry :=
  { router := applied registry.router result, current := result, cached := some result }

/-- A registry after some probes. -/
def run (router : ModelRouter) (cached : Option DiscoveryResult) (results : List DiscoveryResult) : ModelRegistry :=
  results.foldl refresh (new router cached)

end ModelRegistry

/-- What the last probe that reached the registry reported. -/
def lastReport (results : List DiscoveryResult) : Option (List String) :=
  (results.reverse.find? DiscoveryResult.reachable).map DiscoveryResult.available

theorem run_router (router : ModelRouter) (cached : Option DiscoveryResult) (results : List DiscoveryResult)
    {ids : List String} (h : lastReport results = some ids) :
    (ModelRegistry.run router cached results).router = { available := ids } := by
  induction results using List.reverseRecOn with
  | nil => cases h
  | append_singleton results result ih =>
      have hrun : ModelRegistry.run router cached (results ++ [result]) =
          (ModelRegistry.run router cached results).refresh result := by
        rw [ModelRegistry.run, ModelRegistry.run, List.foldl_append]
        rfl
      rw [hrun, ModelRegistry.refresh, applied]
      rw [lastReport, List.reverse_append, List.reverse_singleton, List.singleton_append] at h
      cases hreachable : result.reachable with
      | true =>
          rw [List.find?_cons_of_pos hreachable] at h
          cases h
          rfl
      | false =>
          rw [List.find?_cons_of_neg (by simp [hreachable])] at h
          exact ih h

/-! ## Names -/

/-- A name without its provider, in lower case. -/
def bare (name : String) : List Char := ((lower name).reverse.takeWhile (· ≠ '/')).reverse

/-- One of the names is the model's, case and provider apart. -/
def Reported (ids : List String) (model : ModelEntry) : Prop :=
  ∃ id ∈ ids, bare id = bare model.commandCodeId ∨ bare id = bare model.key

/-- The router picks only models that were reported, and none when none was. -/
structure OnlyReported (ids : List String) (router : ModelRouter) : Prop where
  selected : ∀ role model, (router.route role).selected = some model → Reported ids model
  fallback : ∀ role model, some model ∈ router.fallbackCandidates (router.route role) → Reported ids model
  reviewer : ∀ provider model, router.selectHighRiskReviewer provider = some model → Reported ids model
  nothing : (∀ model ∈ roster, ¬ Reported ids model) →
    (∀ role, (router.route role).selected = none) ∧
      (∀ role, router.fallbackCandidates (router.route role) = [none]) ∧
      ∀ provider, router.selectHighRiskReviewer provider = none

/-- Something was reported, and no reported name contains the name of a model that is not itself reported. -/
structure Telling (ids : List String) : Prop where
  nonempty : ids ≠ []
  whole : ∀ model ∈ roster, ∀ id ∈ ids, lower model.key <:+: lower id → Reported ids model

/-! ## What the router picks -/

section Picks

variable {router : ModelRouter} {role provider : String} {model : ModelEntry}

theorem mem_roster_of_modelByKey {key : String} (h : ModelRouter.modelByKey.get? key = some model) :
    model ∈ roster := by
  obtain ⟨entry, hentry, heq⟩ := List.mem_map.mp (Dict.mem_of_get?_ofItems h)
  cases heq
  exact hentry

theorem route_candidates (router : ModelRouter) (role : String) : (router.route role).candidates =
    ((ModelRouter.roleDefaults.get? role).getD ["deepseek-v4-pro", "mimo-v2.5-pro", "gpt-5.6-luna"]).filterMap
      ModelRouter.modelByKey.get? := by
  unfold ModelRouter.route
  dsimp only
  split <;> rfl

theorem mem_roster_of_candidate (h : model ∈ (router.route role).candidates) : model ∈ roster := by
  rw [route_candidates] at h
  obtain ⟨key, -, hkey⟩ := List.mem_filterMap.mp h
  exact mem_roster_of_modelByKey hkey

/-- What is selected is a reachable candidate. -/
theorem candidate_of_selected (h : (router.route role).selected = some model) :
    model ∈ (router.route role).candidates ∧ router.isReachable model = true := by
  unfold ModelRouter.route at h ⊢
  dsimp only at h ⊢
  split at h
  · next candidate idx hfind =>
    cases h
    have hreachable := List.find?_some hfind
    exact ⟨List.fst_mem_of_mem_zipIdx (List.mem_of_find?_eq_some hfind), hreachable⟩
  · cases h

theorem mem_fallbackCandidates {decision : RouteDecision} : some model ∈ router.fallbackCandidates decision ↔
    decision.selected = some model ∨ (model ∈ decision.candidates ∧ router.isReachable model = true ∧
      ∀ selected, decision.selected = some selected → model.key ≠ selected.key) := by
  unfold ModelRouter.fallbackCandidates
  dsimp only
  cases decision.selected with
  | none =>
      by_cases hnil : decision.candidates.filter router.isReachable = []
      · have hnone : ¬ (model ∈ decision.candidates ∧ router.isReachable model = true) := fun hmem => by
          have hfilter := List.mem_filter.mpr hmem
          rw [hnil] at hfilter
          cases hfilter
        simpa [hnil] using fun hmem hreachable => hnone ⟨hmem, hreachable⟩
      · simp [hnil, List.mem_filter]
  | some selected =>
      rw [if_neg (List.cons_ne_nil _ _)]
      simp only [List.mem_map, Option.some.injEq, exists_eq_right, List.mem_cons, List.mem_filter,
        decide_eq_true_eq, and_assoc, forall_eq']
      rw [eq_comm]

theorem reachable_of_fallback (h : some model ∈ router.fallbackCandidates (router.route role)) :
    model ∈ roster ∧ router.isReachable model = true := by
  obtain hselected | ⟨hcandidate, hreachable, -⟩ := mem_fallbackCandidates.mp h
  · obtain ⟨hcandidate, hreachable⟩ := candidate_of_selected hselected
    exact ⟨mem_roster_of_candidate hcandidate, hreachable⟩
  · exact ⟨mem_roster_of_candidate hcandidate, hreachable⟩

theorem eq_default_of_no_model {models : List ModelEntry}
    (h : ∀ model, some model ∉ if models = [] then [none] else models.map some) :
    (if models = [] then [none] else models.map some) = [none] := by
  by_cases hnil : models = []
  · rw [if_pos hnil]
  · rw [if_neg hnil] at h
    obtain ⟨model, hmodel⟩ := List.exists_mem_of_ne_nil _ hnil
    exact absurd (List.mem_map_of_mem hmodel) (h model)

/-- Without a model to fall back to there is only the harness's default. -/
theorem fallbackCandidates_eq_none {decision : RouteDecision}
    (h : ∀ model, some model ∉ router.fallbackCandidates decision) : router.fallbackCandidates decision = [none] :=
  eq_default_of_no_model h

theorem reachable_of_reviewer (h : router.selectHighRiskReviewer provider = some model) :
    model ∈ roster ∧ router.isReachable model = true := by
  unfold ModelRouter.selectHighRiskReviewer at h
  dsimp only at h
  have hcross : model ∈ roster.filter fun m => m.provider ≠ provider && router.isReachable m := by
    split at h
    · exact List.mem_of_mem_head? h
    · exact List.mem_of_mem_filter (List.mem_of_mem_head? h)
  obtain ⟨hroster, hpicked⟩ := List.mem_filter.mp hcross
  rw [Bool.and_eq_true] at hpicked
  exact ⟨hroster, hpicked.2⟩

/-- A role that has no list of its own may fall back to every reachable model of the roster. -/
theorem mem_fallback_of_reachable (hrole : ModelRouter.roleDefaults.get? role = none) (hroster : model ∈ roster)
    (hreachable : router.isReachable model = true) :
    some model ∈ router.fallbackCandidates (router.route role) := by
  have hcandidates : (router.route role).candidates = roster := by
    rw [route_candidates, hrole]
    decide +kernel
  rw [mem_fallbackCandidates, hcandidates]
  cases hselected : (router.route role).selected with
  | none => exact .inr ⟨hroster, hreachable, by simp⟩
  | some selected =>
      have hmem := hcandidates ▸ (candidate_of_selected hselected).1
      have hkeys : ∀ m ∈ roster, ∀ m' ∈ roster, m.key = m'.key → m = m' := by decide
      by_cases hkey : model.key = selected.key
      · exact .inl (congrArg some (hkeys _ hroster _ hmem hkey)).symm
      · exact .inr ⟨hroster, hreachable, fun other heq => by cases heq; exact hkey⟩

end Picks

/-! ## Names in names -/

section Names

variable {ids : List String} {model : ModelEntry}

/-- Each model of the roster goes by its key, which is in lower case and without a provider. -/
theorem bare_roster : ∀ model ∈ roster, bare model.commandCodeId = lower model.key ∧ bare model.key = lower model.key ∧
    lower model.key <:+: lower model.commandCodeId := by
  decide +kernel

theorem bare_infix (name : String) : bare name <:+: lower name := by
  have hsuffix : bare name <:+ lower name := by
    rw [← List.reverse_prefix, bare, List.reverse_reverse]
    exact List.takeWhile_prefix _
  exact hsuffix.isInfix

theorem lower_mono {a b : String} (h : a.toList <:+: b.toList) : lower a <:+: lower b := by
  obtain ⟨before, after, heq⟩ := h
  unfold lower
  rw [← heq, List.flatMap_append, List.flatMap_append]
  exact List.infix_append _ _ _

theorem reported_iff (hroster : model ∈ roster) : Reported ids model ↔ ∃ id ∈ ids, bare id = lower model.key := by
  obtain ⟨hid, hkey, -⟩ := bare_roster model hroster
  simp only [Reported, hid, hkey, or_self]

/-- Once something was reported, a model is reachable if its key is found in a reported name. -/
theorem isReachable_iff (hne : ids ≠ []) (hroster : model ∈ roster) :
    ModelRouter.isReachable { available := ids } model = true ↔ ∃ id ∈ ids, lower model.key <:+: lower id := by
  unfold ModelRouter.isReachable
  rw [if_neg hne, List.any_eq_true]
  simp only [Bool.or_eq_true, decide_eq_true_eq]
  constructor
  · rintro ⟨id, hid, hin | hin⟩
    · exact ⟨id, hid, (bare_roster model hroster).2.2.trans (lower_mono hin)⟩
    · exact ⟨id, hid, hin⟩
  · rintro ⟨id, hid, hin⟩
    exact ⟨id, hid, .inr hin⟩

theorem isReachable_of_reported (hroster : model ∈ roster) (h : Reported ids model) :
    ModelRouter.isReachable { available := ids } model = true := by
  obtain ⟨id, hid, hbare⟩ := (reported_iff hroster).mp h
  exact (isReachable_iff (List.ne_nil_of_mem hid) hroster).mpr ⟨id, hid, hbare ▸ bare_infix id⟩

end Names

/-! ## What was reported and what is picked -/

/-- On telling reports, and on no others, the router picks only models that were reported. -/
theorem onlyReported_iff (router : ModelRouter) (cached : Option DiscoveryResult) (results : List DiscoveryResult)
    {ids : List String} (h : lastReport results = some ids) :
    OnlyReported ids (ModelRegistry.run router cached results).router ↔ Telling ids := by
  rw [run_router router cached results h]
  have hunknown : ModelRouter.roleDefaults.get? "" = none := by decide +kernel
  constructor
  · intro honly
    have hreported : ∀ model ∈ roster, ModelRouter.isReachable { available := ids } model = true →
        Reported ids model := fun model hroster hreachable =>
      honly.fallback "" model (mem_fallback_of_reachable hunknown hroster hreachable)
    refine ⟨?_, fun model hroster id hid hin => ?_⟩
    · rintro rfl
      have hmem : roster.head (by decide) ∈ roster := List.head_mem _
      obtain ⟨id, hid, -⟩ := hreported _ hmem (by decide)
      cases hid
    · exact hreported model hroster ((isReachable_iff (List.ne_nil_of_mem hid) hroster).mpr ⟨id, hid, hin⟩)
  · intro htelling
    have hreported : ∀ model, model ∈ roster ∧ ModelRouter.isReachable { available := ids } model = true →
        Reported ids model := by
      rintro model ⟨hroster, hreachable⟩
      obtain ⟨id, hid, hin⟩ := (isReachable_iff htelling.nonempty hroster).mp hreachable
      exact htelling.whole model hroster id hid hin
    have hselected : ∀ role model, (ModelRouter.route { available := ids } role).selected = some model →
        Reported ids model := fun role model hpicked =>
      have hcandidate := candidate_of_selected hpicked
      hreported model ⟨mem_roster_of_candidate hcandidate.1, hcandidate.2⟩
    have hfallback : ∀ role model, some model ∈ ModelRouter.fallbackCandidates { available := ids }
        (ModelRouter.route { available := ids } role) → Reported ids model := fun role model hpicked =>
      hreported model (reachable_of_fallback hpicked)
    have hreviewer : ∀ provider model, ModelRouter.selectHighRiskReviewer { available := ids } provider = some model →
        Reported ids model := fun provider model hpicked => hreported model (reachable_of_reviewer hpicked)
    refine ⟨hselected, hfallback, hreviewer, fun hnone => ⟨fun role => ?_, fun role => ?_, fun provider => ?_⟩⟩
    · refine Option.eq_none_iff_forall_ne_some.mpr fun model hpicked => ?_
      exact hnone model (mem_roster_of_candidate (candidate_of_selected hpicked).1) (hselected role model hpicked)
    · refine fallbackCandidates_eq_none fun model hpicked => ?_
      exact hnone model (reachable_of_fallback hpicked).1 (hfallback role model hpicked)
    · refine Option.eq_none_iff_forall_ne_some.mpr fun model hpicked => ?_
      exact hnone model (reachable_of_reviewer hpicked).1 (hreviewer provider model hpicked)

/-! ### Two reports -/

def report (available : List String) : DiscoveryResult where
  available
  reachable := true
  reason := s!"{available.length} model(s) reported by the live registry"

/-- The name of a model, with another provider, and a name that no model's name is in. -/
theorem picks_reported_model :
    OnlyReported ["openrouter/GPT-5.6-Luna", "qwen-3"]
      (ModelRegistry.run {} none [report [], report ["openrouter/GPT-5.6-Luna", "qwen-3"]]).router := by
  refine (onlyReported_iff {} none _ rfl).mpr ⟨by decide, fun model hroster id hid hin => ?_⟩
  refine (reported_iff hroster).mpr ⟨id, hid, ?_⟩
  revert hin
  revert id
  revert model
  decide +kernel

/-- Only a smaller model was reported, whose name begins like the one of the roster. -/
theorem picks_unreported_model :
    ((ModelRegistry.run {} none [report ["gpt-5.6-luna-mini"]]).router.route "tester").selected =
        roster.find? (fun model => model.key = "gpt-5.6-luna") ∧
      ¬ OnlyReported ["gpt-5.6-luna-mini"] (ModelRegistry.run {} none [report ["gpt-5.6-luna-mini"]]).router := by
  have hpicked : ((ModelRegistry.run {} none [report ["gpt-5.6-luna-mini"]]).router.route "tester").selected =
      roster.find? (fun model => model.key = "gpt-5.6-luna") := by decide +kernel
  refine ⟨hpicked, fun honly => ?_⟩
  obtain ⟨id, hid, hbare⟩ := honly.selected "tester" _ hpicked
  obtain rfl := List.mem_singleton.mp hid
  exact absurd hbare (by decide +kernel)

end AtlasFlow.Reference.Discovery
