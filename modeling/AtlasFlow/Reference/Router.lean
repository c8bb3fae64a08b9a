import Mathlib.Data.List.Infix
import AtlasFlow.Data.Dict
import AtlasFlow.Reference.Models

/-!
# Which model does a task

`routing/router.py` and `_fallback_candidates`. The scorecard is left out: it is written and not read
here.
-/

namespace AtlasFlow.Reference

inductive Priority | primary | efficient
  deriving DecidableEq, Repr

inductive Availability | expected | probeRequired
  deriving DecidableEq, Repr

structure ModelEntry where
  key : String
  provider : String
  commandCodeId : String
  priority : Priority
  availability : Availability
  deriving DecidableEq, Repr

structure RouteDecision where
  role : String
  selected : Option ModelEntry := none
  reason : String := ""
  fallbackAttempts : Nat := 0
  candidates : List ModelEntry := []
  deriving DecidableEq, Repr

/-- `_available`, the ids the registry reported. -/
structure ModelRouter where
  available : List String := []
  deriving DecidableEq, Repr

namespace ModelRouter

/-- `ROSTER`. -/
def roster : List ModelEntry :=
  [{ key := "deepseek-v4-pro", provider := "deepseek", commandCodeId := "deepseek/deepseek-v4-pro",
     priority := .primary, availability := .expected },
   { key := "mimo-v2.5-pro", provider := "xiaomi", commandCodeId := "xiaomi/mimo-v2.5-pro",
     priority := .primary, availability := .expected },
   { key := "gpt-5.6-luna", provider := "openai", commandCodeId := "gpt-5.6-luna",
     priority := .efficient, availability := .probeRequired }]

/-- `ROLE_DEFAULTS`. -/
def roleDefaults : Dict String (List String) :=
  [("chief-architect", ["deepseek-v4-pro", "mimo-v2.5-pro"]),
   ("goal-planner", ["deepseek-v4-pro", "mimo-v2.5-pro"]),
   ("core-implementer", ["mimo-v2.5-pro", "deepseek-v4-pro"]),
   ("ui-engineer", ["mimo-v2.5-pro", "deepseek-v4-pro"]),
   ("tester", ["gpt-5.6-luna", "mimo-v2.5-pro"]),
   ("repo-explorer", ["gpt-5.6-luna", "mimo-v2.5-pro"]),
   ("reviewer", ["deepseek-v4-pro"])]

/-- `_model_by_key`. -/
def modelByKey : Dict String ModelEntry := Dict.ofItems (roster.map fun m => (m.key, m))

/-- `str.lower`, as far as looking for an ASCII text in the result can tell: besides the ASCII letters,
these are the two characters whose lower case contains an ASCII letter. -/
def lower (text : String) : List Char :=
  text.toList.flatMap fun c =>
    if c = '\u0130' then ['i', '\u0307']
    else if c = '\u212A' then ['k']
    else [c.toLower]

/-- `is_reachable`. -/
def isReachable (r : ModelRouter) (entry : ModelEntry) : Bool :=
  if r.available = [] then entry.availability = .expected
  else r.available.any fun a =>
    entry.commandCodeId.toList <:+: a.toList || lower entry.key <:+: lower a

/-- `route`. -/
def route (r : ModelRouter) (role : String) : RouteDecision :=
  let preferredOrder :=
    (roleDefaults.get? role).getD ["deepseek-v4-pro", "mimo-v2.5-pro", "gpt-5.6-luna"]
  let candidates := preferredOrder.filterMap modelByKey.get?
  match candidates.zipIdx.find? fun candidate => r.isReachable candidate.1 with
  | some (candidate, idx) =>
    { role, candidates, selected := some candidate, fallbackAttempts := idx
      reason := s!"Selected {candidate.key} ({candidate.provider}) for role '{role}' — index {idx}" ++
        " in preference order" }
  | none => { role, candidates, reason := s!"No reachable model for role '{role}'" }

/-- `select_high_risk_reviewer`. -/
def selectHighRiskReviewer (r : ModelRouter) (implementerProvider : String) : Option ModelEntry :=
  let crossProviders := roster.filter fun m => m.provider ≠ implementerProvider && r.isReachable m
  let primaryCross := crossProviders.filter fun m => m.priority = .primary
  (if primaryCross = [] then crossProviders else primaryCross).head?

/-- `_fallback_candidates`: `none` runs the harness on its default model. -/
def fallbackCandidates (r : ModelRouter) (decision : RouteDecision) : List (Option ModelEntry) :=
  let reachable := decision.candidates.filter r.isReachable
  let reachable :=
    match decision.selected with
    | some selected => selected :: reachable.filter fun candidate => candidate.key ≠ selected.key
    | none => reachable
  if reachable = [] then [none] else reachable.map some

/-- There is always a candidate. -/
theorem fallbackCandidates_ne_nil (r : ModelRouter) (decision : RouteDecision) :
    r.fallbackCandidates decision ≠ [] := by
  unfold fallbackCandidates
  dsimp only
  generalize (match decision.selected with
    | some selected => _
    | none => _ : List ModelEntry) = reachable
  by_cases h : reachable = []
  · rw [if_pos h]
    exact List.cons_ne_nil _ _
  · rw [if_neg h]
    simpa using h

end ModelRouter

end AtlasFlow.Reference
