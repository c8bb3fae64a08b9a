import AtlasFlow.Data.EnumText
import AtlasFlow.Data.Yaml
import AtlasFlow.Orchestration.GoalPlanner

/-!
# Goals as the runtime loads them

`Manifest` reads one YAML document defensively, by keys that are scalars without a tag; `GoalLoader` makes a goal
of it. Of a gate that says nothing, or anything but `optional`, it makes a required one.
-/

namespace AtlasFlow

/-! ## Manifests -/

/-- `_root`: the pairs of a mapping. -/
abbrev Manifest := List (Yaml.Node × Yaml.Node)

namespace Manifest

/-- Equal to `new YamlScalarNode(key)`: the same text, and no tag. -/
def isKey (key : String) : Yaml.Node → Bool
  | .scalar s => s.tag = none && s.text = key
  | _ => false

/-- `Children.TryGetValue`. -/
def child (manifest : Manifest) (key : String) : Option Yaml.Node :=
  (manifest.find? fun pair => isKey key pair.1).map Prod.snd

/-- `Read`, of the root of the first document. -/
def read (name : String) : Option Yaml.Node → Except String Manifest
  | some (.mapping _ pairs) => .ok pairs
  | _ => .error s!"{name} must contain a mapping."

/-- `Section`. -/
def section_ (manifest : Manifest) (key : String) : Option Manifest :=
  match manifest.child key with
  | some (.mapping _ pairs) => some pairs
  | _ => none

/-- `scalar.Value.Trim()`, unless there is nothing in it. -/
def trimmed (s : Yaml.Scalar) : Option String :=
  let cs := EnumText.trim s.text.toList
  if cs = [] then none else some (String.ofList cs)

/-- `Text`. -/
def text (manifest : Manifest) (key : String) : Option String :=
  match manifest.child key with
  | some (.scalar s) => trimmed s
  | _ => none

/-- `SequenceLength`. -/
def sequenceLength (manifest : Manifest) (key : String) : Nat :=
  match manifest.child key with
  | some (.sequence _ items) => items.length
  | _ => 0

/-- `Strings`. -/
def strings (manifest : Manifest) (key : String) : List String :=
  match manifest.child key with
  | some (.scalar s) => (trimmed s).toList
  | some (.sequence _ items) => items.filterMap fun item => match item with
    | .scalar s => trimmed s
    | _ => none
  | _ => []

end Manifest

/-! ## Goals -/

inductive GoalState | planned | ready | active | blocked | done | cancelled
  deriving DecidableEq, Repr

/-- A goal with all that is read of it. -/
structure LoadedGoal extends Goal where
  phase : String
  title : String
  state : GoalState
  constraints : List String
  nonGoals : List String
  dependencies : List GoalId
  history : List String
  evidenceCount : Nat

namespace GoalLoader

/-- `Requirement`. -/
def requirement (declared : Option String) : GateRequirement :=
  if declared.any fun d => EnumText.equalsIgnoreCase d.toList "optional".toList then .optional else .required

/-- `ReadGates`. -/
def readGates (gates : Option Manifest) : GoalGates where
  build := requirement (gates.bind fun gates => gates.text "build")
  tests := requirement (gates.bind fun gates => gates.text "tests")
  review := requirement (gates.bind fun gates => gates.text "review")
  documentation := requirement (gates.bind fun gates => gates.text "documentation")

/-- `ParseState`; what it throws is the message of a `GoalLoadException`. -/
def parseState (declared : Option String) (path : String) : Except String GoalState :=
  match declared with
  | some "PLANNED" => .ok .planned
  | some "READY" => .ok .ready
  | some "ACTIVE" => .ok .active
  | some "BLOCKED" => .ok .blocked
  | some "DONE" => .ok .done
  | some "CANCELLED" => .ok .cancelled
  | none => .error s!"{path}: a Goal must declare a state"
  | some declared => .error s!"{path}: '{declared}' is not a known Goal state"

/-- The object that `ReadOne` makes. -/
def goalOf (manifest : Manifest) (id : String) (state : GoalState) : LoadedGoal where
  id := ⟨id⟩
  phase := (manifest.text "phase").getD ""
  title := (manifest.text "title").getD id
  state
  objective := (manifest.text "objective").getD ""
  gates := readGates (manifest.section_ "gates")
  constraints := manifest.strings "constraints"
  nonGoals := manifest.strings "non_goals"
  dependencies := (manifest.strings "dependencies").map GoalId.mk
  acceptance := manifest.strings "acceptance"
  history := manifest.strings "history"
  evidenceCount := manifest.sequenceLength "evidence"

/-- `ReadOne`. -/
def readOne (path : String) (manifest : Except String Manifest) : Except String LoadedGoal :=
  match manifest with
  | .error error => .error s!"{path}: {error}"
  | .ok manifest =>
    match manifest.text "id" with
    | none => .error s!"{path}: a Goal must declare an id"
    | some id => (parseState (manifest.text "state") path).map (goalOf manifest id)

/-! ## The gates of a goal -/

/-- The key of a gate in a goal file. -/
def gateKey : GateKind → String
  | .build => "build"
  | .tests => "tests"
  | .review => "review"
  | .documentation => "documentation"

theorem readGates_for (gates : Option Manifest) (gate : GateKind) :
    (readGates gates).for_ gate = requirement (gates.bind fun gates => gates.text (gateKey gate)) := by
  cases gate <;> rfl

theorem requirement_eq_optional {declared : Option String} : requirement declared = .optional ↔
    ∃ d, declared = some d ∧ EnumText.equalsIgnoreCase d.toList "optional".toList = true := by
  cases declared with
  | none => exact iff_of_false GateRequirement.noConfusion (by rintro ⟨d, hd, -⟩; cases hd)
  | some d =>
      unfold requirement
      rw [Option.any_some]
      by_cases hequal : EnumText.equalsIgnoreCase d.toList "optional".toList = true
      · rw [if_pos hequal]
        exact iff_of_true rfl ⟨d, rfl, hequal⟩
      · rw [if_neg hequal]
        refine iff_of_false GateRequirement.noConfusion ?_
        rintro ⟨d', hd, hequal'⟩
        cases hd
        exact hequal hequal'

/-- A goal that is loaded comes from a manifest with an id and a known state, and has its gates. -/
theorem readOne_ok {path : String} {manifest : Except String Manifest} {goal : LoadedGoal}
    (h : readOne path manifest = .ok goal) :
    ∃ root, manifest = .ok root ∧ goal.gates = readGates (root.section_ "gates") := by
  unfold readOne at h
  cases manifest with
  | error error => cases h
  | ok root =>
      refine ⟨root, rfl, ?_⟩
      dsimp only at h
      cases hid : root.text "id" with
      | none =>
          rw [hid] at h
          cases h
      | some id =>
          rw [hid] at h
          cases hstate : parseState (root.text "state") path with
          | error error =>
              rw [hstate] at h
              cases h
          | ok state =>
              rw [hstate] at h
              cases h
              rfl

end GoalLoader

end AtlasFlow
