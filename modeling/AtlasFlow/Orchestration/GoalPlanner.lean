import AtlasFlow.Data.Lines
import AtlasFlow.Domain.Planning

/-!
# The revision of a goal

`GoalPlanner.RevisionOf` hashes the texts a plan is answerable to, each with a line end. A text that
holds a line end itself, or a criterion that reads like the name of a gate, is not told from two
texts, or from a gate: `revisionOf_identifies_iff` says which pairs of goals the hash tells apart as
it should. The digest is a parameter; of it only two materials matter.
-/

namespace AtlasFlow

inductive GateRequirement | optional | required
  deriving DecidableEq, Repr

structure GoalGates where
  build : GateRequirement
  tests : GateRequirement
  review : GateRequirement
  documentation : GateRequirement
  deriving DecidableEq, Repr

namespace GoalGates

/-- `For`. -/
def for_ (gates : GoalGates) : GateKind → GateRequirement
  | .build => gates.build
  | .tests => gates.tests
  | .review => gates.review
  | .documentation => gates.documentation

/-- `Required`: in the order of the enumeration. -/
def required (gates : GoalGates) : List GateKind :=
  [.build, .tests, .review, .documentation].filter fun gate => gates.for_ gate = .required

end GoalGates

/-- `GateKind.ToString`. -/
def GateKind.name : GateKind → String
  | .build => "Build"
  | .tests => "Tests"
  | .review => "Review"
  | .documentation => "Documentation"

/-- What a plan is answerable to in a goal. -/
structure Goal where
  id : GoalId
  objective : String
  gates : GoalGates
  acceptance : List String := []
  deriving DecidableEq, Repr

namespace GoalPlanner

/-- `Append(text).Append('\n')`. -/
def appendLine (material : List Char) (text : String) : List Char := material ++ text.toList ++ ['\n']

/-- `material.ToString()`. -/
def material (goal : Goal) : String :=
  let material := appendLine (appendLine [] goal.id.value) goal.objective
  let material := goal.acceptance.foldl appendLine material
  let material := (goal.gates.required.map GateKind.name).foldl appendLine material
  String.ofList material

/-- `RevisionOf`, with `digest` the first twelve hexadecimal digits of the hash of a text. -/
def revisionOf (digest : String → String) (goal : Goal) : String := digest (material goal)

/-- What the revision of a goal is meant to identify. -/
def SameContent (g h : Goal) : Prop :=
  g.id = h.id ∧ g.objective = h.objective ∧ g.acceptance = h.acceptance ∧
    g.gates.required = h.gates.required

/-! ## The material -/

/-- The texts that are hashed, one after the other. -/
def texts (goal : Goal) : List (List Char) :=
  goal.id.value.toList :: goal.objective.toList ::
    (goal.acceptance ++ goal.gates.required.map GateKind.name).map String.toList

theorem foldl_appendLine (texts : List String) (material : List Char) :
    texts.foldl appendLine material =
      material ++ Lines.terminated '\n' (texts.map String.toList) := by
  induction texts generalizing material with
  | nil => simp [Lines.terminated]
  | cons text rest ih => rw [List.foldl_cons, ih]; simp [appendLine, Lines.terminated]

theorem material_eq (goal : Goal) :
    material goal = String.ofList (Lines.terminated '\n' (texts goal)) := by
  simp [material, foldl_appendLine, appendLine, texts, Lines.terminated]

theorem material_inj {g h : Goal} :
    material g = material h ↔ Lines.pieces '\n' (texts g) = Lines.pieces '\n' (texts h) := by
  rw [material_eq, material_eq, String.ofList_inj, Lines.terminated_inj]

theorem name_injective : Function.Injective GateKind.name := by
  intro a b h
  cases a <;> cases b <;> first | rfl | exact absurd h (by decide)

theorem toList_injective : Function.Injective String.toList := fun _ _ h => String.toList_inj.mp h

/-- Two goals with the same texts have the same content, if as many of them are criteria. -/
theorem sameContent_iff_texts {g h : Goal} :
    SameContent g h ↔ texts g = texts h ∧ g.acceptance.length = h.acceptance.length := by
  constructor
  · rintro ⟨hid, hobjective, hacceptance, hgates⟩
    rw [texts, texts, hid, hobjective, hacceptance, hgates]
    exact ⟨rfl, rfl⟩
  · rintro ⟨htexts, hlength⟩
    rw [texts, texts, List.cons.injEq, List.cons.injEq] at htexts
    obtain ⟨hid, hobjective, hrest⟩ := htexts
    have hrest := (List.map_injective_iff.mpr toList_injective) hrest
    obtain ⟨hacceptance, hgates⟩ := List.append_inj hrest hlength
    have hid : (⟨g.id.value⟩ : GoalId) = ⟨h.id.value⟩ := by rw [toList_injective hid]
    exact ⟨hid, toList_injective hobjective, hacceptance,
      (List.map_injective_iff.mpr name_injective) hgates⟩

/-! ## What the revision tells apart -/

/-- The two goals spell the same lines, but some text of one has another number of lines than the text
in its place in the other, or another number of texts are criteria. -/
def Regrouped (g h : Goal) : Prop :=
  Lines.pieces '\n' (texts g) = Lines.pieces '\n' (texts h) ∧
    (Lines.counts '\n' (texts g) ≠ Lines.counts '\n' (texts h) ∨
      g.acceptance.length ≠ h.acceptance.length)

theorem sameContent_iff {g h : Goal} :
    SameContent g h ↔ Lines.pieces '\n' (texts g) = Lines.pieces '\n' (texts h) ∧
      Lines.counts '\n' (texts g) = Lines.counts '\n' (texts h) ∧
      g.acceptance.length = h.acceptance.length := by
  rw [sameContent_iff_texts, Lines.eq_iff_pieces '\n', and_assoc]

theorem regrouped_iff {g h : Goal} :
    Regrouped g h ↔ material g = material h ∧ ¬ SameContent g h := by
  rw [Regrouped, sameContent_iff, material_inj]
  tauto

/-- A goal whose texts are lines, none of its criteria the name of a gate. -/
structure Plain (goal : Goal) : Prop where
  lines : ∀ text ∈ texts goal, '\n' ∉ text
  criteria : ∀ gate : GateKind, gate.name ∉ goal.acceptance

/-- Criteria that are not names of gates end where the names of gates begin. -/
theorem length_le_of_append {acceptance acceptance' : List String} {gates gates' : List GateKind}
    (h : ∀ gate : GateKind, gate.name ∉ acceptance')
    (heq : acceptance ++ gates.map GateKind.name = acceptance' ++ gates'.map GateKind.name) :
    acceptance'.length ≤ acceptance.length := by
  rcases List.append_eq_append_iff.mp heq with ⟨mid, hacceptance, hgates⟩ | ⟨mid, hacceptance, _⟩
  · cases mid with
    | nil =>
        exact Nat.le_of_eq (by rw [hacceptance, List.append_nil])
    | cons text mid =>
        have htext : text ∈ gates.map GateKind.name := by rw [hgates]; simp
        obtain ⟨gate, _, rfl⟩ := List.mem_map.mp htext
        exact absurd (by rw [hacceptance]; simp) (h gate)
  · rw [hacceptance, List.length_append]
    exact Nat.le_add_right _ _

/-- The revision tells such goals apart. -/
theorem not_regrouped_of_plain {g h : Goal} (hg : Plain g) (hh : Plain h) : ¬ Regrouped g h := by
  rw [regrouped_iff, material_inj, Lines.pieces_of_single hg.lines, Lines.pieces_of_single hh.lines]
  rintro ⟨htexts, hdiffer⟩
  refine hdiffer (sameContent_iff_texts.mpr ⟨htexts, ?_⟩)
  rw [texts, texts, List.cons.injEq, List.cons.injEq] at htexts
  have hrest := (List.map_injective_iff.mpr toList_injective) htexts.2.2
  exact Nat.le_antisymm (length_le_of_append hg.criteria hrest.symm)
    (length_le_of_append hh.criteria hrest)

/-- **Which goals the revision tells apart**: where the digest tells the two materials apart, the two
revisions are the same exactly when the contents are, unless the goals group the same lines
differently. -/
theorem revisionOf_identifies_iff (digest : String → String) (g h : Goal)
    (hdigest : digest (material g) = digest (material h) → material g = material h) :
    (revisionOf digest g = revisionOf digest h ↔ SameContent g h) ↔ ¬ Regrouped g h := by
  have hrevision : revisionOf digest g = revisionOf digest h ↔ material g = material h :=
    ⟨hdigest, fun heq => congrArg digest heq⟩
  have hsame : SameContent g h → material g = material h := fun h' => by
    rw [material_eq, material_eq, (sameContent_iff_texts.mp h').1]
  rw [hrevision, regrouped_iff]
  tauto

/-- A goal with a criterion that reads like a gate, and one that requires this gate. -/
def buildCriterion : Goal where
  id := ⟨"G1"⟩
  objective := "Ship it"
  gates := ⟨.optional, .optional, .optional, .optional⟩
  acceptance := ["Build"]

def buildGate : Goal where
  id := ⟨"G1"⟩
  objective := "Ship it"
  gates := ⟨.required, .optional, .optional, .optional⟩

theorem revisionOf_identifies_build :
    (revisionOf id buildCriterion = revisionOf id buildGate ↔
      SameContent buildCriterion buildGate) ↔ ¬ Regrouped buildCriterion buildGate :=
  revisionOf_identifies_iff id _ _ fun h => h

/-- Whatever the digest, the two goals have one revision. -/
theorem revisionOf_build_confused :
    ¬ ∀ digest, (revisionOf digest buildCriterion = revisionOf digest buildGate ↔
      SameContent buildCriterion buildGate) := fun h => by
  have hsame : material buildCriterion = material buildGate := by decide +kernel
  exact absurd ((h id).mp hsame).2.2.1 (by decide)

end GoalPlanner

end AtlasFlow
