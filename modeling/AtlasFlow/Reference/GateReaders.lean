import AtlasFlow.Orchestration.GoalLoader
import AtlasFlow.Reference.DeclaredGates

/-!
# Two readers of one goal file

The runtime takes a gate for required unless it is declared optional; the repository validator takes a gate for
required only if it is declared so. On a goal file that spells out every gate they agree.
-/

namespace AtlasFlow.Reference.GateReaders

open SqlValues (text)
open GoalFile (Key Value requiredNames)

/-! ## The two sets -/

/-- A key names a gate that the runtime takes for required. -/
def LoaderRequires (goal : LoadedGoal) (key : Key) : Prop :=
  ∃ gate : GateKind, key = .str (text gate) ∧ goal.gates.for_ gate = .required

/-- The validator asks for evidence under a key; `safeLoad` is `yaml.safe_load`, of a document. -/
def ValidatorRequires (safeLoad : Yaml.Node → Except PyExn Value) (document : Yaml.Node) (key : Key) : Prop :=
  ∃ data, safeLoad document = .ok (.dict data) ∧ key ∈ requiredNames data

/-- The runtime and the validator require the same names. -/
def SameGates (safeLoad : Yaml.Node → Except PyExn Value) (document : Yaml.Node) (goal : LoadedGoal) : Prop :=
  ∀ key, LoaderRequires goal key ↔ ValidatorRequires safeLoad document key

/-! ## Gates that are spelled out -/

/-- The section has the string `required`, and nothing else, under a key. -/
def DeclaredRequired (safeLoad : Yaml.Node → Except PyExn Value) (document : Yaml.Node) (key : Key) : Prop :=
  ∃ (data : Dict Key Value) (items : List (Key × Value)), safeLoad document = .ok (.dict data) ∧
    data.get? (.str "gates") = some (.dict items) ∧ (key, .str "required") ∈ items

/-- The section has a scalar under the gate that reads `optional`, in any case and with any blanks around it. -/
def DeclaredOptional (document : Yaml.Node) (gate : GateKind) : Prop :=
  ∃ tag root gates declared, document = .mapping tag root ∧ Manifest.section_ root "gates" = some gates ∧
    gates.text (text gate) = some declared ∧
    EnumText.equalsIgnoreCase declared.toList "optional".toList = true

/-- The section declares every gate in one of the two ways, none in both, and no other name as required. -/
structure SpelledOut (safeLoad : Yaml.Node → Except PyExn Value) (document : Yaml.Node) : Prop where
  each : ∀ gate : GateKind, DeclaredRequired safeLoad document (.str (text gate)) ∨ DeclaredOptional document gate
  single : ∀ gate : GateKind,
    ¬ (DeclaredRequired safeLoad document (.str (text gate)) ∧ DeclaredOptional document gate)
  noOther : ∀ key, DeclaredRequired safeLoad document key → ∃ gate : GateKind, key = .str (text gate)

section Readers

variable {safeLoad : Yaml.Node → Except PyExn Value} {document : Yaml.Node} {path name : String}
  {data : Dict Key Value} {goal : LoadedGoal} {gate : GateKind} {key : Key}

theorem mem_requiredNames : key ∈ requiredNames data ↔
    ∃ items, data.get? (.str "gates") = some (.dict items) ∧ (key, .str "required") ∈ items := by
  unfold requiredNames
  cases hgates : data.get? (.str "gates") with
  | none => simp
  | some value =>
      cases value with
      | dict items =>
          simp only [List.mem_map, List.mem_filter, Option.some.injEq, Value.dict.injEq, exists_eq_left']
          constructor
          · rintro ⟨item, ⟨hitem, hrequired⟩, rfl⟩
            obtain ⟨key, value⟩ := item
            cases value with
            | str s =>
                rw [decide_eq_true_eq] at hrequired
                exact hrequired ▸ hitem
            | _ => cases hrequired
          · exact fun hitem => ⟨_, ⟨hitem, by simp⟩, rfl⟩
      | _ => simp

theorem validatorRequires_iff : ValidatorRequires safeLoad document key ↔ DeclaredRequired safeLoad document key := by
  simp only [ValidatorRequires, DeclaredRequired, mem_requiredNames, exists_and_left]

theorem gateKey_eq_text (gate : GateKind) : GoalLoader.gateKey gate = text gate := by cases gate <;> rfl

/-- Only a gate that is declared optional is not required by the runtime. -/
theorem required_iff_not_optional
    (h : GoalLoader.readOne path (Manifest.read name (some document)) = .ok goal) :
    goal.gates.for_ gate = .required ↔ ¬ DeclaredOptional document gate := by
  obtain ⟨root, hroot, hgates⟩ := GoalLoader.readOne_ok h
  have hdocument : ∃ tag, document = .mapping tag root := by
    unfold Manifest.read at hroot
    split at hroot
    · next tag pairs heq =>
      cases hroot
      cases heq
      exact ⟨tag, rfl⟩
    · cases hroot
  obtain ⟨tag, rfl⟩ := hdocument
  have hoptional : goal.gates.for_ gate = .optional ↔ DeclaredOptional (.mapping tag root) gate := by
    rw [hgates, GoalLoader.readGates_for, GoalLoader.requirement_eq_optional, gateKey_eq_text, DeclaredOptional]
    simp only [Option.bind_eq_some_iff]
    constructor
    · rintro ⟨declared, ⟨gates, hgates, htext⟩, hequal⟩
      exact ⟨tag, root, gates, declared, rfl, hgates, htext, hequal⟩
    · rintro ⟨tag', root', gates, declared, heq, hgates, htext, hequal⟩
      cases heq
      exact ⟨declared, ⟨gates, hgates, htext⟩, hequal⟩
  rw [← hoptional]
  cases goal.gates.for_ gate <;> simp

/-- **The readers agree exactly on the goal files that spell out every gate**. -/
theorem sameGates_iff (safeLoad : Yaml.Node → Except PyExn Value)
    (h : GoalLoader.readOne path (Manifest.read name (some document)) = .ok goal) :
    SameGates safeLoad document goal ↔ SpelledOut safeLoad document := by
  have hloader : ∀ gate : GateKind, LoaderRequires goal (.str (text gate)) ↔ ¬ DeclaredOptional document gate := by
    intro gate
    rw [← required_iff_not_optional h, LoaderRequires]
    constructor
    · rintro ⟨gate', heq, hrequired⟩
      cases SqlValues.text_injective (Key.str.inj heq)
      exact hrequired
    · exact fun hrequired => ⟨gate, rfl, hrequired⟩
  constructor
  · intro hsame
    refine ⟨fun gate => ?_, fun gate hboth => ?_, fun key hkey => ?_⟩
    · rw [← validatorRequires_iff, ← hsame, hloader]
      exact (Classical.em (DeclaredOptional document gate)).symm
    · exact (hloader gate).mp ((hsame _).mpr (validatorRequires_iff.mpr hboth.1)) hboth.2
    · obtain ⟨gate, hgate, -⟩ := (hsame key).mpr (validatorRequires_iff.mpr hkey)
      exact ⟨gate, hgate⟩
  · intro hspelled key
    rw [validatorRequires_iff]
    constructor
    · rintro ⟨gate, rfl, hrequired⟩
      exact (hspelled.each gate).resolve_right ((required_iff_not_optional h).mp hrequired)
    · intro hdeclared
      obtain ⟨gate, rfl⟩ := hspelled.noOther key hdeclared
      exact (hloader gate).mpr fun hoptional => hspelled.single gate ⟨hdeclared, hoptional⟩

end Readers

/-! ## Documents that both libraries read alike -/

/-- A key that merges another mapping into its own. -/
def isMerge : Yaml.Node → Bool
  | .scalar s => (s.tag = none && s.plain && s.text = "<<") || s.tag = some "tag:yaml.org,2002:merge"
  | _ => false

/-- What `yaml.safe_load` is documented to do: a string is the text of its scalar, and what a mapping without
merge keys has under a key is the value of some pair with that key. -/
structure Documented (safeLoad : Yaml.Node → Except PyExn Value) : Prop where
  scalar : ∀ node t, safeLoad node = .ok (.str t) → ∃ s, node = .scalar s ∧ s.text = t
  mapping : ∀ tag pairs items, (∀ pair ∈ pairs, isMerge pair.1 = false) →
    safeLoad (.mapping tag pairs) = .ok (.dict items) → ∀ key value, (.str key, value) ∈ items →
      ∃ pair ∈ pairs, safeLoad pair.1 = .ok (.str key) ∧ safeLoad pair.2 = .ok value

/-- The keys of a mapping are apart, carry no tags and merge nothing. -/
structure Plain (pairs : Manifest) : Prop where
  merge : ∀ pair ∈ pairs, isMerge pair.1 = false
  untagged : ∀ pair ∈ pairs, ∀ s, pair.1 = .scalar s → s.tag = none
  distinct : ∀ key, ∀ pair ∈ pairs, ∀ pair' ∈ pairs, Manifest.isKey key pair.1 = true →
    Manifest.isKey key pair'.1 = true → pair = pair'

section Plain

variable {safeLoad : Yaml.Node → Except PyExn Value} {pairs : Manifest} {tag : Option String}
  {items : List (Key × Value)} {key : String} {value : Value} {node : Yaml.Node}

theorem child_eq_some (h : Manifest.child pairs key = some node) :
    ∃ pair ∈ pairs, Manifest.isKey key pair.1 = true ∧ pair.2 = node := by
  obtain ⟨pair, hfind, heq⟩ := Option.map_eq_some_iff.mp h
  exact ⟨pair, List.mem_of_find?_eq_some hfind, by simpa using List.find?_some hfind, heq⟩

/-- Under a key that one reader finds, the other finds the same node. -/
theorem Plain.same_node (hplain : Plain pairs) (hdocumented : Documented safeLoad)
    (hload : safeLoad (.mapping tag pairs) = .ok (.dict items)) (hmem : (.str key, value) ∈ items)
    (hchild : Manifest.child pairs key = some node) : safeLoad node = .ok value := by
  obtain ⟨pair, hpair, hkey, hvalue⟩ := hdocumented.mapping tag pairs items hplain.merge hload key value hmem
  obtain ⟨pair', hpair', hkey', rfl⟩ := child_eq_some hchild
  obtain ⟨s, hs, htext⟩ := hdocumented.scalar _ _ hkey
  have hisKey : Manifest.isKey key pair.1 = true := by
    rw [hs, Manifest.isKey, hplain.untagged pair hpair s hs, htext]
    simp
  rwa [hplain.distinct key pair hpair pair' hpair' hisKey hkey'] at hvalue

theorem trimmed_required {s : Yaml.Scalar} (h : s.text = "required") : Manifest.trimmed s = some "required" := by
  unfold Manifest.trimmed
  rw [h]
  decide +kernel

/-- In such a document no gate is declared in both ways. -/
theorem single_of_plain {root : Manifest} {gate : GateKind} (hdocumented : Documented safeLoad)
    (hroot : Plain root) (hgates : ∀ gates, root.section_ "gates" = some gates → Plain gates) :
    ¬ (DeclaredRequired safeLoad (.mapping tag root) (.str (text gate)) ∧
      DeclaredOptional (.mapping tag root) gate) := by
  rintro ⟨⟨data, items, hload, hitems, hrequired⟩, ⟨tag', root', gates, declared, heq, hsection, htext, hequal⟩⟩
  cases heq
  have hplain := hgates gates hsection
  unfold Manifest.section_ at hsection
  split at hsection
  · next tag' pairs hchild =>
    cases hsection
    have hsame := hroot.same_node hdocumented hload (Dict.mem_of_get? hitems) hchild
    unfold Manifest.text at htext
    split at htext
    · next s hleaf =>
      obtain ⟨s', heq, hs⟩ := hdocumented.scalar _ _ (hplain.same_node hdocumented hsame hrequired hleaf)
      cases heq
      rw [trimmed_required hs] at htext
      cases htext
      exact absurd hequal (by decide)
    · cases htext
  · cases hsection

end Plain

/-! ### A review gate that is not mentioned -/

mutual

/-- `yaml.safe_load`, where every scalar is a string. -/
def construct : Yaml.Node → Value
  | .scalar s => .str s.text
  | .sequence _ items => .list (constructItems items)
  | .mapping _ pairs => .dict (constructPairs pairs)

def constructItems : List Yaml.Node → List Value
  | [] => []
  | item :: items => construct item :: constructItems items

def constructPairs : List (Yaml.Node × Yaml.Node) → List (Key × Value)
  | [] => []
  | (.scalar s, value) :: pairs => (.str s.text, construct value) :: constructPairs pairs
  | (_, _) :: pairs => constructPairs pairs

end

def plainLoad (document : Yaml.Node) : Except PyExn Value := .ok (construct document)

/-- A closed goal with the given gates. -/
def goalFile (gates : List (String × String)) : Yaml.Node :=
  Yaml.block [(Yaml.word "id", Yaml.word "P01-G01"), (Yaml.word "state", Yaml.word "DONE"),
    (Yaml.word "gates", Yaml.block (gates.map fun gate => (Yaml.word gate.1, Yaml.word gate.2)))]

def silentFile : Yaml.Node :=
  goalFile [("build", "required"), ("tests", "required"), ("documentation", "required")]

def spelledFile : Yaml.Node :=
  goalFile [("build", "required"), ("tests", "required"), ("review", "Optional"), ("documentation", "required")]

theorem validatorRequires_block {pairs : Manifest} {key : Key} :
    ValidatorRequires plainLoad (Yaml.block pairs) key ↔ key ∈ requiredNames (constructPairs pairs) := by
  simp [ValidatorRequires, plainLoad, Yaml.block, construct]

theorem spelledFile_requires {key : Key} : DeclaredRequired plainLoad spelledFile key ↔
    key ∈ [Key.str "build", .str "tests", .str "documentation"] := by
  rw [← validatorRequires_iff, spelledFile, goalFile, validatorRequires_block]
  exact iff_of_eq (congrArg (key ∈ ·) (by decide +kernel))

theorem spelledFile_same : ∃ goal,
    GoalLoader.readOne "P01-G01.yaml" (Manifest.read "P01-G01.yaml" (some spelledFile)) = .ok goal ∧
      SameGates plainLoad spelledFile goal := by
  have hload : GoalLoader.readOne "P01-G01.yaml" (Manifest.read "P01-G01.yaml" (some spelledFile)) = .ok _ := rfl
  have hoptional : ∀ gate, DeclaredOptional spelledFile gate ↔ gate = .review := by
    intro gate
    rw [← not_iff_not, ← required_iff_not_optional hload]
    cases gate <;> decide +kernel
  refine ⟨_, hload, (sameGates_iff plainLoad hload).mpr ⟨fun gate => ?_, fun gate => ?_, fun key hkey => ?_⟩⟩
  · rw [spelledFile_requires, hoptional]
    cases gate <;> decide
  · rw [spelledFile_requires, hoptional]
    cases gate <;> decide
  · rw [spelledFile_requires] at hkey
    simp only [List.mem_cons, List.not_mem_nil, or_false] at hkey
    obtain rfl | rfl | rfl := hkey
    · exact ⟨.build, rfl⟩
    · exact ⟨.tests, rfl⟩
    · exact ⟨.documentation, rfl⟩

/-- The runtime requires a review; the validator does not ask for one. -/
theorem silentFile_differs : ∃ goal,
    GoalLoader.readOne "P01-G01.yaml" (Manifest.read "P01-G01.yaml" (some silentFile)) = .ok goal ∧
      LoaderRequires goal (.str "review") ∧ ¬ ValidatorRequires plainLoad silentFile (.str "review") ∧
      ¬ SameGates plainLoad silentFile goal := by
  have hload : GoalLoader.readOne "P01-G01.yaml" (Manifest.read "P01-G01.yaml" (some silentFile)) = .ok _ := rfl
  have hvalidator : ¬ ValidatorRequires plainLoad silentFile (.str "review") := by
    rw [silentFile, goalFile, validatorRequires_block]
    decide +kernel
  refine ⟨_, hload, ⟨.review, rfl, by decide +kernel⟩, hvalidator, fun hsame => hvalidator ((hsame _).mp ?_)⟩
  exact ⟨.review, rfl, by decide +kernel⟩

end AtlasFlow.Reference.GateReaders
