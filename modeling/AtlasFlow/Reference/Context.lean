import Mathlib
import AtlasFlow.Data.Lines
import AtlasFlow.Data.Pick
import AtlasFlow.Reference.Registry

/-!
# Context plans

`plan_context` of `evolution/context.py`: which documents a task is to read. The two contract files of a project
come first, then what the task map and the context pack of the intent name, then the documents in which its
words occur, as many of them as the budget allows.
-/

namespace AtlasFlow.Reference.Context

open Documents (SiteError estimateTokens)
open GoalFile (strip)
open Registry

/-- What `plan_context` raises: what reading the project raises, or an error of its own. -/
inductive ContextError where
  | site (error : SiteError)
  | valueError (message : String)
  | validationError (message : String)
  | keyError (key : String)
  deriving DecidableEq, Repr

inductive Risk where
  | low
  | medium
  | high
  | critical
  deriving DecidableEq, Repr

structure TaskMapReads where
  required : List String := []
  optional : List String := []
  deriving DecidableEq, Repr

structure TaskMap where
  id : String
  intent : String
  risk : Risk := .low
  read : TaskMapReads := {}
  usuallyDontTouch : List String := []
  id_ne : id ≠ ""
  intent_ne : intent ≠ ""
  deriving DecidableEq, Repr

structure ContextPack where
  id : String
  intent : String
  include_ : List String := []
  optional : List String := []
  exclude : List String := []
  budget : Dict String Int := []
  id_ne : id ≠ ""
  intent_ne : intent ≠ ""

structure ContextBudget where
  name : String
  targetTokens : Nat
  maxTokens : Nat
  target_pos : 0 < targetTokens
  max_covers_target : targetTokens ≤ maxTokens
  deriving DecidableEq, Repr

structure ContextItem where
  id : String
  path : Option String := none
  reason : String
  estimatedTokens : Nat
  required : Bool := false
  deriving DecidableEq, Repr

structure ContextPlan where
  id : String
  intent : String
  profile : String
  risk : Risk
  budget : ContextBudget
  estimatedTokens : Nat
  required : List ContextItem
  optional : List ContextItem
  excluded : List String
  levels : Dict String (List String)
  stopCondition : List String
  explanations : Dict String String

/-- A project as `plan_context` finds it: over its documents, the task maps and the context packs that could be
loaded, and what reading a file of its root gives, `none` if there is no such file. -/
structure ContextProject extends Registry.Project where
  taskMaps : List TaskMap
  contextPacks : List ContextPack
  rootFile : String → Option (Except SiteError String)

/-- `str.lower`, `str.isdigit`, `int` of a text, `int(n * 1.6)` and the hex digest of `hashlib.sha256`. -/
structure Library where
  lower : List Char → List Char
  isDigit : String → Bool
  int : String → Except ContextError Int
  scaled : Int → Except ContextError Int
  hexdigest : String → String

/-! ## Budgets -/

/-- `ContextBudget(...)`. -/
def contextBudget (name : String) (targetTokens maxTokens : Int) : Except ContextError ContextBudget :=
  if htarget : 0 < targetTokens then
    if 0 < maxTokens then
      if hmax : targetTokens ≤ maxTokens then
        .ok ⟨name, targetTokens.toNat, maxTokens.toNat, by omega, by omega⟩
      else .error (.validationError "max_tokens must be greater than or equal to target_tokens")
    else .error (.validationError "max_tokens: Input should be greater than 0")
  else .error (.validationError "target_tokens: Input should be greater than 0")

/-- `DEFAULT_BUDGETS`. -/
def defaultBudgets : Dict String (Int × Int) :=
  [("small", 8000, 12000), ("medium", 20000, 32000), ("large", 48000, 80000)]

def budgetName : BudgetName → String
  | .small => "small"
  | .medium => "medium"
  | .large => "large"

def budgetForTokens (lib : Library) (tokens : Int) : Except ContextError ContextBudget :=
  if tokens ≤ 0 then .error (.valueError "context budget must be positive")
  else do contextBudget "custom" tokens (← lib.scaled tokens)

def budgetForName (lib : Library) (name : String) : Except ContextError ContextBudget :=
  if lib.isDigit name then do budgetForTokens lib (← lib.int name)
  else match defaultBudgets.get? name with
    | none => .error (.valueError s!"unknown context budget '{name}'")
    | some (target, maximum) => contextBudget name target maximum

def budgetFor (lib : Library) (nameOrTokens : Option (String ⊕ Int)) (default : BudgetName) :
    Except ContextError ContextBudget :=
  match nameOrTokens with
  | none => budgetForName lib (budgetName default)
  | some (.inl name) => budgetForName lib name
  | some (.inr tokens) => budgetForTokens lib tokens

/-- The budget of a plan. A pack that names both numbers stands for no budget. -/
def planBudget (lib : Library) (budget : Option (String ⊕ Int)) (pack : Option ContextPack) (default : BudgetName) :
    Except ContextError ContextBudget :=
  match budget, pack with
  | none, some pack =>
    match pack.budget.get? "target_tokens", pack.budget.get? "max_tokens" with
    | some target, some maximum => contextBudget pack.id target maximum
    | _, _ => budgetFor lib none default
  | budget, _ => budgetFor lib budget default

/-! ## Matching the intent -/

def isTermChar (c : Char) : Bool :=
  ('a' ≤ c && c ≤ 'z') || ('0' ≤ c && c ≤ '9') || c = '_' || c = '-'

/-- The matches of `[a-z0-9][a-z0-9_-]+` of more than two characters: a run of the characters, from its first
letter or digit on. -/
def terms (lib : Library) (intent : String) : List (List Char) :=
  let runs := (lib.lower intent.toList).splitOnP fun c => !isTermChar c
  ((runs.map (List.dropWhile fun c => c = '_' || c = '-')).filter fun term => 2 < term.length).dedup

/-- `text.count(term)`: occurrences that do not overlap. The first argument is how many characters of the last
one are left. -/
def countTerm (term : List Char) : Nat → List Char → Nat
  | _, [] => 0
  | skip + 1, _ :: cs => countTerm term skip cs
  | 0, c :: cs =>
    if term <+: c :: cs then 1 + countTerm term (term.length - 1) cs else countTerm term 0 cs

def haystack (lib : Library) (document : ParsedDocument) : List Char :=
  lib.lower <| [' '].intercalate
    [document.metadata.title.toList, document.relativePath.toList,
      [' '].intercalate (document.metadata.tags.map String.toList), document.body.toList.take 20000]

def scoreDocument (lib : Library) (document : ParsedDocument) (terms : List (List Char)) : Nat :=
  (terms.map fun term => countTerm term 0 (haystack lib document)).sum

/-- The task map of the very intent, or else the first by id of those that share a term with it. -/
def findTaskMap (lib : Library) (taskMaps : List TaskMap) (intent : String) : Option TaskMap :=
  let normalized := lib.lower (strip intent.toList)
  match taskMaps.find? fun item => lib.lower item.intent.toList = normalized with
  | some exact => some exact
  | none =>
    let matching := taskMaps.filter fun item => (terms lib intent).any (· ∈ terms lib item.intent)
    (matching.mergeSort fun a b => decide (a.id ≤ b.id)).head?

def findPack (lib : Library) (packs : List ContextPack) (intent : String) : Option ContextPack :=
  packs.find? fun item => lib.lower item.intent.toList = lib.lower intent.toList

/-! ## Items -/

def tokensForDocument (document : ParsedDocument) : Nat :=
  match document.metadata.estimatedTokens with
  | none | some 0 => estimateTokens document.body
  | some tokens => tokens

/-- `reference.lstrip("./")`. -/
def lstripDots (reference : String) : String :=
  String.ofList (reference.toList.dropWhile fun c => c = '.' || c = '/')

def resolveReference (reference : String) (lookup : Dict String RegistryEntry) : Option RegistryEntry :=
  (lookup.get? reference).or (lookup.get? (lstripDots reference))

def documentsByPath (documents : List ParsedDocument) : Dict String ParsedDocument :=
  Dict.ofItems (documents.map fun document => (document.relativePath, document))

def itemForReference (lookup : Dict String RegistryEntry) (documents : Dict String ParsedDocument)
    (reference reason : String) (required : Bool) : Except ContextError ContextItem :=
  match resolveReference reference lookup with
  | none =>
    .ok { id := reference, reason := s!"{reason}; reference not indexed", estimatedTokens := 0, required }
  | some entry =>
    match documents.get? entry.path with
    | none => .error (.keyError entry.path)
    | some document =>
      .ok { id := entry.id, path := some entry.path, reason, estimatedTokens := tokensForDocument document, required }

/-- `_add_unique`. -/
def addUnique (items : List ContextItem) (candidate : ContextItem) : List ContextItem :=
  Pick.add ContextItem.id items candidate

/-- The files that are in each plan, and why. -/
def contracts : List (String × String) :=
  [("AGENTS.md", "L0 project contract"), ("docs/ATLAS.md", "L0 intent router")]

def contractItem (reference reason text : String) : ContextItem :=
  { id := reference, path := some reference, reason, estimatedTokens := estimateTokens text, required := true }

/-- The item of a contract, if it is a file. -/
def readContract (project : ContextProject) (contract : String × String) :
    Except ContextError (Option ContextItem) :=
  match project.rootFile contract.1 with
  | none => .ok none
  | some text => do return some (contractItem contract.1 contract.2 (← text.mapError .site))

def contractItems (project : ContextProject) : Except ContextError (List ContextItem) := do
  return (← contracts.mapM (readContract project)).reduceOption

/-- The references that are required, each with its reason. -/
def requiredReferences (taskMap : Option TaskMap) (pack : Option ContextPack) : List (String × String) :=
  (taskMap.toList.flatMap fun item => item.read.required.map fun reference => (reference, s!"required by {item.id}")) ++
    pack.toList.flatMap fun item => item.include_.map fun reference => (reference, s!"included by {item.id}")

def optionalReferences (taskMap : Option TaskMap) (pack : Option ContextPack) : List (String × String) :=
  (taskMap.toList.flatMap fun item => item.read.optional.map fun reference => (reference, s!"optional in {item.id}")) ++
    pack.toList.flatMap fun item => item.optional.map fun reference => (reference, s!"optional in {item.id}")

def referenceItems (lookup : Dict String RegistryEntry) (documents : Dict String ParsedDocument) (required : Bool)
    (references : List (String × String)) : Except ContextError (List ContextItem) :=
  references.mapM fun reference => itemForReference lookup documents reference.1 reference.2 required

def lexicalItem (document : ParsedDocument) : ContextItem :=
  { id := document.metadata.id
    path := some document.relativePath
    reason := "lexical match for intent"
    estimatedTokens := tokensForDocument document }

/-- The documents in which a term occurs, those with the most occurrences first. -/
def lexicalItems (lib : Library) (documents : List ParsedDocument) (intent : String) : List ContextItem :=
  let score := fun document => scoreDocument lib document (terms lib intent)
  let sorted := documents.mergeSort fun a b =>
    decide (score b < score a ∨ score a = score b ∧ a.relativePath ≤ b.relativePath)
  (sorted.filter fun document => score document ≠ 0).map lexicalItem

/-! ## The plan -/

def contractPaths : List (Option String) := contracts.map fun contract => some contract.1

/-- `dict.fromkeys` keeps the first of each. -/
def excludedOf (taskMap : Option TaskMap) (pack : Option ContextPack) : List String :=
  (Dict.ofItems <| (taskMap.toList.flatMap TaskMap.usuallyDontTouch ++ pack.toList.flatMap ContextPack.exclude).map
    fun name => (name, ())).keys

def levelsOf (taskMap : Option TaskMap) (required optional : List ContextItem) : Dict String (List String) :=
  [("L0", (required.filter fun item => item.path ∈ contractPaths).map ContextItem.id),
    ("L1", taskMap.toList.map TaskMap.id),
    ("L2", ((required ++ optional).filter fun item => item.path ∉ contractPaths).map ContextItem.id),
    ("L3", [])]

def stopCondition (requiredTokens maxTokens : Nat) : List String :=
  ["contracts-located", "implementation-surface-known", "tests-known"] ++
    if maxTokens < requiredTokens then ["required-context-exceeds-budget"] else []

def planId (lib : Library) (intent profile budget : String) (selected : List ContextItem) : String :=
  let selectedIds := ",".intercalate (selected.map ContextItem.id)
  let digest := lib.hexdigest s!"{intent}|{profile}|{budget}|{selectedIds}"
  s!"CTXPLAN-{digest.take 12}"

def planContext (lib : Library) (project : ContextProject) (intent : String) (budget : Option (String ⊕ Int))
    (profile : String) : Except ContextError ContextPlan := do
  if strip intent.toList = [] then
    throw (.valueError "context intent must not be empty")
  let index ← (loadProjectIndex project.toProject).mapError .site
  let documents := documentsByPath index.documents
  let lookup := registryLookup index.registry
  let taskMap := findTaskMap lib project.taskMaps intent
  let pack := findPack lib project.contextPacks intent
  let selectedRequired := (← contractItems project).foldl addUnique []
  -- the two lists do not depend on each other, so each is filled in one go
  let selectedRequired :=
    (← referenceItems lookup documents true (requiredReferences taskMap pack)).foldl addUnique selectedRequired
  let selectedOptional :=
    (← referenceItems lookup documents false (optionalReferences taskMap pack)).foldl addUnique []
  let lexical := (lexicalItems lib index.documents intent).filter fun candidate =>
    candidate.id ∉ selectedRequired.map ContextItem.id
  let selectedOptional := lexical.foldl addUnique selectedOptional
  let contextBudget ← planBudget lib budget pack index.manifest.defaultBudget
  let requiredTokens := (selectedRequired.map ContextItem.estimatedTokens).sum
  let (optional, totalTokens) :=
    Pick.fill ContextItem.estimatedTokens contextBudget.targetTokens requiredTokens selectedOptional
  let selected := selectedRequired ++ optional
  return {
    id := planId lib intent profile contextBudget.name selected
    intent
    profile
    risk := (taskMap.map TaskMap.risk).getD .low
    budget := contextBudget
    estimatedTokens := totalTokens
    required := selectedRequired
    optional
    excluded := excludedOf taskMap pack
    levels := levelsOf taskMap selectedRequired optional
    stopCondition := stopCondition requiredTokens contextBudget.maxTokens
    explanations := Dict.ofItems (selected.map fun item => (item.id, item.reason)) }

end AtlasFlow.Reference.Context
