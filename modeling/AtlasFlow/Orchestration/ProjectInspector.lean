import AtlasFlow.Orchestration.GoalFiles

/-!
# What a directory is, as a project

`ProjectInspector.Inspect` tries five checks of the manifests in order and calls the project ready if none of them
objects (`ready_iff`). None reads a goal, so that a project may be called ready whose goals cannot be loaded: whether
it can be planned is a matter of its goal files besides (`canPlan_iff`).
-/

namespace AtlasFlow

open LinkedFiles PathText

/-! ## The outcome -/

inductive ProjectMode | atlasReady | atlasNeedsAdaptation | atlasIncompatible | external
  deriving DecidableEq, Repr

structure ProjectCapabilities where
  canExplore : Bool
  canDiscuss : Bool
  canAdapt : Bool
  canPlan : Bool
  canRun : Bool
  canReview : Bool
  deriving DecidableEq, Repr

structure ProjectInspection where
  root : List Char
  mode : ProjectMode
  projectId : String
  projectName : String
  capabilities : ProjectCapabilities
  reason : String
  recommendation : String
  types : List String
  frameworkName : Option String
  frameworkVersion : Option String
  isFrameworkSupported : Bool
  isGitPresent : Bool
  missingManifests : List String
  invalidManifests : List String
  deriving DecidableEq, Repr

namespace ProjectInspector

def supportedFramework : String := "project-atlas-framework"

def requiredManifests : List String :=
  ["PROJECT_MANIFEST.yaml", "ENTRYPOINT.md", "PROJECT_STATE.md", "docs/ATLAS.md", ".ai/context/project-profile.yaml",
    ".ai/agents/manifest.yaml", ".ai/skills/manifest.yaml", ".ai/recipes/manifest.yaml",
    ".ai/orchestration/model-policy.yaml", ".ai/orchestration/autonomy-policy.yaml",
    ".ai/orchestration/orchestrator.yaml", ".ai/orchestration/fallbacks.yaml"]

def requiredDirectories : List String := [".ai/goals"]

/-- A file, and the type of the projects that have it. -/
def typeSignals : List (String × String) :=
  [("pyproject.toml", "python"), ("package.json", "javascript/typescript"), ("Cargo.toml", "rust"), ("go.mod", "go"),
    ("pom.xml", "java"), ("composer.json", "php"), ("AtlasFlow.slnx", "csharp")]

/-! ## Predicates -/

/-- `Path.GetExtension`. -/
def getExtension (path : List Char) : List Char :=
  let name := getFileName path
  let ending := (name.reverse.takeWhile (· ≠ '.')).reverse
  if '.' ∈ name ∧ ending ≠ [] then '.' :: ending else []

/-- `int.TryParse`: blanks before and after, and a sign. -/
def tryParse (text : List Char) : Option Int :=
  match EnumText.parseInt32 (text.dropWhile fun c => c = ' ' || (0x9 ≤ c.toNat && c.toNat ≤ 0xD)) with
  | .ok value => some value
  | _ => none

/-- `IsSupported`. -/
def isSupported : Option String → Bool
  | none => false
  | some version =>
    match version.toList.splitOn '.' with
    | major :: minor :: _ => tryParse major = some 0 ∧ tryParse minor = some 1
    | _ => false

variable (host : Host)

/-- `IsUnusable`. -/
def isUnusable (path : List Char) : Bool :=
  let extension := getExtension path
  if extension = ".yaml".toList ∨ extension = ".yml".toList then
    (Manifest.readFile host path).toOption.isNone
  else
    match host.readAllText path with
    | .ok text => text.toList.all EnumText.isWhiteSpace
    | .error _ => true

def detectTypes (root : List Char) : List String :=
  (typeSignals.filter fun signal => host.fileExists (combine root signal.1.toList)).map Prod.snd

/-! ## Context -/

/-- `new DirectoryInfo(Root).Name`. -/
def directoryName (root : List Char) : List Char := if root = ['/'] then root else getFileName (trimEnding root)

structure Context where
  root : List Char
  isGitPresent : Bool
  manifest : Except String Manifest

namespace Context

def manifestPath (root : List Char) : List Char := combine root "PROJECT_MANIFEST.yaml".toList

variable (context : Context)

/-- `Manifest.Section`, of a manifest that may have no root. -/
def section_ (key : String) : Option Manifest := context.manifest.toOption.bind fun manifest => manifest.section_ key

def frameworkName : Option String := (context.section_ "framework").bind fun framework => framework.text "name"

def frameworkVersion : Option String := (context.section_ "framework").bind fun framework => framework.text "version"

def fallbackId : String :=
  let name := directoryName context.root
  if name = [] then "unknown-project" else String.ofList name

/-- `Build`. -/
def build (mode : ProjectMode) (reason recommendation : String) (missing invalid : List String := [])
    (frameworkSupported : Bool := false) : ProjectInspection :=
  let project := context.section_ "project"
  let id := (project.bind fun project => project.text "id").getD context.fallbackId
  let declared := (project.map fun project => project.strings "type").getD []
  let isReady : Bool := mode = .atlasReady
  -- A project that is ready can be planned without Git, and not run.
  let lacksGit := isReady && !context.isGitPresent
  { root := context.root
    mode
    projectId := id
    projectName := (project.bind fun project => project.text "name").getD id
    types := if declared = [] then detectTypes host context.root else declared
    frameworkName := context.frameworkName
    frameworkVersion := context.frameworkVersion
    isFrameworkSupported := frameworkSupported
    isGitPresent := context.isGitPresent
    missingManifests := missing
    invalidManifests := invalid
    reason := if lacksGit then "Project Atlas manifests are valid, but Git is required for isolated execution."
      else reason
    recommendation := if lacksGit then "Initialize or open a Git repository before running a Goal."
      else recommendation
    capabilities :=
      { canExplore := true
        canDiscuss := true
        canAdapt := mode = .external || mode = .atlasNeedsAdaptation
        canPlan := isReady
        canRun := isReady && context.isGitPresent
        canReview := isReady } }

end Context

/-! ## The checks, in the order they run -/

variable (context : Context)

def noManifest : Option ProjectInspection :=
  if host.fileExists (Context.manifestPath context.root) then none
  else some (context.build host .external "This directory does not declare Project Atlas manifests."
    "Inspect the project, then preview an adaptation to Project Atlas." requiredManifests)

def unreadableManifest : Option ProjectInspection :=
  match context.manifest with
  | .error error => some (context.build host .atlasNeedsAdaptation error
      "Repair or replace the invalid Project Atlas manifest after reviewing a preview." [] ["PROJECT_MANIFEST.yaml"])
  | .ok _ => none

def wrongFramework : Option ProjectInspection :=
  if context.frameworkName = some supportedFramework then none
  else
    let declared := context.frameworkName.getD "no framework"
    some (context.build host .atlasIncompatible s!"This project declares {declared}, not {supportedFramework}."
      "Review the compatibility report and adapt deliberately; automatic conversion is disabled." []
      ["PROJECT_MANIFEST.yaml"])

def unsupportedVersion : Option ProjectInspection :=
  if isSupported context.frameworkVersion then none
  else
    let declared := context.frameworkVersion.getD "unknown"
    some (context.build host .atlasIncompatible
      s!"Framework version {declared} is not supported; Atlas Flow currently supports 0.1.x."
      "Inspect and review an explicit framework migration before execution." [] ["PROJECT_MANIFEST.yaml"])

def missingManifests : List String :=
  (requiredManifests.filter fun relative => !host.fileExists (combine context.root relative.toList)) ++
    requiredDirectories.filter fun relative => !host.directoryExists (combine context.root relative.toList)

def invalidManifests : List String :=
  (requiredManifests.filter fun relative => relative ∉ missingManifests host context).filter fun relative =>
    isUnusable host (combine context.root relative.toList)

def incompleteManifests : Option ProjectInspection :=
  let missing := missingManifests host context
  let invalid := invalidManifests host context
  if missing = [] ∧ invalid = [] then none
  else some (context.build host .atlasNeedsAdaptation
    "Project Atlas is declared but required manifests need attention."
    "Review the missing or invalid manifests, then preview an authorized adaptation." missing invalid true)

def ready : ProjectInspection :=
  context.build host .atlasReady "Project Atlas manifests are valid and the supported framework is available."
    "Project is ready for Goal planning and execution." [] [] true

/-- `Inspect`, of a full path. -/
def inspectAt (resolved : List Char) : ProjectInspection :=
  let context : Context :=
    { root := resolved
      isGitPresent := host.directoryExists (combine resolved ".git".toList)
      manifest := Manifest.readFile host (Context.manifestPath resolved) }
  (noManifest host context <|> unreadableManifest host context <|> wrongFramework host context <|>
    unsupportedVersion host context <|> incompleteManifests host context).getD (ready host context)

/-- `Inspect`; nothing where it throws. -/
def inspect (root : List Char) : Option ProjectInspection := (GoalLoader.resolve host root).map (inspectAt host)

/-! ## When a project is called ready -/

/-- What the checks ask for: a manifest of the supported framework, every required file with something in it, and
every required directory. -/
structure Complete (root : List Char) : Prop where
  declared : host.fileExists (Context.manifestPath root) = true
  framework : ∃ manifest framework, Manifest.readFile host (Context.manifestPath root) = .ok manifest ∧
    manifest.section_ "framework" = some framework ∧ framework.text "name" = some supportedFramework ∧
    isSupported (framework.text "version") = true
  files : ∀ relative ∈ requiredManifests, host.fileExists (combine root relative.toList) = true ∧
    isUnusable host (combine root relative.toList) = false
  directories : ∀ relative ∈ requiredDirectories, host.directoryExists (combine root relative.toList) = true

variable {host context}

/-- What a check says that objects. -/
def Objection (host : Host) (context : Context) (inspection : ProjectInspection) : Prop :=
  ∃ mode reason recommendation missing invalid frameworkSupported, mode ≠ .atlasReady ∧
    inspection = context.build host mode reason recommendation missing invalid frameworkSupported

theorem noManifest_objects {inspection : ProjectInspection} (h : noManifest host context = some inspection) :
    Objection host context inspection := by
  unfold noManifest at h
  split at h
  · cases h
  · cases h
    exact ⟨_, _, _, _, _, _, ProjectMode.noConfusion, rfl⟩

theorem unreadableManifest_objects {inspection : ProjectInspection}
    (h : unreadableManifest host context = some inspection) : Objection host context inspection := by
  unfold unreadableManifest at h
  split at h
  · cases h
    exact ⟨_, _, _, _, _, _, ProjectMode.noConfusion, rfl⟩
  · cases h

theorem wrongFramework_objects {inspection : ProjectInspection} (h : wrongFramework host context = some inspection) :
    Objection host context inspection := by
  unfold wrongFramework at h
  split at h
  · cases h
  · cases h
    exact ⟨_, _, _, _, _, _, ProjectMode.noConfusion, rfl⟩

theorem unsupportedVersion_objects {inspection : ProjectInspection}
    (h : unsupportedVersion host context = some inspection) : Objection host context inspection := by
  unfold unsupportedVersion at h
  split at h
  · cases h
  · cases h
    exact ⟨_, _, _, _, _, _, ProjectMode.noConfusion, rfl⟩

theorem incompleteManifests_objects {inspection : ProjectInspection}
    (h : incompleteManifests host context = some inspection) : Objection host context inspection := by
  unfold incompleteManifests at h
  dsimp only at h
  split at h
  · cases h
  · cases h
    exact ⟨_, _, _, _, _, _, ProjectMode.noConfusion, rfl⟩

variable (host context) in
theorem incompleteManifests_eq_none : incompleteManifests host context = none ↔
    (∀ relative ∈ requiredManifests, host.fileExists (combine context.root relative.toList) = true ∧
      isUnusable host (combine context.root relative.toList) = false) ∧
    ∀ relative ∈ requiredDirectories, host.directoryExists (combine context.root relative.toList) = true := by
  have hnone : incompleteManifests host context = none ↔
      missingManifests host context = [] ∧ invalidManifests host context = [] := by
    unfold incompleteManifests
    dsimp only
    split <;> simp_all
  have hmissing : missingManifests host context = [] ↔
      (∀ relative ∈ requiredManifests, host.fileExists (combine context.root relative.toList) = true) ∧
      ∀ relative ∈ requiredDirectories, host.directoryExists (combine context.root relative.toList) = true := by
    simp [missingManifests, List.filter_eq_nil_iff]
  rw [hnone]
  constructor
  · rintro ⟨hnothing, hinvalid⟩
    obtain ⟨hfiles, hdirectories⟩ := hmissing.mp hnothing
    refine ⟨fun relative hrelative => ⟨hfiles relative hrelative, ?_⟩, hdirectories⟩
    unfold invalidManifests at hinvalid
    rw [hnothing] at hinvalid
    have hnot := List.filter_eq_nil_iff.mp hinvalid relative (List.mem_filter.mpr ⟨hrelative, by simp⟩)
    simpa using hnot
  · rintro ⟨hfiles, hdirectories⟩
    refine ⟨hmissing.mpr ⟨fun relative hrelative => (hfiles relative hrelative).1, hdirectories⟩, ?_⟩
    unfold invalidManifests
    rw [List.filter_eq_nil_iff]
    intro relative hrelative
    rw [(hfiles relative (List.mem_filter.mp hrelative).1).2]
    simp

variable (context) in
/-- The framework that a manifest declares, and its version. -/
theorem framework_iff : (context.frameworkName = some supportedFramework ∧ isSupported context.frameworkVersion = true) ↔
    ∃ manifest framework, context.manifest = .ok manifest ∧ manifest.section_ "framework" = some framework ∧
      framework.text "name" = some supportedFramework ∧ isSupported (framework.text "version") = true := by
  unfold Context.frameworkName Context.frameworkVersion Context.section_
  cases hmanifest : context.manifest with
  | error error => simp [Except.toOption]
  | ok manifest =>
      cases hsection : manifest.section_ "framework" with
      | none => simp [Except.toOption, hsection]
      | some framework => simp [Except.toOption, hsection]

theorem Objection.mode {inspection : ProjectInspection} (h : Objection host context inspection) :
    inspection.mode ≠ .atlasReady := by
  obtain ⟨mode, _, _, _, _, _, hmode, rfl⟩ := h
  exact hmode

/-- A check that objects decides. -/
theorem mode_of_orElse {check rest : Option ProjectInspection} {last : ProjectInspection}
    (h : ∀ inspection, check = some inspection → Objection host context inspection) :
    ((check <|> rest).getD last).mode = .atlasReady ↔ check = none ∧ (rest.getD last).mode = .atlasReady := by
  cases check with
  | none => simp
  | some inspection => simpa using (h inspection rfl).mode

/-- Where none objects the last word is that the project is ready. -/
theorem mode_of_last {check : Option ProjectInspection}
    (h : ∀ inspection, check = some inspection → Objection host context inspection) :
    (check.getD (ready host context)).mode = .atlasReady ↔ check = none := by
  cases check with
  | none => exact iff_of_true rfl rfl
  | some inspection => simpa using (h inspection rfl).mode

/-- **A project is called ready** iff its manifests are complete, whatever its goals are. -/
theorem ready_iff {root : List Char} : (inspectAt host root).mode = .atlasReady ↔ Complete host root := by
  unfold inspectAt
  dsimp only
  generalize hmanifest : Manifest.readFile host (Context.manifestPath root) = manifest
  generalize hcontext : Context.mk root (host.directoryExists (combine root ".git".toList)) manifest = context
  have hroot : context.root = root := by rw [← hcontext]
  have hread : context.manifest = manifest := by rw [← hcontext]
  have hdeclared : noManifest host context = none ↔ host.fileExists (Context.manifestPath root) = true := by
    rw [noManifest, hroot]
    split <;> simp_all
  have hreadable : unreadableManifest host context = none ↔ ∃ read, manifest = .ok read := by
    rw [unreadableManifest, hread]
    cases manifest <;> simp
  have hname : wrongFramework host context = none ↔ context.frameworkName = some supportedFramework := by
    unfold wrongFramework
    split <;> simp_all
  have hversion : unsupportedVersion host context = none ↔ isSupported context.frameworkVersion = true := by
    unfold unsupportedVersion
    split <;> simp_all
  have hframework := framework_iff context
  have hincomplete := incompleteManifests_eq_none host context
  rw [hread] at hframework
  rw [hroot] at hincomplete
  rw [mode_of_orElse fun _ => noManifest_objects, mode_of_orElse fun _ => unreadableManifest_objects,
    mode_of_orElse fun _ => wrongFramework_objects, mode_of_orElse fun _ => unsupportedVersion_objects,
    mode_of_last fun _ => incompleteManifests_objects, hdeclared, hreadable, hname, hversion, hincomplete]
  constructor
  · rintro ⟨hfile, -, hsame, hsupported, hfiles, hdirectories⟩
    obtain ⟨read, framework, hok, hsection, htext⟩ := hframework.mp ⟨hsame, hsupported⟩
    exact ⟨hfile, ⟨read, framework, hmanifest.trans hok, hsection, htext⟩, hfiles, hdirectories⟩
  · rintro ⟨hfile, ⟨read, framework, hok, hsection, htext⟩, hfiles, hdirectories⟩
    have hok' : manifest = .ok read := hmanifest.symm.trans hok
    obtain ⟨hsame, hsupported⟩ := hframework.mpr ⟨read, framework, hok', hsection, htext⟩
    exact ⟨hfile, ⟨read, hok'⟩, hsame, hsupported, hfiles, hdirectories⟩

/-! ## When a project that is called ready can be planned -/

open GoalLoader (resolve load cacheAfter AreGoalsOf IsGoalFile Loadable goalsDirectory)

/-- A project that is called ready may be planned, and whenever its goals are asked for they are those of its goal
files; and one with a goal file that is no goal is not called ready. -/
def PlansWhatIsReady (host : Host) (projectRoot : List Char) : Prop :=
  (∀ root inspection, resolve host projectRoot = some root → inspect host projectRoot = some inspection →
    inspection.mode = .atlasReady → inspection.capabilities.canPlan = true ∧
      ∀ n, ∃ goals, (load host (cacheAfter host projectRoot n) projectRoot).1 = .ok goals ∧ AreGoalsOf host root goals) ∧
  ∀ root inspection files path, resolve host projectRoot = some root → inspect host projectRoot = some inspection →
    host.enumerateFiles (combine root goalsDirectory) = some files → path ∈ files → ¬IsGoalFile host path →
      inspection.mode ≠ .atlasReady

theorem inspect_eq {projectRoot root : List Char} (h : resolve host projectRoot = some root) :
    inspect host projectRoot = some (inspectAt host root) := by
  rw [inspect, h]
  rfl

/-- What may be done with a project goes by its mode. -/
def GoesByMode (inspection : ProjectInspection) : Prop :=
  inspection.capabilities.canPlan = true ↔ inspection.mode = .atlasReady

theorem Objection.goesByMode {inspection : ProjectInspection} (h : Objection host context inspection) :
    GoesByMode inspection := by
  obtain ⟨mode, _, _, _, _, _, -, rfl⟩ := h
  exact decide_eq_true_iff

theorem goesByMode_of_orElse {check rest : Option ProjectInspection} {last : ProjectInspection}
    (h : ∀ inspection, check = some inspection → Objection host context inspection)
    (hrest : GoesByMode (rest.getD last)) : GoesByMode ((check <|> rest).getD last) := by
  cases check with
  | none => simpa using hrest
  | some inspection => exact (h inspection rfl).goesByMode

theorem goesByMode_inspectAt {root : List Char} : GoesByMode (inspectAt host root) := by
  refine goesByMode_of_orElse (fun _ => noManifest_objects) (goesByMode_of_orElse
    (fun _ => unreadableManifest_objects) (goesByMode_of_orElse (fun _ => wrongFramework_objects)
    (goesByMode_of_orElse (fun _ => unsupportedVersion_objects) ?_)))
  generalize Context.mk _ _ _ = context
  cases h : incompleteManifests host context with
  | none => exact decide_eq_true_iff (p := ProjectMode.atlasReady = .atlasReady)
  | some inspection => exact (incompleteManifests_objects h).goesByMode

/-- The directory for goals is one of those that are required. -/
theorem Complete.goals {root : List Char} (h : Complete host root) :
    host.directoryExists (combine root goalsDirectory) = true :=
  h.directories ".ai/goals" (List.mem_singleton_self _)

/-- **A project that is called ready can be planned** iff its manifests are not complete, or its goals can be
loaded: every directory for them may be listed and every file there is a goal. -/
theorem plansWhatIsReady_iff (host : Host) (projectRoot : List Char) : PlansWhatIsReady host projectRoot ↔
    ∀ root, resolve host projectRoot = some root → Complete host root → Loadable host root := by
  constructor
  · rintro ⟨hplans, -⟩ root hroot hcomplete
    obtain ⟨-, hload⟩ := hplans root _ hroot (inspect_eq hroot) (ready_iff.mpr hcomplete)
    obtain ⟨goals, -, hgoals⟩ := hload 0
    exact hgoals.loadable
  · intro h
    constructor
    · intro root inspection hroot hinspect hready
      rw [inspect_eq hroot, Option.some.injEq] at hinspect
      subst hinspect
      have hcomplete := ready_iff.mp hready
      obtain ⟨goals, hread⟩ := GoalLoader.exists_read_ok.mpr ⟨hcomplete.goals, h root hroot hcomplete⟩
      exact ⟨goesByMode_inspectAt.mpr hready, fun n =>
        ⟨goals, (GoalLoader.load_cacheAfter_ok hroot n).mpr hread, GoalLoader.read_ok hread⟩⟩
    · intro root inspection files path hroot hinspect hfiles hpath hbad hready
      rw [inspect_eq hroot, Option.some.injEq] at hinspect
      subst hinspect
      obtain ⟨files', hfiles', hgoals⟩ := h root hroot (ready_iff.mp hready)
      rw [hfiles, Option.some.injEq] at hfiles'
      subst hfiles'
      exact hbad (hgoals path hpath)

/-! ### A project with everything but a goal's id -/

section Sample

open Yaml (word block)

/-- The texts of a project, and what YAML makes of them. -/
def sampleTexts : List (String × List Yaml.Node) :=
  [("framework:\n  name: project-atlas-framework\n  version: \"0.1.0\"\n",
      [block [(word "framework", block [(word "name", word "project-atlas-framework"),
        (word "version", .scalar { plain := false, text := "0.1.0" })])]]),
    ("id: demo-project\n", [block [(word "id", word "demo-project")]]),
    ("state: READY\n", [block [(word "state", word "READY")]])]

def sampleYaml (text : String) : Except String (List Yaml.Node) :=
  match sampleTexts.find? fun sample => sample.1 = text with
  | some sample => .ok sample.2
  | none => .error "While parsing a node, did not find expected node content."

def samplePath (path : String) : Location := path.toList.splitOn '/'

def sampleItems : Dict Location Shown :=
  [("p", .directory true),
    ("p/PROJECT_MANIFEST.yaml",
      .file (some "framework:\n  name: project-atlas-framework\n  version: \"0.1.0\"\n")),
    ("p/ENTRYPOINT.md", .file (some "# Entry")), ("p/PROJECT_STATE.md", .file (some "# State")),
    ("p/docs", .directory true), ("p/docs/ATLAS.md", .file (some "# Atlas")), ("p/.ai", .directory true),
    ("p/.ai/context", .directory true), ("p/.ai/context/project-profile.yaml", .file (some "id: demo-project\n")),
    ("p/.ai/agents", .directory true), ("p/.ai/agents/manifest.yaml", .file (some "id: demo-project\n")),
    ("p/.ai/skills", .directory true), ("p/.ai/skills/manifest.yaml", .file (some "id: demo-project\n")),
    ("p/.ai/recipes", .directory true), ("p/.ai/recipes/manifest.yaml", .file (some "id: demo-project\n")),
    ("p/.ai/orchestration", .directory true),
    ("p/.ai/orchestration/model-policy.yaml", .file (some "id: demo-project\n")),
    ("p/.ai/orchestration/autonomy-policy.yaml", .file (some "id: demo-project\n")),
    ("p/.ai/orchestration/orchestrator.yaml", .file (some "id: demo-project\n")),
    ("p/.ai/orchestration/fallbacks.yaml", .file (some "id: demo-project\n")),
    ("p/.ai/goals", .directory true), ("p/.ai/goals/g.yaml", .file (some "state: READY\n"))].map fun item =>
    (samplePath item.1, item.2)

def sampleHost : Host where
  items := sampleItems
  nodup := by decide +kernel
  named := by decide +kernel
  placed := by decide +kernel
  working := ⟨[], isNames_nil⟩
  ignoresCase := false
  refusal path := "Could not find file '" ++ String.ofList path ++ "'."
  lastWrite _ := some 0
  yaml := sampleYaml

/-- The project is called ready, and its goals cannot be loaded. -/
theorem ready_without_id : ¬PlansWhatIsReady sampleHost "/p".toList := by
  rintro ⟨hplans, -⟩
  have hroot : resolve sampleHost "/p".toList = some "/p".toList := by decide +kernel
  have hmode : (inspectAt sampleHost "/p".toList).mode = .atlasReady := by decide +kernel
  have hfiles : sampleHost.enumerateFiles (combine "/p".toList goalsDirectory) =
      some ["/p/.ai/goals/g.yaml".toList] := by decide +kernel
  obtain ⟨-, hload⟩ := hplans _ _ hroot (inspect_eq hroot) hmode
  obtain ⟨goals, -, hgoals⟩ := hload 0
  obtain ⟨files, hlisted, hall⟩ := hgoals.loadable
  rw [hfiles, Option.some.injEq] at hlisted
  subst hlisted
  obtain ⟨manifest, hmanifest, ⟨id, hid⟩, -⟩ := hall _ (List.mem_singleton_self _)
  have hnone : ((Manifest.readFile sampleHost "/p/.ai/goals/g.yaml".toList).toOption.bind fun manifest =>
      manifest.text "id") = none := by decide +kernel
  rw [hmanifest] at hnone
  exact Option.some_ne_none id (hid.symm.trans hnone)

end Sample

end ProjectInspector

end AtlasFlow
