import AtlasFlow.Reference.Config

/-!
# What the Settings screen shows

`settings.py`: for each setting its value and the layer that decides it. The layers are read here a second
time, beside the runtime's own reading of them.
-/

namespace AtlasFlow.Reference.Settings

inductive ConfigSource where
  | default
  | project
  | user
  | environment
  deriving DecidableEq, Repr

inductive ConfigScope where
  | user
  | project
  deriving DecidableEq, Repr

structure SettingSpec where
  key : String
  default : Value
  scope : ConfigScope
  restartRequired : Bool
  appliesTo : String
  description : String
  kind : String := "text"

/-- `SETTING_SPECS`. -/
def settingSpecs : List SettingSpec :=
  [⟨"autonomy_mode", .str "agentic", .project, true, "new plans and runs", "Default autonomy policy.", "select"⟩,
    ⟨"planning_requires_human", .bool true, .project, false, "new plans",
      "Require approval before a plan is locked.", "boolean"⟩,
    ⟨"max_parallel_tasks", .number 4, .project, false, "new runs", "Maximum concurrent tasks.", "integer"⟩,
    ⟨"max_retries_per_task", .number 3, .project, false, "new plans and runs", "Retries allowed for each task.",
      "integer"⟩,
    ⟨"max_fallback_attempts", .number 2, .project, false, "new runs", "Fallback models allowed for a failed task.",
      "integer"⟩,
    ⟨"max_tokens_per_run", .number 1000000, .project, false, "new runs",
      "Reported token ceiling; zero disables this dimension.", "integer"⟩,
    ⟨"max_cost_per_run_usd", .number 10, .project, false, "new runs",
      "Reported cost ceiling; zero disables this dimension.", "number"⟩,
    ⟨"isolate_mutating_tasks", .bool true, .project, true, "new runs", "Use isolated worktrees for mutating tasks.",
      "boolean"⟩,
    ⟨"worktree_strategy", .str "per-task", .project, true, "new runs", "How mutating tasks receive worktrees.",
      "select"⟩,
    ⟨"command_code_timeout_seconds", .number 600, .user, false, "new runs", "Command Code timeout.", "integer"⟩,
    ⟨"command_code_max_turns", .number 50, .user, false, "new runs", "Maximum Command Code turns.", "integer"⟩,
    ⟨"mcp_enabled", .bool false, .project, true, "new runs", "Forward declared MCP servers to agents.", "boolean"⟩,
    ⟨"mcp_servers", .list [], .project, true, "new runs", "Optional MCP server allowlist.", "list"⟩,
    ⟨"log_level", .str "INFO", .user, true, "backend restart", "Backend log level.", "select"⟩,
    ⟨"artifact_retention_days", .number 30, .user, false, "future cleanup", "Retention for generated artifacts.",
      "integer"⟩,
    ⟨"transcript_retention_days", .number 90, .user, false, "future cleanup", "Retention for transcripts.",
      "integer"⟩]

/-- `ENVIRONMENT_FIELDS`. -/
def environmentFields : Dict String String :=
  [("max_parallel_tasks", "ATLAS_FLOW_MAX_PARALLEL"), ("max_retries_per_task", "ATLAS_FLOW_MAX_RETRIES"),
    ("log_level", "ATLAS_FLOW_LOG_LEVEL"), ("autonomy_mode", "ATLAS_FLOW_AUTONOMY"),
    ("state_dir", "ATLAS_FLOW_STATE_DIR")]

/-- Where a file of the project declares a setting: the file, the section in it if it has any, and the field. -/
structure Place where
  relative : String
  inSection : Option String
  field : String

/-- `PROJECT_FILES`. -/
def projectFiles : Dict String Place :=
  [("autonomy_mode", ⟨".ai/orchestration/autonomy-policy.yaml", some "project_policy", "current"⟩),
    ("isolate_mutating_tasks", ⟨".ai/orchestration/orchestrator.yaml", some "execution", "isolate_mutating_tasks"⟩),
    ("worktree_strategy", ⟨".ai/orchestration/orchestrator.yaml", some "execution", "worktree_strategy"⟩),
    ("max_retries_per_task", ⟨".ai/orchestration/fallbacks.yaml", some "quality", "max_cross_model_attempts"⟩),
    ("mcp_enabled", ⟨".ai/orchestration/mcp-servers.yaml", none, "enabled"⟩),
    ("planning_requires_human", ⟨".ai/orchestration/settings.yaml", none, "planning_requires_human"⟩),
    ("max_parallel_tasks", ⟨".ai/orchestration/settings.yaml", none, "max_parallel_tasks"⟩),
    ("max_fallback_attempts", ⟨".ai/orchestration/settings.yaml", none, "max_fallback_attempts"⟩),
    ("max_tokens_per_run", ⟨".ai/orchestration/settings.yaml", none, "max_tokens_per_run"⟩),
    ("max_cost_per_run_usd", ⟨".ai/orchestration/settings.yaml", none, "max_cost_per_run_usd"⟩),
    ("mcp_servers", ⟨".ai/orchestration/settings.yaml", none, "mcp_servers"⟩)]

structure SettingView where
  key : String
  value : Value
  default : Value
  source : ConfigSource
  scope : ConfigScope
  restartRequired : Bool
  appliesTo : String
  description : String
  kind : String
  environmentVariable : Option String := none

/-- `_convert`. -/
def convert (m : Machine) (value kind : String) : Except ConfigError Value :=
  if kind = "boolean" then .ok (.bool (["1", "true", "yes", "on"].contains value.toLower))
  else if kind = "integer" then match m.int value with
    | .ok n => .ok (.number n)
    | .error exn => .error (.raised exn)
  else if kind = "number" then match m.float value with
    | .ok q => .ok (.number q)
    | .error exn => .error (.raised exn)
  else .ok (.str value)

/-- The exceptions that `_read_yaml` turns into a `SettingsError`. -/
def unreadable (path : String) : ConfigError → ConfigError
  | .yamlError message => .settingsError s!"Could not read settings file {path}: {message}"
  | .raised (.osError message) => .settingsError s!"Could not read settings file {path}: {message}"
  | exn => exn

/-- `_read_yaml`. -/
def readYaml (m : Machine) (path : String) : Except ConfigError (Dict Key Value) :=
  match m.utf8 path with
  | none => .ok []
  | some (.error exn) => .error (unreadable path exn)
  | some (.ok (.dict data)) => .ok data
  | some (.ok _) => .ok []

/-- `data`, or its section. -/
def Place.target (place : Place) (data : Dict Key Value) : Option (Dict Key Value) :=
  match place.inSection with
  | none => some data
  | some name => getDict data name

/-- One turn of the loop over `PROJECT_FILES`. -/
def readOverride (m : Machine) (result : Dict String (Value × ConfigSource)) (item : String × Place) :
    Except ConfigError (Dict String (Value × ConfigSource)) := do
  let data ← readYaml m item.2.relative
  match (item.2.target data).bind fun value => value.get? (.str item.2.field) with
  | some value => return result.set item.1 (value, .project)
  | none => return result

/-- `_read_project_overrides`. -/
def readProjectOverrides (m : Machine) : Except ConfigError (Dict String (Value × ConfigSource)) :=
  projectFiles.foldlM (readOverride m) []

/-- The variable that sets a key, and its text. -/
def environmentText (m : Machine) (key : String) : Option String :=
  (environmentFields.get? key).bind fun name => m.environ.get? name

/-- What the files say about a key, over what the runtime has loaded. -/
def fromFiles (user : Dict Key Value) (project : Dict String (Value × ConfigSource)) (key : String)
    (value : Value) : Value × ConfigSource :=
  match user.get? (.str key) with
  | some value => (value, .user)
  | none => (project.get? key).getD (value, .default)

/-- The value of a setting, and the layer that it comes from. -/
def layered (m : Machine) (user : Dict Key Value) (project : Dict String (Value × ConfigSource))
    (spec : SettingSpec) (loaded : Value) : Except ConfigError (Value × ConfigSource) :=
  match environmentText m spec.key with
  | some text => (convert m text spec.kind).map fun value => (value, .environment)
  | none => .ok (fromFiles user project spec.key loaded)

/-- One turn of the loop over `SETTING_SPECS`. -/
def settingView (m : Machine) (config : Attributes) (user : Dict Key Value)
    (project : Dict String (Value × ConfigSource)) (spec : SettingSpec) : Except ConfigError SettingView := do
  let loaded ← getAttribute m config spec.key
  let (value, source) ← layered m user project spec loaded
  return {
    key := spec.key
    value := value
    default := spec.default
    source := source
    scope := spec.scope
    restartRequired := spec.restartRequired
    appliesTo := spec.appliesTo
    description := spec.description
    kind := spec.kind
    environmentVariable := environmentFields.get? spec.key }

/-- `load_settings`. -/
def loadSettings (m : Machine) : Except ConfigError (Dict String SettingView) := do
  let config ← load m
  let user ← readYaml m userPath
  let project ← readProjectOverrides m
  settingSpecs.foldlM (fun values spec => do
    let view ← settingView m config user project spec
    return values.set spec.key view) []

/-! ## What the screen reads -/

/-- The mapping in the user's file. -/
def userFile (files : Files) : Dict Key Value :=
  match files userPath with
  | some (.ok (.dict data)) => data
  | _ => []

/-- What the file of the project that is said to hold a key declares for it. -/
def declared (files : Files) (key : String) : Option Value :=
  (projectFiles.get? key).bind fun place =>
    inFile files place.relative fun data => (place.target data).bind fun value => value.get? (.str place.field)

section Shown

variable {m : Machine} {result last : Dict String (Value × ConfigSource)} {data : Dict Key Value}

theorem readYaml_user (h : readYaml m userPath = .ok data) : data = userFile m.utf8 := by
  unfold readYaml at h
  unfold userFile
  split at h <;> simp_all

theorem readYaml_bind {path : String} (h : readYaml m path = .ok data) {f : Dict Key Value → Option Value}
    (hf : f [] = none) : f data = inFile m.utf8 path f := by
  unfold readYaml at h
  unfold inFile
  split at h <;> simp_all

theorem Place.none_of_empty (place : Place) :
    ((place.target []).bind fun value => value.get? (.str place.field)) = none := by
  cases hsection : place.inSection <;> simp [Place.target, hsection, getDict]

theorem get?_readOverride {item : String × Place} {key : String} (h : readOverride m result item = .ok last) :
    last.get? key = if item.1 = key then
      ((inFile m.utf8 item.2.relative fun data => (item.2.target data).bind fun value =>
        value.get? (.str item.2.field)).map fun value => (value, ConfigSource.project)).or (result.get? key)
    else result.get? key := by
  obtain ⟨data, hdata, h⟩ := ok_of_bind h
  rw [← readYaml_bind hdata item.2.none_of_empty]
  split at h
  · next value hvalue =>
    cases h
    rw [hvalue, Dict.get?_set]
    simp
  · next hvalue =>
    cases h
    simp [hvalue]

/-- The loop over a table of places finds for each key what its place holds. -/
theorem get?_foldlM_readOverride {table : Dict String Place} {key : String} (hdistinct : table.keys.Nodup)
    (h : table.foldlM (readOverride m) result = .ok last) :
    last.get? key = (((table.get? key).bind fun place => inFile m.utf8 place.relative fun data =>
      (place.target data).bind fun value => value.get? (.str place.field)).map fun value =>
        (value, ConfigSource.project)).or (result.get? key) := by
  induction table generalizing result with
  | nil =>
      cases h
      rfl
  | cons item table ih =>
      obtain ⟨hnew, hnodup⟩ := List.nodup_cons.mp (show (item.1 :: Dict.keys table).Nodup from hdistinct)
      rw [List.foldlM_cons] at h
      obtain ⟨next, hone, hfold⟩ := ok_of_bind h
      rw [ih hnodup hfold, get?_readOverride hone, Dict.get?_cons]
      split
      · next heq =>
        rw [Dict.get?_eq_none.mpr (heq ▸ hnew)]
        rfl
      · rfl

theorem get?_readProjectOverrides (h : readProjectOverrides m = .ok result) (key : String) :
    result.get? key = (declared m.utf8 key).map fun value => (value, .project) := by
  rw [get?_foldlM_readOverride (by decide) h, Dict.get?_nil, Option.or_none]
  rfl

/-- What the files show for a key, if they show anything. -/
theorem fromFiles_value {user : Dict Key Value} {key : String} {value : Value}
    (h : result.get? key = (declared m.utf8 key).map fun value => (value, .project)) :
    (fromFiles user result key value).1 =
      ((user.get? (.str key)).or (declared m.utf8 key)).getD value := by
  unfold fromFiles
  cases user.get? (.str key) with
  | some value => rfl
  | none =>
      rw [h]
      cases declared m.utf8 key <;> rfl

/-- A loop that fills a dictionary, key by key. -/
theorem get?_foldlM_set {α ν : Type} {f : α → Except ConfigError ν} {key : α → String} {xs : List α}
    {values filled : Dict String ν} (hdistinct : (xs.map key).Nodup)
    (h : xs.foldlM (fun values x => do
      let value ← f x
      return values.set (key x) value) values = .ok filled) :
    (∀ x ∈ xs, ∃ value, f x = .ok value ∧ filled.get? (key x) = some value) ∧
      ∀ name, name ∉ xs.map key → filled.get? name = values.get? name := by
  induction xs generalizing values with
  | nil =>
      cases h
      simp
  | cons x xs ih =>
      rw [List.map_cons, List.nodup_cons] at hdistinct
      rw [List.foldlM_cons] at h
      obtain ⟨next, hone, hfold⟩ := ok_of_bind h
      obtain ⟨value, hvalue, hnext⟩ := ok_of_bind hone
      cases hnext
      obtain ⟨hall, hkept⟩ := ih hdistinct.2 hfold
      constructor
      · intro y hy
        rcases List.mem_cons.mp hy with rfl | hmem
        · exact ⟨value, hvalue, by rw [hkept _ hdistinct.1, Dict.get?_set_self]⟩
        · exact hall y hmem
      · intro name hname
        rw [List.map_cons, List.mem_cons, not_or] at hname
        rw [hkept name hname.2, Dict.get?_set_of_ne _ _ (Ne.symm hname.1)]

/-- The value that is shown for a setting: the environment's, the files', or what the runtime has loaded. -/
theorem shown_value {views : Dict String SettingView} (h : loadSettings m = .ok views) {spec : SettingSpec}
    (hspec : spec ∈ settingSpecs) : ∃ config view loaded, load m = .ok config ∧
      views.get? spec.key = some view ∧ getAttribute m config spec.key = .ok loaded ∧
      match environmentText m spec.key with
      | some text => convert m text spec.kind = .ok view.value
      | none => view.value =
        (((userFile m.utf8).get? (.str spec.key)).or (declared m.utf8 spec.key)).getD loaded := by
  obtain ⟨config, hconfig, h⟩ := ok_of_bind h
  obtain ⟨user, huser, h⟩ := ok_of_bind h
  obtain ⟨project, hproject, h⟩ := ok_of_bind h
  have hdistinct : (settingSpecs.map SettingSpec.key).Nodup := by decide
  obtain ⟨view, hview, hget⟩ := (get?_foldlM_set hdistinct h).1 spec hspec
  obtain ⟨loaded, hloaded, hview⟩ := ok_of_bind hview
  refine ⟨config, view, loaded, hconfig, hget, hloaded, ?_⟩
  obtain ⟨⟨value, source⟩, hvalue, hview⟩ := ok_of_bind hview
  cases hview
  unfold layered at hvalue
  cases htext : environmentText m spec.key with
  | some text =>
      simp only [htext] at hvalue
      cases hconvert : convert m text spec.kind with
      | error exn => simp [hconvert, Except.map] at hvalue
      | ok converted =>
          simp only [hconvert, Except.map, Except.ok.injEq, Prod.mk.injEq] at hvalue
          exact hconvert.trans (congrArg Except.ok hvalue.1)
  | none =>
      simp only [htext, Except.ok.injEq] at hvalue
      have hfiles : (fromFiles user project spec.key loaded).1 = _ :=
        fromFiles_value (get?_readProjectOverrides hproject spec.key)
      rw [hvalue, readYaml_user huser] at hfiles
      exact hfiles

end Shown

/-! ## What the runtime reads -/

section Loaded

variable {m : Machine} {config attributes merged : Attributes} {spec : SettingSpec}

theorem environmentFields_of_row : ∀ spec ∈ settingSpecs, ∀ row ∈ envMap, row.2.1 = spec.key →
    environmentFields.get? spec.key = some row.1 := by
  decide

theorem row_of_environmentFields : ∀ spec ∈ settingSpecs, ∀ name ∈ environmentFields.get? spec.key,
    ∃ row ∈ envMap, row.1 = name ∧ row.2.1 = spec.key ∧
      (row.2.2 = .int ∧ spec.kind = "integer" ∨ row.2.2 = .str ∧ spec.kind = "select") := by
  decide

/-- Both tables of the environment name the same variables, and both conversions agree on them. -/
theorem loaded_environment (h : load m = .ok config) : ∃ attributes, loadFiles m = .ok attributes ∧
    ∀ spec ∈ settingSpecs, match environmentText m spec.key with
      | some text => ∃ value, convert m text spec.kind = .ok value ∧ getAttribute m config spec.key = .ok value
      | none => getAttribute m config spec.key = getAttribute m attributes spec.key := by
  obtain ⟨attributes, hfiles, h⟩ := ok_of_bind h
  obtain ⟨overridden, hfold, hsame⟩ := applyEnvOverrides_ok h
  refine ⟨attributes, hfiles, fun spec hspec => ?_⟩
  have hagent : ∀ spec ∈ settingSpecs, spec.key ≠ "acp_agent_command" := by decide
  have hget := hsame spec.key (hagent spec hspec)
  cases htext : environmentText m spec.key with
  | none =>
      have hunset : ∀ row ∈ envMap, row.2.1 = spec.key → m.environ.get? row.1 = none := fun row hrow hkey => by
        rw [environmentText, environmentFields_of_row spec hspec row hrow hkey] at htext
        exact htext
      rw [getAttribute, getAttribute, hget, get?_of_unset hfold hunset]
  | some text =>
      obtain ⟨name, hname, htext⟩ := Option.bind_eq_some_iff.mp htext
      obtain ⟨row, hrow, rfl, hkey, hkind⟩ := row_of_environmentFields spec hspec name hname
      obtain ⟨value, hvalue, hset⟩ := get?_of_set hfold (by decide) hrow htext
      refine ⟨value, ?_, getAttribute_of_get? (by rw [hget, ← hkey, hset])⟩
      rcases hkind with ⟨hconverter, hkind⟩ | ⟨hconverter, hkind⟩
      · rw [← hvalue, hconverter, hkind]
        rfl
      · rw [← hvalue, hconverter, hkind]
        rfl

/-- Of what the files declare for a setting the runtime takes all but the switch of the tool servers, which it
never looks for, and a policy that is null. -/
theorem loaded_project (h : loadProjectConfig m = .ok merged) (hspec : spec ∈ settingSpecs) :
    merged.get? spec.key = (declared m.locale spec.key).filter fun value =>
      spec.key ≠ "mcp_enabled" && (spec.key ≠ "autonomy_mode" || value.isSet) := by
  have hall : ∀ value : Option Value, (value.filter fun _ => true) = value := fun value => by cases value <;> rfl
  rw [get?_mergeAll h]
  simp only [settingSpecs, List.mem_cons, List.not_mem_nil, or_false] at hspec
  rcases hspec with rfl | rfl | rfl | rfl | rfl | rfl | rfl | rfl | rfl | rfl | rfl | rfl | rfl | rfl | rfl | rfl
  all_goals
    simp [declared, projectFiles, Dict.get?_cons, ofSettings, ofFallbacks, ofExecution, ofAutonomy, known,
      Place.target, configDir, filter_inFile, hall]

theorem get?_initial (projectId : String) (hspec : spec ∈ settingSpecs) :
    (initial m projectId).get? spec.key = some spec.default := by
  simp only [settingSpecs, List.mem_cons, List.not_mem_nil, or_false] at hspec
  rcases hspec with rfl | rfl | rfl | rfl | rfl | rfl | rfl | rfl | rfl | rfl | rfl | rfl | rfl | rfl | rfl | rfl
  all_goals rfl

theorem loadUserConfig_ok {user : Dict Key Value} (h : loadUserConfig m = .ok user) : user = userFile m.locale := by
  unfold loadUserConfig at h
  unfold userFile
  split at h <;> simp_all

theorem userFile_distinct : (userFile m.locale).keys.Nodup := by
  unfold userFile
  split
  · next items hload => exact m.locale_distinct userPath items hload
  · exact List.nodup_nil

/-- Unless the user's file replaces the object's attributes, each setting holds what the user's file says, else
what the project says, else its default. -/
theorem loaded_files (h : loadFiles m = .ok attributes) (hspec : spec ∈ settingSpecs)
    (hdict : ∀ item ∈ userFile m.locale, item.1 ≠ .str "__dict__") :
    attributes.get? spec.key = ((userFile m.locale).get? (.str spec.key)).or
      (((declared m.locale spec.key).filter fun value =>
        spec.key ≠ "mcp_enabled" && (spec.key ≠ "autonomy_mode" || value.isSet)).or (some spec.default)) := by
  obtain ⟨projectId, -, h⟩ := ok_of_bind h
  obtain ⟨merged, hmerged, h⟩ := ok_of_bind h
  obtain ⟨project, hproject, h⟩ := ok_of_bind h
  obtain ⟨user, huser, huserLayer⟩ := ok_of_bind h
  obtain rfl := loadUserConfig_ok huser
  have hinjective : Function.Injective Key.str := fun a b heq => Key.str.inj heq
  have hkeys : (Dict.keys (merged.map fun item => (Key.str item.1, item.2))) = merged.keys.map Key.str := by
    simp [Dict.keys]
  have hnoDict : ∀ item ∈ merged.map fun item => (Key.str item.1, item.2), item.1 ≠ .str "__dict__" := by
    intro item hitem heq
    have hkey : Key.str "__dict__" ∈ merged.keys.map Key.str := by
      rw [← hkeys, ← heq]
      exact List.mem_map_of_mem hitem
    rw [List.mem_map_of_injective hinjective] at hkey
    refine absurd hkey (Dict.get?_eq_none.mp ?_)
    rw [get?_mergeAll hmerged]
    simp [ofSettings, ofFallbacks, ofExecution, ofAutonomy, known]
  have hfirst := get?_applyOverride hnoDict (hkeys ▸ (nodup_mergeAll hmerged).map hinjective)
    (by rw [get?_initial projectId hspec]; rfl) hproject
  rw [Dict.get?_map_keys hinjective, loaded_project hmerged hspec, get?_initial projectId hspec] at hfirst
  rw [get?_applyOverride hdict userFile_distinct (by simp [hfirst]) huserLayer, hfirst]

end Loaded

/-! ## Both readings -/

section Both

variable {m : Machine} {views : Dict String SettingView} {config : Attributes}

/-- Every setting is shown with the value that the runtime uses. -/
def ShowsWhatRuns (m : Machine) (views : Dict String SettingView) (config : Attributes) : Prop :=
  ∀ spec ∈ settingSpecs, ∃ view, views.get? spec.key = some view ∧
    getAttribute m config spec.key = .ok view.value

/-- Where no variable sets the key, what the screen finds for it in the user's file, or else in the place of the
project that it looks into, is what the runtime has after its own reading of all files. -/
def Agrees (m : Machine) (key : String) : Prop :=
  (environmentText m key).isSome ∨
    ∀ value, ((userFile m.utf8).get? (.str key)).or (declared m.utf8 key) = some value →
      ∃ attributes, loadFiles m = .ok attributes ∧ getAttribute m attributes key = .ok value

/-- A layer above the project's decides the key. -/
def Overridden (m : Machine) (key : String) : Prop :=
  (environmentText m key).isSome ∨ ((userFile m.utf8).get? (.str key)).isSome

/-- The policy that counts is not null, and the switch that the runtime does not read is off. -/
structure Faithful (m : Machine) : Prop where
  policy : Overridden m "autonomy_mode" ∨ declared m.utf8 "autonomy_mode" ≠ some .none
  switch : Overridden m "mcp_enabled" ∨
    ∀ value, declared m.utf8 "mcp_enabled" = some value → value = .bool false

theorem agrees_iff (hviews : loadSettings m = .ok views) (hconfig : load m = .ok config) :
    ShowsWhatRuns m views config ↔ ∀ spec ∈ settingSpecs, Agrees m spec.key := by
  obtain ⟨attributes, hfiles, henvironment⟩ := loaded_environment hconfig
  refine forall₂_congr fun spec hspec => ?_
  obtain ⟨config', view, loaded, hconfig', hview, hloaded, hshown⟩ := shown_value hviews hspec
  cases hconfig.symm.trans hconfig'
  have henv := henvironment spec hspec
  have hview' : (∃ view', views.get? spec.key = some view' ∧ getAttribute m config spec.key = .ok view'.value) ↔
      loaded = view.value := by
    simp [hview, hloaded]
  rw [hview', Agrees]
  cases htext : environmentText m spec.key with
  | some text =>
      simp only [htext] at hshown henv
      obtain ⟨value, hvalue, hget⟩ := henv
      cases hshown.symm.trans hvalue
      cases hloaded.symm.trans hget
      simp
  | none =>
      simp only [htext] at hshown henv
      rw [hloaded] at henv
      rw [hshown]
      cases ((userFile m.utf8).get? (.str spec.key)).or (declared m.utf8 spec.key) with
      | none => simp
      | some value => simp [hfiles, ← henv]

/-- What decides one setting when both readings see the same files. -/
theorem agrees_files (hconfig : load m = .ok config) (hsame : m.locale = m.utf8)
    (hdict : ∀ item ∈ userFile m.utf8, item.1 ≠ .str "__dict__") {spec : SettingSpec} (hspec : spec ∈ settingSpecs) :
    Agrees m spec.key ↔ Overridden m spec.key ∨ ∀ value, declared m.utf8 spec.key = some value →
      (spec.key ≠ "mcp_enabled" && (spec.key ≠ "autonomy_mode" || value.isSet)) = true ∨ value = spec.default := by
  obtain ⟨attributes, hfiles, -⟩ := loaded_environment hconfig
  have hget := loaded_files hfiles hspec (by rw [hsame]; exact hdict)
  rw [hsame] at hget
  have hused : ∀ value, (∃ attributes, loadFiles m = .ok attributes ∧
      getAttribute m attributes spec.key = .ok value) ↔ attributes.get? spec.key = some value := by
    intro value
    obtain ⟨held, hheld⟩ : ∃ held, attributes.get? spec.key = some held := by
      rw [hget]
      cases (userFile m.utf8).get? (.str spec.key) <;> cases (declared m.utf8 spec.key).filter _ <;> simp
    simp [hfiles, getAttribute_of_get? hheld, hheld]
  simp only [Agrees, Overridden, hused, hget, or_assoc]
  refine or_congr_right ?_
  cases (userFile m.utf8).get? (.str spec.key) with
  | some value => simp
  | none =>
      cases declared m.utf8 spec.key with
      | none => simp
      | some value =>
          simp only [Option.none_or, Option.some.injEq, forall_eq', Option.filter_some, Option.isSome_none,
            Bool.false_eq_true, false_or]
          split
          · next hpasses => exact iff_of_true rfl (Or.inl hpasses)
          · next hfails => rw [Option.none_or, Option.some.injEq, or_iff_right hfails, eq_comm]

theorem faithful_iff (hconfig : load m = .ok config) (hsame : m.locale = m.utf8)
    (hdict : ∀ item ∈ userFile m.utf8, item.1 ≠ .str "__dict__") :
    (∀ spec ∈ settingSpecs, Agrees m spec.key) ↔ Faithful m := by
  have hswitch : ∀ spec ∈ settingSpecs, spec.key = "mcp_enabled" → spec.default = .bool false := by
    simp [settingSpecs]
  have hpolicy : ∀ spec ∈ settingSpecs, spec.key = "autonomy_mode" → spec.default = .str "agentic" := by
    simp [settingSpecs]
  constructor
  · intro hagrees
    have hof : ∀ key, key ∈ settingSpecs.map SettingSpec.key → ∃ spec ∈ settingSpecs, spec.key = key :=
      fun key hkey => List.mem_map.mp hkey
    constructor
    · obtain ⟨spec, hspec, hkey⟩ := hof "autonomy_mode" (by decide)
      have h := (agrees_files hconfig hsame hdict hspec).mp (hagrees spec hspec)
      rw [hkey, hpolicy spec hspec hkey] at h
      refine h.imp_right fun h hnull => ?_
      simpa [Value.isSet] using h .none hnull
    · obtain ⟨spec, hspec, hkey⟩ := hof "mcp_enabled" (by decide)
      have h := (agrees_files hconfig hsame hdict hspec).mp (hagrees spec hspec)
      rw [hkey, hswitch spec hspec hkey] at h
      exact h.imp_right fun h value hvalue => by simpa using h value hvalue
  · intro hfaithful spec hspec
    rw [agrees_files hconfig hsame hdict hspec]
    by_cases hmcp : spec.key = "mcp_enabled"
    · rw [hmcp, hswitch spec hspec hmcp]
      exact hfaithful.switch.imp_right fun h value hvalue => Or.inr (h value hvalue)
    · by_cases hautonomy : spec.key = "autonomy_mode"
      · rw [hautonomy]
        refine hfaithful.policy.imp_right fun h value hvalue => Or.inl ?_
        cases value <;> first | exact absurd hvalue h | simp [Value.isSet]
      · exact Or.inr fun value _ => Or.inl (by simp [hmcp, hautonomy])

/-- The screen shows what the runtime uses exactly where both readings of the files agree on every setting. On
files that are read alike, with attributes that are set one by one, two differences are left: a policy that is
null, and the switch of the tool servers, which the screen reads from a file that the runtime does not. -/
theorem settings_show_runtime_iff (hviews : loadSettings m = .ok views) (hconfig : load m = .ok config) :
    (ShowsWhatRuns m views config ↔ ∀ spec ∈ settingSpecs, Agrees m spec.key) ∧
    (m.locale = m.utf8 → (∀ item ∈ userFile m.utf8, item.1 ≠ .str "__dict__") →
      (ShowsWhatRuns m views config ↔ Faithful m)) :=
  ⟨agrees_iff hviews hconfig, fun hsame hdict =>
    (agrees_iff hviews hconfig).trans (faithful_iff hconfig hsame hdict)⟩

end Both

/-! ### One file -/

def oneFile (path : String) (data : Dict Key Value) : Files :=
  fun other => if other = path then some (.ok (.dict data)) else none

/-- A machine with one file besides the program, and no variable set. -/
def machineWith (path : String) (data : Dict Key Value) (hdistinct : data.keys.Nodup) : Machine :=
  have hfile : ∀ other items, oneFile path data other = some (.ok (.dict items)) → (Dict.keys items).Nodup := by
    intro other items hload
    unfold oneFile at hload
    split at hload
    · cases hload
      exact hdistinct
    · cases hload
  { locale := oneFile path data
    utf8 := oneFile path data
    isDir := true
    environ := []
    workingDir := "/home/dev"
    projectRoot := "/home/dev/atlas"
    projectId := .ok "atlas"
    int := fun _ => .error (.valueError "invalid literal for int()")
    float := fun _ => .error (.valueError "could not convert string to float")
    object := fun _ => none
    exists_same := fun _ => rfl
    no_files := fun h => Bool.noConfusion h
    locale_distinct := hfile
    utf8_distinct := hfile }

def eightWorkers : Machine :=
  machineWith ".ai/orchestration/settings.yaml" [(.str "max_parallel_tasks", .number 8)] (by decide)

def toolServersOn : Machine :=
  machineWith ".ai/orchestration/mcp-servers.yaml" [(.str "enabled", .bool true)] (by decide)

theorem settings_show_runtime_eight : ∃ views config, loadSettings eightWorkers = .ok views ∧
    load eightWorkers = .ok config ∧ ShowsWhatRuns eightWorkers views config := by
  obtain ⟨views, hviews⟩ : ∃ views, loadSettings eightWorkers = .ok views := ⟨_, rfl⟩
  obtain ⟨config, hconfig⟩ : ∃ config, load eightWorkers = .ok config := ⟨_, rfl⟩
  refine ⟨views, config, hviews, hconfig, ((settings_show_runtime_iff hviews hconfig).2 rfl ?_).mpr ⟨?_, ?_⟩⟩
  · exact fun item hitem => absurd hitem List.not_mem_nil
  · exact Or.inr nofun
  · exact Or.inr nofun

/-- The screen says that tool servers are on; the runtime goes without them. -/
theorem tool_servers_shown_on : ∃ views view config, loadSettings toolServersOn = .ok views ∧
    views.get? "mcp_enabled" = some view ∧ view.value = .bool true ∧ load toolServersOn = .ok config ∧
    getAttribute toolServersOn config "mcp_enabled" = .ok (.bool false) :=
  ⟨_, _, _, rfl, rfl, rfl, rfl, rfl⟩

end AtlasFlow.Reference.Settings
