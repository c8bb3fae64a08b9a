import Mathlib.Data.Rat.Defs
import AtlasFlow.Reference.GoalRunner

/-!
# The runtime's configuration

`config.py`: an object whose attributes are set layer by layer, from the defaults, the files of the
project, the user's file and the environment.
-/

namespace AtlasFlow.Reference.Settings

/-! ## What is read -/

inductive Key where
  | str (s : String)
  | other (text : String)
  deriving DecidableEq

/-- A value that YAML reads, up to `==`: `True`, `1` and `1.0` are one number. -/
inductive Value where
  | none
  | number (q : ℚ)
  | str (s : String)
  | list (items : List Value)
  | dict (items : List (Key × Value))
  | other (text : String)

def Value.bool (b : Bool) : Value := .number (if b then 1 else 0)

inductive ConfigError where
  | yamlError (message : String)
  | settingsError (message : String)
  | typeError (message : String)
  | attributeError (message : String)
  | raised (exn : PyExn)
  deriving DecidableEq, Repr

/-- For each path what YAML makes of the text there, or `none` if there is no file. -/
abbrev Files := String → Option (Except ConfigError Value)

def configDir : String := ".ai/orchestration/"

def userPath : String := "~/.atlas-flow.yaml"

/-- The machine a process runs on. A file is read in the locale's encoding, or in UTF-8 where the program says
so; the keys of a mapping are distinct. `object` is what Python gives every object besides `__dict__`: for such a
name, what assigning to it raises, if it does. -/
structure Machine where
  locale : Files
  utf8 : Files
  isDir : Bool
  environ : Dict String String
  workingDir : String
  projectRoot : String
  projectId : Except ConfigError String
  int : String → Except PyExn Int
  float : String → Except PyExn ℚ
  object : String → Option (Except ConfigError Unit)
  exists_same : ∀ path, (locale path).isSome = (utf8 path).isSome
  no_files : isDir = false → ∀ name, utf8 (configDir ++ name) = none
  locale_distinct : ∀ path items, locale path = some (.ok (.dict items)) → (Dict.keys items).Nodup
  utf8_distinct : ∀ path items, utf8 path = some (.ok (.dict items)) → (Dict.keys items).Nodup

/-! ## The object -/

/-- The attributes of an `AtlasFlowConfig`: its `__dict__`. -/
abbrev Attributes := Dict String Value

/-- The fields whose default is an attribute of the class too. -/
def plainDefaults (m : Machine) : Attributes :=
  [("project_root", .other m.workingDir), ("project_id", .str ""), ("autonomy_mode", .str "agentic"),
    ("planning_requires_human", .bool true), ("max_parallel_tasks", .number 4), ("max_retries_per_task", .number 3),
    ("max_fallback_attempts", .number 2), ("max_cost_per_run_usd", .number 10),
    ("max_tokens_per_run", .number 1000000), ("state_dir", .str ".atlas-flow"), ("database_file", .str "state.db"),
    ("worktree_base", .str ""), ("isolate_mutating_tasks", .bool true), ("worktree_strategy", .str "per-task"),
    ("command_code_timeout_seconds", .number 600), ("command_code_max_turns", .number 50),
    ("mcp_enabled", .bool false), ("log_level", .str "INFO"), ("artifact_retention_days", .number 30),
    ("transcript_retention_days", .number 90)]

/-- The fields with a `default_factory`. -/
def factoryDefaults : Attributes :=
  [("acp_agent_command", .list []), ("provider_credential_refs", .dict []), ("mcp_servers", .list []),
    ("redaction_patterns", .list [])]

def properties : List String := ["state_path", "database_path"]

def methods : List String :=
  ["__post_init__", "load", "_find_root", "_read_project_id", "_load_project_config", "_load_user_config",
    "_apply_override", "_apply_env_overrides"]

/-- `cls(project_root=root)`. -/
def initial (m : Machine) (projectId : String) : Attributes :=
  ((plainDefaults m ++ factoryDefaults).set "project_root" (.other m.projectRoot)).set "project_id" (.str projectId)

/-- `getattr`, of an attribute that is no property and no method. -/
def getAttribute (m : Machine) (attributes : Attributes) (name : String) : Except ConfigError Value :=
  match (attributes.get? name).or ((plainDefaults m).get? name) with
  | some value => .ok value
  | none => .error (.attributeError s!"'AtlasFlowConfig' object has no attribute '{name}'")

/-- `hasattr(self, key)`. -/
def hasAttribute (m : Machine) (attributes : Attributes) (name : String) : Bool :=
  name = "__dict__" || (attributes.get? name).isSome || ((plainDefaults m).get? name).isSome ||
    properties.contains name || methods.contains name || (m.object name).isSome

/-- `setattr(self, key, value)`. Assigning to `__dict__` replaces all attributes. -/
def setAttribute (m : Machine) (attributes : Attributes) (name : String) (value : Value) :
    Except ConfigError Attributes :=
  if name = "__dict__" then
    match value with
    | .dict items => .ok (items.filterMap fun item => match item.1 with
      | .str s => some (s, item.2)
      | .other _ => none)
    | _ => .error (.typeError "__dict__ must be set to a dictionary")
  else if properties.contains name then
    .error (.attributeError s!"property '{name}' of 'AtlasFlowConfig' object has no setter")
  else match m.object name with
    | some (.error exn) => .error exn
    | _ => .ok (attributes.set name value)

/-- One turn of the loop in `_apply_override`. -/
def overrideOne (m : Machine) (attributes : Attributes) (item : Key × Value) : Except ConfigError Attributes :=
  match item.1 with
  | .str name => if hasAttribute m attributes name then setAttribute m attributes name item.2 else .ok attributes
  | .other _ => .error (.typeError "attribute name must be string")

/-- `_apply_override`. -/
def applyOverride (m : Machine) (attributes : Attributes) (overrides : Dict Key Value) :
    Except ConfigError Attributes :=
  overrides.foldlM (overrideOne m) attributes

/-! ## The layers -/

/-- `data.get(name, {})`, where that is a mapping. -/
def getDict (data : Dict Key Value) (name : String) : Option (Dict Key Value) :=
  match (data.get? (.str name)).getD (.dict []) with
  | .dict items => some items
  | _ => none

/-- Where a file of the directory is there and holds a mapping, `merge` takes what it declares. -/
def mergeFile (m : Machine) (name : String) (merge : Dict Key Value → Attributes → Attributes)
    (merged : Attributes) : Except ConfigError Attributes :=
  match m.locale (configDir ++ name) with
  | none => .ok merged
  | some (.error exn) => .error exn
  | some (.ok (.dict data)) => .ok (merge data merged)
  | some (.ok _) => .ok merged

/-- `merged[name] = data[field]`, if the field is there. -/
def mergeField (name field : String) (data : Dict Key Value) (merged : Attributes) : Attributes :=
  match data.get? (.str field) with
  | some value => merged.set name value
  | none => merged

/-- `autonomy-policy.yaml`: a policy that is null counts as absent. -/
def mergeAutonomy (data : Dict Key Value) (merged : Attributes) : Attributes :=
  match getDict data "project_policy" with
  | some policy =>
    match policy.get? (.str "current") with
    | none | some .none => merged
    | some value => merged.set "autonomy_mode" value
  | none => merged

/-- `orchestrator.yaml`. -/
def mergeExecution (data : Dict Key Value) (merged : Attributes) : Attributes :=
  match getDict data "execution" with
  | some execution =>
    mergeField "worktree_strategy" "worktree_strategy" execution
      (mergeField "isolate_mutating_tasks" "isolate_mutating_tasks" execution merged)
  | none => merged

/-- `fallbacks.yaml`. -/
def mergeFallbacks (data : Dict Key Value) (merged : Attributes) : Attributes :=
  match getDict data "quality" with
  | some quality => mergeField "max_retries_per_task" "max_cross_model_attempts" quality merged
  | none => merged

def known : List String :=
  ["planning_requires_human", "max_parallel_tasks", "max_fallback_attempts", "max_tokens_per_run",
    "max_cost_per_run_usd", "mcp_servers"]

/-- `settings.yaml`. -/
def mergeSettings (data : Dict Key Value) (merged : Attributes) : Attributes :=
  known.foldl (fun merged key => mergeField key key data merged) merged

/-- `_load_project_config`. -/
def loadProjectConfig (m : Machine) : Except ConfigError Attributes := do
  if !m.isDir then return []
  let merged ← mergeFile m "autonomy-policy.yaml" mergeAutonomy []
  let merged ← mergeFile m "orchestrator.yaml" mergeExecution merged
  let merged ← mergeFile m "fallbacks.yaml" mergeFallbacks merged
  mergeFile m "settings.yaml" mergeSettings merged

/-- `_load_user_config`. -/
def loadUserConfig (m : Machine) : Except ConfigError (Dict Key Value) :=
  match m.locale userPath with
  | none => .ok []
  | some (.error exn) => .error exn
  | some (.ok (.dict data)) => .ok data
  | some (.ok _) => .ok []

inductive Converter where
  | int
  | str
  deriving DecidableEq

def Converter.apply (m : Machine) (text : String) : Converter → Except ConfigError Value
  | .int => match m.int text with
    | .ok n => .ok (.number n)
    | .error exn => .error (.raised exn)
  | .str => .ok (.str text)

/-- `env_map`. -/
def envMap : List (String × String × Converter) :=
  [("ATLAS_FLOW_MAX_PARALLEL", "max_parallel_tasks", .int), ("ATLAS_FLOW_MAX_RETRIES", "max_retries_per_task", .int),
    ("ATLAS_FLOW_LOG_LEVEL", "log_level", .str), ("ATLAS_FLOW_AUTONOMY", "autonomy_mode", .str),
    ("ATLAS_FLOW_STATE_DIR", "state_dir", .str)]

/-- One turn of the loop over `env_map`. -/
def overrideFromEnv (m : Machine) (attributes : Attributes) (row : String × String × Converter) :
    Except ConfigError Attributes :=
  match m.environ.get? row.1 with
  | none => .ok attributes
  | some text => do
    let value ← row.2.2.apply m text
    return attributes.set row.2.1 value

/-- `_apply_env_overrides`. A user's file can have hidden the method behind a value. -/
def applyEnvOverrides (m : Machine) (attributes : Attributes) : Except ConfigError Attributes :=
  if (attributes.get? "_apply_env_overrides").isSome then .error (.typeError "object is not callable")
  else do
    let attributes ← envMap.foldlM (overrideFromEnv m) attributes
    match m.environ.get? "ATLAS_FLOW_ACP_AGENT" with
    | none => return attributes
    | some agent =>
      match Shlex.split agent with
      | .ok argv => return attributes.set "acp_agent_command" (.list (argv.map .str))
      | .error exn => throw (.raised exn)

/-- The layers of `load` below the environment. -/
def loadFiles (m : Machine) : Except ConfigError Attributes := do
  let projectId ← m.projectId
  let project ← loadProjectConfig m
  let attributes ← applyOverride m (initial m projectId) (project.map fun item => (.str item.1, item.2))
  let user ← loadUserConfig m
  applyOverride m attributes user

/-- `AtlasFlowConfig.load`. -/
def load (m : Machine) : Except ConfigError Attributes := do
  let attributes ← loadFiles m
  applyEnvOverrides m attributes

/-! ## Reading the object back -/

section Bind

variable {ε α β κ ν : Type}

theorem ok_of_bind {x : Except ε α} {f : α → Except ε β} {b : β} (h : (x >>= f) = .ok b) :
    ∃ a, x = .ok a ∧ f a = .ok b := by
  cases x with
  | error e => cases h
  | ok a => exact ⟨a, rfl, h⟩

end Bind

section Override

variable {m : Machine} {attributes result : Attributes}

theorem getAttribute_of_get? {name : String} {value : Value} (h : attributes.get? name = some value) :
    getAttribute m attributes name = .ok value := by
  rw [getAttribute, h]
  rfl

theorem setAttribute_ok {name : String} {value : Value} (hname : name ≠ "__dict__")
    (h : setAttribute m attributes name value = .ok result) : result = attributes.set name value := by
  unfold setAttribute at h
  rw [if_neg hname] at h
  split at h
  · cases h
  · split at h
    · cases h
    · exact (Except.ok.inj h).symm

/-- An attribute that is there is overridden by what the layer holds for it, and by nothing else. -/
theorem get?_overrideOne {item : Key × Value} {name : String} (hitem : item.1 ≠ .str "__dict__")
    (hname : (attributes.get? name).isSome) (h : overrideOne m attributes item = .ok result) :
    result.get? name = if item.1 = .str name then some item.2 else attributes.get? name := by
  obtain ⟨key, value⟩ := item
  cases key with
  | other text => cases h
  | str other =>
      have hother : other ≠ "__dict__" := fun heq => hitem (by rw [heq])
      simp only [overrideOne] at h
      split at h
      · rw [setAttribute_ok hother h, Dict.get?_set]
        simp
      · next hhas =>
        have hne : other ≠ name := by
          rintro rfl
          exact hhas (by simp [hasAttribute, hname])
        cases h
        simp [hne]

theorem get?_applyOverride {overrides : Dict Key Value} {name : String}
    (hdict : ∀ item ∈ overrides, item.1 ≠ .str "__dict__") (hdistinct : overrides.keys.Nodup)
    (hname : (attributes.get? name).isSome) (h : applyOverride m attributes overrides = .ok result) :
    result.get? name = (overrides.get? (.str name)).or (attributes.get? name) := by
  unfold applyOverride at h
  induction overrides generalizing attributes with
  | nil =>
      cases h
      rfl
  | cons item overrides ih =>
      obtain ⟨hitem, hrest⟩ := List.forall_mem_cons.mp hdict
      obtain ⟨hnew, hnodup⟩ := List.nodup_cons.mp (show (item.1 :: Dict.keys overrides).Nodup from hdistinct)
      rw [List.foldlM_cons] at h
      obtain ⟨next, hone, hfold⟩ := ok_of_bind h
      have hget := get?_overrideOne hitem hname hone
      have hsome : (next.get? name).isSome := by
        rw [hget]
        split <;> simp [hname]
      rw [ih hrest hnodup hsome hfold, hget, Dict.get?_cons]
      split
      · next heq =>
        -- the rest of the layer does not hold the key again
        rw [Dict.get?_eq_none.mpr (heq ▸ hnew)]
        rfl
      · rfl

end Override

/-! ## Reading the files back -/

/-- What `f` takes from a file that holds a mapping. -/
def inFile (files : Files) (path : String) (f : Dict Key Value → Option Value) : Option Value :=
  match files path with
  | some (.ok (.dict data)) => f data
  | _ => none

@[simp] theorem inFile_none (files : Files) (path : String) : inFile files path (fun _ => none) = none := by
  unfold inFile
  split <;> rfl

theorem filter_inFile (files : Files) (path : String) (f : Dict Key Value → Option Value) (p : Value → Bool) :
    (inFile files path f).filter p = inFile files path fun data => (f data).filter p := by
  unfold inFile
  split <;> rfl

def Value.isSet : Value → Bool
  | .none => false
  | _ => true

section Merge

variable {m : Machine} (data : Dict Key Value) (merged : Attributes) {merged' : Attributes} {key : String}

theorem get?_mergeField {name field : String} : (mergeField name field data merged).get? key =
    (if name = key then data.get? (.str field) else none).or (merged.get? key) := by
  unfold mergeField
  cases data.get? (.str field) <;> by_cases h : name = key <;> simp [Dict.get?_set, h]

variable {merged} in
theorem nodup_mergeField {name field : String} (h : merged.keys.Nodup) :
    (mergeField name field data merged).keys.Nodup := by
  unfold mergeField
  split
  · exact Dict.keys_set_nodup h _ _
  · exact h

/-- What each file gives for a key. -/
def ofAutonomy (key : String) : Dict Key Value → Option Value :=
  if key = "autonomy_mode" then fun data =>
    ((getDict data "project_policy").bind fun policy => policy.get? (.str "current")).filter Value.isSet
  else fun _ => none

def ofExecution (key : String) : Dict Key Value → Option Value :=
  if key = "isolate_mutating_tasks" ∨ key = "worktree_strategy" then fun data =>
    (getDict data "execution").bind fun execution => execution.get? (.str key)
  else fun _ => none

def ofFallbacks (key : String) : Dict Key Value → Option Value :=
  if key = "max_retries_per_task" then fun data =>
    (getDict data "quality").bind fun quality => quality.get? (.str "max_cross_model_attempts")
  else fun _ => none

def ofSettings (key : String) : Dict Key Value → Option Value :=
  if key ∈ known then fun data => data.get? (.str key) else fun _ => none

theorem get?_mergeAutonomy : (mergeAutonomy data merged).get? key = (ofAutonomy key data).or (merged.get? key) := by
  simp only [mergeAutonomy, ofAutonomy, ite_apply]
  cases getDict data "project_policy" with
  | none => simp
  | some policy =>
      dsimp only [Option.bind_some]
      cases policy.get? (.str "current") with
      | none => simp
      | some value =>
          rcases eq_or_ne key "autonomy_mode" with rfl | hkey
          · cases value <;> simp [Option.filter, Value.isSet]
          · cases value <;> simp [Dict.get?_set, hkey, Ne.symm hkey]

theorem get?_mergeExecution : (mergeExecution data merged).get? key =
    (ofExecution key data).or (merged.get? key) := by
  simp only [mergeExecution, ofExecution, ite_apply]
  cases getDict data "execution" with
  | none => simp
  | some execution =>
      simp only [get?_mergeField, Option.bind_some]
      by_cases hisolate : key = "isolate_mutating_tasks"
      · subst hisolate
        simp
      · by_cases hstrategy : key = "worktree_strategy"
        · subst hstrategy
          simp
        · simp [hisolate, hstrategy, Ne.symm hisolate, Ne.symm hstrategy]

theorem get?_mergeFallbacks : (mergeFallbacks data merged).get? key =
    (ofFallbacks key data).or (merged.get? key) := by
  simp only [mergeFallbacks, ofFallbacks, ite_apply]
  cases getDict data "quality" with
  | none => simp
  | some quality =>
      simp only [get?_mergeField, Option.bind_some]
      by_cases h : key = "max_retries_per_task"
      · simp [h]
      · simp [h, Ne.symm h]

theorem get?_foldl_mergeField (names : List String) :
    (names.foldl (fun merged key => mergeField key key data merged) merged).get? key =
      (if key ∈ names then data.get? (.str key) else none).or (merged.get? key) := by
  induction names generalizing merged with
  | nil => simp
  | cons name names ih =>
      rw [List.foldl_cons, ih, get?_mergeField]
      by_cases hname : name = key
      · subst hname
        by_cases hmem : name ∈ names <;> cases data.get? (.str name) <;> simp [hmem]
      · simp [hname, Ne.symm hname]

theorem get?_mergeSettings : (mergeSettings data merged).get? key = (ofSettings key data).or (merged.get? key) := by
  simp only [mergeSettings, ofSettings, ite_apply]
  exact get?_foldl_mergeField data merged known

section Nodup

variable {merged}

theorem nodup_mergeAutonomy (h : merged.keys.Nodup) : (mergeAutonomy data merged).keys.Nodup := by
  unfold mergeAutonomy
  split
  · split
    · exact h
    · exact h
    · exact Dict.keys_set_nodup h _ _
  · exact h

theorem nodup_mergeExecution (h : merged.keys.Nodup) : (mergeExecution data merged).keys.Nodup := by
  unfold mergeExecution
  split
  · exact nodup_mergeField _ (nodup_mergeField _ h)
  · exact h

theorem nodup_mergeFallbacks (h : merged.keys.Nodup) : (mergeFallbacks data merged).keys.Nodup := by
  unfold mergeFallbacks
  split
  · exact nodup_mergeField _ h
  · exact h

theorem nodup_mergeSettings (h : merged.keys.Nodup) : (mergeSettings data merged).keys.Nodup := by
  unfold mergeSettings
  induction known generalizing merged with
  | nil => exact h
  | cons name names ih => exact ih (nodup_mergeField _ h)

end Nodup

variable {merged}

/-- A file that is merged gives what it holds for a key, over what the files before it gave. -/
theorem get?_mergeFile {name : String} {merge : Dict Key Value → Attributes → Attributes}
    {f : Dict Key Value → Option Value}
    (hmerge : ∀ data merged, (merge data merged).get? key = (f data).or (merged.get? key))
    (h : mergeFile m name merge merged = .ok merged') :
    merged'.get? key = (inFile m.locale (configDir ++ name) f).or (merged.get? key) := by
  unfold mergeFile at h
  unfold inFile
  split at h <;> cases h <;> simp_all

theorem nodup_mergeFile {name : String} {merge : Dict Key Value → Attributes → Attributes}
    (hmerge : ∀ data merged, (Dict.keys merged).Nodup → (Dict.keys (merge data merged)).Nodup)
    (hnodup : merged.keys.Nodup) (h : mergeFile m name merge merged = .ok merged') : merged'.keys.Nodup := by
  unfold mergeFile at h
  split at h <;> cases h
  · exact hnodup
  · exact hmerge _ _ hnodup
  · exact hnodup

theorem get?_mergeAll (h : loadProjectConfig m = .ok merged) : merged.get? key =
    (inFile m.locale (configDir ++ "settings.yaml") (ofSettings key)).or
      ((inFile m.locale (configDir ++ "fallbacks.yaml") (ofFallbacks key)).or
        ((inFile m.locale (configDir ++ "orchestrator.yaml") (ofExecution key)).or
          (inFile m.locale (configDir ++ "autonomy-policy.yaml") (ofAutonomy key)))) := by
  unfold loadProjectConfig at h
  split at h
  · next hdir =>
    cases h
    have hnone : ∀ name f, inFile m.locale (configDir ++ name) f = none := fun name f => by
      have hsame := m.exists_same (configDir ++ name)
      rw [m.no_files (by simpa using hdir) name, Option.isSome_none, Option.isSome_eq_false_iff,
        Option.isNone_iff_eq_none] at hsame
      rw [inFile, hsame]
    simp [hnone]
  · obtain ⟨first, hfirst, h⟩ := ok_of_bind h
    obtain ⟨second, hsecond, h⟩ := ok_of_bind h
    obtain ⟨third, hthird, h⟩ := ok_of_bind h
    rw [get?_mergeFile (fun data merged => get?_mergeSettings data merged) h,
      get?_mergeFile (fun data merged => get?_mergeFallbacks data merged) hthird,
      get?_mergeFile (fun data merged => get?_mergeExecution data merged) hsecond,
      get?_mergeFile (fun data merged => get?_mergeAutonomy data merged) hfirst, Dict.get?_nil, Option.or_none]

theorem nodup_mergeAll (h : loadProjectConfig m = .ok merged) : merged.keys.Nodup := by
  unfold loadProjectConfig at h
  split at h
  · cases h
    exact List.nodup_nil
  · obtain ⟨first, hfirst, h⟩ := ok_of_bind h
    obtain ⟨second, hsecond, h⟩ := ok_of_bind h
    obtain ⟨third, hthird, h⟩ := ok_of_bind h
    have hempty : (Dict.keys ([] : Attributes)).Nodup := List.nodup_nil
    have hautonomy := nodup_mergeFile (fun data _ => nodup_mergeAutonomy data) hempty hfirst
    have hexecution := nodup_mergeFile (fun data _ => nodup_mergeExecution data) hautonomy hsecond
    have hfallbacks := nodup_mergeFile (fun data _ => nodup_mergeFallbacks data) hexecution hthird
    exact nodup_mergeFile (fun data _ => nodup_mergeSettings data) hfallbacks h

end Merge

/-! ## Reading the environment back -/

section Environment

variable {m : Machine} {attributes config : Attributes} {rows : List (String × String × Converter)} {name : String}

theorem overrideFromEnv_none {row : String × String × Converter} (h : m.environ.get? row.1 = none) :
    overrideFromEnv m attributes row = .ok attributes := by
  rw [overrideFromEnv, h]

theorem overrideFromEnv_some {row : String × String × Converter} {text : String}
    (htext : m.environ.get? row.1 = some text) (h : overrideFromEnv m attributes row = .ok config) :
    ∃ value, row.2.2.apply m text = .ok value ∧ config = attributes.set row.2.1 value := by
  rw [overrideFromEnv, htext] at h
  obtain ⟨value, hvalue, hset⟩ := ok_of_bind h
  exact ⟨value, hvalue, (Except.ok.inj hset).symm⟩

/-- An attribute whose variables are all unset stays. -/
theorem get?_of_unset (h : rows.foldlM (overrideFromEnv m) attributes = .ok config)
    (hunset : ∀ row ∈ rows, row.2.1 = name → m.environ.get? row.1 = none) :
    config.get? name = attributes.get? name := by
  induction rows generalizing attributes with
  | nil =>
      cases h
      rfl
  | cons row rows ih =>
      obtain ⟨hrow, hrest⟩ := List.forall_mem_cons.mp hunset
      rw [List.foldlM_cons] at h
      obtain ⟨next, hone, hfold⟩ := ok_of_bind h
      rw [ih hfold hrest]
      cases htext : m.environ.get? row.1 with
      | none =>
          rw [overrideFromEnv_none htext] at hone
          cases hone
          rfl
      | some text =>
          obtain ⟨value, -, rfl⟩ := overrideFromEnv_some htext hone
          have hne : row.2.1 ≠ name := fun heq => by simp [hrow heq] at htext
          exact Dict.get?_set_of_ne attributes value hne

/-- One whose variable is set holds what its text converts to. -/
theorem get?_of_set (h : rows.foldlM (overrideFromEnv m) attributes = .ok config)
    (hdistinct : (rows.map fun row => row.2.1).Nodup) {row : String × String × Converter} (hrow : row ∈ rows)
    {text : String} (htext : m.environ.get? row.1 = some text) :
    ∃ value, row.2.2.apply m text = .ok value ∧ config.get? row.2.1 = some value := by
  induction rows generalizing attributes with
  | nil => cases hrow
  | cons first rows ih =>
      rw [List.map_cons, List.nodup_cons] at hdistinct
      rw [List.foldlM_cons] at h
      obtain ⟨next, hone, hfold⟩ := ok_of_bind h
      rcases List.mem_cons.mp hrow with rfl | hmem
      · obtain ⟨value, hvalue, rfl⟩ := overrideFromEnv_some htext hone
        refine ⟨value, hvalue, ?_⟩
        rw [get?_of_unset hfold, Dict.get?_set_self]
        -- no later row sets the same attribute
        intro other hother heq
        exact absurd (List.mem_map.mpr ⟨other, hother, heq⟩) hdistinct.1
      · exact ih hfold hdistinct.2 hmem

theorem applyEnvOverrides_ok (h : applyEnvOverrides m attributes = .ok config) :
    ∃ overridden, envMap.foldlM (overrideFromEnv m) attributes = .ok overridden ∧
      ∀ name, name ≠ "acp_agent_command" → config.get? name = overridden.get? name := by
  unfold applyEnvOverrides at h
  split at h
  · cases h
  · obtain ⟨overridden, hfold, h⟩ := ok_of_bind h
    refine ⟨overridden, hfold, fun name hname => ?_⟩
    split at h
    · cases h
      rfl
    · split at h
      · cases h
        exact Dict.get?_set_of_ne overridden _ (Ne.symm hname)
      · cases h

end Environment

end AtlasFlow.Reference.Settings
