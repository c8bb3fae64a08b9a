import AtlasFlow.Reference.Reloading

/-!
# Writing the settings files

How a key is written into the file that declares it and taken out again, and the files after a write.
-/

namespace AtlasFlow.Reference.Settings

/-! ## One key in its file -/

/-- What a mapping holds for the key of a place. -/
def Place.held (place : Place) (data : Dict Key Value) : Option Value :=
  (place.target data).bind fun value => value.get? (.str place.field)

/-- `target[field] = value`, in the section of the place, which is made if there is none. A section that is no
mapping is in the way. -/
def Place.put (place : Place) (data : Dict Key Value) (value : Value) : Option (Dict Key Value) :=
  match place.inSection with
  | none => some (data.set (.str place.field) value)
  | some name => (getDict data name).map fun target =>
    data.set (.str name) (.dict (Dict.set target (.str place.field) value))

/-- `target.pop(field, None)`, if the section is there. -/
def Place.drop (place : Place) (data : Dict Key Value) : Dict Key Value :=
  match place.inSection with
  | none => data.pop (.str place.field)
  | some name => match data.get? (.str name) with
    | some (.dict target) => data.set (.str name) (.dict (Dict.pop target (.str place.field)))
    | _ => data

section Place

variable {place other : Place} {data changed : Dict Key Value} {value : Value}

theorem getDict_set (data target : Dict Key Value) (name : String) :
    getDict (data.set (.str name) (.dict target)) name = some target := by
  rw [getDict, Dict.get?_set_self]
  rfl

theorem getDict_of_get? {target : List (Key × Value)} {name : String}
    (h : data.get? (.str name) = some (.dict target)) : getDict data name = some target := by
  rw [getDict, h]
  rfl

theorem Place.held_put (h : place.put data value = some changed) : place.held changed = some value := by
  unfold Place.put at h
  unfold Place.held Place.target
  cases hsection : place.inSection with
  | none =>
      simp only [hsection, Option.some.injEq] at h
      simp [← h]
  | some name =>
      simp only [hsection, Option.map_eq_some_iff] at h
      obtain ⟨target, _, rfl⟩ := h
      simp [getDict_set]

theorem Place.held_put_other (hsection : other.inSection = place.inSection) (hfield : other.field ≠ place.field)
    (h : place.put data value = some changed) : other.held changed = other.held data := by
  have hne : Key.str place.field ≠ Key.str other.field := fun heq => hfield (Key.str.inj heq).symm
  unfold Place.put at h
  unfold Place.held Place.target
  rw [hsection]
  cases hplace : place.inSection with
  | none =>
      simp only [hplace, Option.some.injEq] at h
      simp [← h, Dict.get?_set_of_ne _ _ hne]
  | some name =>
      simp only [hplace, Option.map_eq_some_iff] at h
      obtain ⟨target, htarget, rfl⟩ := h
      simp [getDict_set, htarget, Dict.get?_set_of_ne _ _ hne]

theorem Place.put_distinct (hdistinct : data.keys.Nodup) (h : place.put data value = some changed) :
    changed.keys.Nodup := by
  unfold Place.put at h
  split at h
  · cases h
    exact Dict.keys_set_nodup hdistinct _ _
  · obtain ⟨target, _, rfl⟩ := Option.map_eq_some_iff.mp h
    exact Dict.keys_set_nodup hdistinct _ _

theorem Place.held_drop (place : Place) (data : Dict Key Value) : place.held (place.drop data) = none := by
  unfold Place.drop Place.held Place.target
  cases place.inSection with
  | none => simp [Dict.get?_pop]
  | some name =>
      dsimp only
      split
      · simp [getDict_set, Dict.get?_pop]
      · next hother =>
        cases hget : Dict.get? data (.str name) with
        | none => simp [getDict, hget]
        | some value =>
            cases value with
            | dict target => exact absurd hget (hother target)
            | _ => simp [getDict, hget]

theorem Place.held_drop_other (hsection : other.inSection = place.inSection) (hfield : other.field ≠ place.field)
    (data : Dict Key Value) : other.held (place.drop data) = other.held data := by
  have hne : Key.str place.field ≠ Key.str other.field := fun heq => hfield (Key.str.inj heq).symm
  unfold Place.drop Place.held Place.target
  rw [hsection]
  cases place.inSection with
  | none => simp [Dict.get?_pop, hne]
  | some name =>
      dsimp only
      split
      · next target hget => simp [getDict_set, getDict_of_get? hget, Dict.get?_pop, hne]
      · rfl

theorem Place.drop_distinct (place : Place) (hdistinct : data.keys.Nodup) : (place.drop data).keys.Nodup := by
  unfold Place.drop
  split
  · exact (hdistinct.sublist (List.filter_sublist.map _))
  · split
    · exact Dict.keys_set_nodup hdistinct _ _
    · exact hdistinct

end Place

/-! ### The table of places -/

/-- Two keys of one file are two fields of one section of it. -/
theorem projectFiles_apart : ∀ item ∈ projectFiles, ∀ other ∈ projectFiles,
    other.2.relative = item.2.relative → other.1 ≠ item.1 →
      other.2.inSection = item.2.inSection ∧ other.2.field ≠ item.2.field := by
  decide

theorem projectFiles_not_user : ∀ item ∈ projectFiles, item.2.relative ≠ userPath := by decide

theorem place_apart {key other : String} {place place' : Place} (h : projectFiles.get? key = some place)
    (h' : projectFiles.get? other = some place') (hfile : place'.relative = place.relative) (hne : other ≠ key) :
    place'.inSection = place.inSection ∧ place'.field ≠ place.field :=
  projectFiles_apart _ (Dict.mem_of_get? h) _ (Dict.mem_of_get? h') hfile hne

/-- The mapping in a file, which is empty if there is none. -/
def mapping (files : Files) (path : String) : Dict Key Value :=
  match files path with
  | some (.ok (.dict data)) => data
  | _ => []

theorem declared_eq (files : Files) (key : String) :
    declared files key = (projectFiles.get? key).bind fun place => place.held (mapping files place.relative) := by
  unfold declared
  congr 1
  funext place
  have hempty : place.held [] = none := place.none_of_empty
  unfold inFile mapping
  rcases files place.relative with _ | exn | value
  · exact hempty.symm
  · exact hempty.symm
  · cases value with
    | dict data => rfl
    | _ => exact hempty.symm

theorem readYaml_mapping {m : Machine} {path : String} {data : Dict Key Value} (h : readYaml m path = .ok data) :
    data = mapping m.utf8 path :=
  (readYaml_iff.mp h).2

theorem readYaml_distinct {m : Machine} {path : String} {data : Dict Key Value} (h : readYaml m path = .ok data) :
    data.keys.Nodup := by
  rw [readYaml_mapping h]
  unfold mapping
  split
  · next data hload => exact m.utf8_distinct path data hload
  · exact List.nodup_nil

/-! ## A file that was written -/

/-- The path is one of the directory. -/
def inConfigDir (path : String) : Bool := configDir.toList.isPrefixOf path.toList

/-- The files with one of them replaced. -/
def Files.write (files : Files) (path : String) (data : Dict Key Value) : Files :=
  fun other => if other = path then some (.ok (.dict (Dict.ofItems data))) else files other

theorem Files.write_distinct {files : Files} {path : String} {data : Dict Key Value}
    (h : ∀ path items, files path = some (.ok (.dict items)) → (Dict.keys items).Nodup) :
    ∀ other items, files.write path data other = some (.ok (.dict items)) → (Dict.keys items).Nodup := by
  intro other items hload
  unfold Files.write at hload
  split at hload
  · cases hload
    exact Dict.keys_ofItems_nodup data
  · exact h other items hload

/-- The machine after a file was written, in UTF-8. It is read as it was written, and the locale's encoding
is taken to be UTF-8 too. -/
def Machine.write (m : Machine) (path : String) (data : Dict Key Value) : Machine :=
  { m with
    locale := m.locale.write path data
    utf8 := m.utf8.write path data
    isDir := m.isDir || inConfigDir path
    exists_same := fun other => by
      unfold Files.write
      split
      · rfl
      · exact m.exists_same other
    no_files := fun hdir name => by
      rw [Bool.or_eq_false_iff] at hdir
      have hne : configDir ++ name ≠ path := by
        rintro rfl
        have hin : inConfigDir (configDir ++ name) = true := by
          rw [inConfigDir, String.toList_append]
          exact List.isPrefixOf_iff_prefix.mpr (List.prefix_append _ _)
        rw [hin] at hdir
        exact Bool.noConfusion hdir.2
      rw [Files.write, if_neg hne]
      exact m.no_files hdir.1 name
    locale_distinct := Files.write_distinct m.locale_distinct
    utf8_distinct := Files.write_distinct m.utf8_distinct }

section Write

variable {m : Machine} {path other : String} {data : Dict Key Value} {byUser byProject : List String}

theorem mapping_write (files : Files) (hdistinct : data.keys.Nodup) :
    mapping (files.write path data) other = if other = path then data else mapping files other := by
  unfold mapping Files.write
  split_ifs
  · exact Dict.ofItems_of_nodup hdistinct
  · rfl

theorem readYaml_write (hdistinct : data.keys.Nodup) :
    readYaml (m.write path data) other = if other = path then .ok data else readYaml m other := by
  unfold readYaml Machine.write Files.write
  dsimp only
  split_ifs
  · rw [Dict.ofItems_of_nodup hdistinct]
  · rfl

/-- A file that could be read is given a mapping that holds the same for all other keys. -/
structure Rewrites (m : Machine) (byUser byProject : List String) (path : String) (data : Dict Key Value) : Prop where
  distinct : data.keys.Nodup
  loaded : ∃ loaded, readYaml m path = .ok loaded ∧
    (path = userPath → without byUser data = without byUser loaded) ∧
    ∀ key place, projectFiles.get? key = some place → place.relative = path → key ∉ byProject →
      place.held data = place.held loaded

/-- A file can be rewritten after another was. -/
theorem Rewrites.after (h : Rewrites m byUser byProject path data) (hne : path ≠ other) {before : Dict Key Value}
    (hdistinct : before.keys.Nodup) : Rewrites (m.write other before) byUser byProject path data where
  distinct := h.distinct
  loaded := by
    rw [readYaml_write hdistinct, if_neg hne]
    exact h.loaded

theorem alike_write (hsame : m.locale = m.utf8) (h : Rewrites m byUser byProject path data)
    (huserKeys : ∀ key ∈ byUser, key ∈ settingKeys ∧ ((plainDefaults m).get? key).isSome)
    (hprojectKeys : ∀ key ∈ byProject, key ∈ settingKeys) : Alike m (m.write path data) byUser byProject where
  environ := rfl
  int := rfl
  float := rfl
  object := rfl
  projectId := rfl
  workingDir := rfl
  projectRoot := rfl
  locale := hsame
  locale' := congrArg (fun files => Files.write files path data) hsame
  errors other exn := by
    show m.utf8.write path data other = _ ↔ _
    unfold Files.write
    split
    · next heq =>
      subst heq
      obtain ⟨loaded, hread, _⟩ := h.loaded
      exact iff_of_false (by simp) ((readYaml_iff.mp hread).1 exn)
    · rfl
  user := by
    show without byUser (mapping (m.utf8.write path data) userPath) = without byUser (mapping m.utf8 userPath)
    rw [mapping_write _ h.distinct]
    split
    · next heq =>
      obtain ⟨loaded, hread, huser, _⟩ := h.loaded
      rw [huser heq.symm, heq, readYaml_mapping hread]
    · rfl
  declared key hkey := by
    rw [declared_eq, declared_eq]
    cases hplace : projectFiles.get? key with
    | none => rfl
    | some place =>
        show place.held (mapping (m.utf8.write path data) place.relative) = place.held (mapping m.utf8 place.relative)
        rw [mapping_write _ h.distinct]
        split
        · next heq =>
          obtain ⟨loaded, hread, _, hproject⟩ := h.loaded
          rw [hproject key place hplace heq hkey, heq, readYaml_mapping hread]
        · rfl
  userKeys := huserKeys
  projectKeys := hprojectKeys

/-- The machine after several files were written. -/
def Machine.writeFiles (m : Machine) (files : Dict String (Dict Key Value)) : Machine :=
  files.foldl (fun m file => m.write file.1 file.2) m

variable {files : Dict String (Dict Key Value)}

theorem alike_writeFiles (hsame : m.locale = m.utf8) (hdistinct : files.keys.Nodup)
    (hfiles : ∀ file ∈ files, Rewrites m byUser byProject file.1 file.2)
    (huserKeys : ∀ key ∈ byUser, key ∈ settingKeys ∧ ((plainDefaults m).get? key).isSome)
    (hprojectKeys : ∀ key ∈ byProject, key ∈ settingKeys) : Alike m (m.writeFiles files) byUser byProject := by
  induction files generalizing m with
  | nil => exact Alike.refl hsame huserKeys hprojectKeys
  | cons file files ih =>
      obtain ⟨hnew, hrest⟩ := List.nodup_cons.mp (show (file.1 :: Dict.keys files).Nodup from hdistinct)
      obtain ⟨hfile, hothers⟩ := List.forall_mem_cons.mp hfiles
      have hfirst := alike_write hsame hfile huserKeys hprojectKeys
      refine hfirst.trans (ih hfirst.locale' hrest ?_ huserKeys)
      intro other hother
      refine (hothers other hother).after ?_ hfile.distinct
      intro heq
      exact hnew (heq ▸ List.mem_map_of_mem hother)

theorem mapping_writeFiles (hdistinct : files.keys.Nodup) (hfiles : ∀ file ∈ files, (Dict.keys file.2).Nodup) :
    mapping (m.writeFiles files).utf8 path = (files.get? path).getD (mapping m.utf8 path) := by
  induction files generalizing m with
  | nil => rfl
  | cons file files ih =>
      obtain ⟨hnew, hrest⟩ := List.nodup_cons.mp (show (file.1 :: Dict.keys files).Nodup from hdistinct)
      obtain ⟨hfile, hothers⟩ := List.forall_mem_cons.mp hfiles
      rw [Machine.writeFiles, List.foldl_cons, ← Machine.writeFiles, ih hrest hothers, Dict.get?_cons]
      show (Dict.get? files path).getD (mapping (m.utf8.write file.1 file.2) path) = _
      rw [mapping_write _ hfile]
      by_cases hpath : path = file.1
      · subst hpath
        rw [Dict.get?_eq_none.mpr hnew, if_pos rfl, if_pos rfl]
        rfl
      · rw [if_neg hpath, if_neg (Ne.symm hpath)]

end Write

/-! ## Writing several files -/

/-- What the file system and YAML do with a file that is to replace another, at each write of a call. -/
structure Writer where
  mkdir : Nat → String → Except PyExn Unit
  safeDump : Dict Key Value → Except ConfigError String
  replace : Nat → String → String → Except PyExn Unit

/-- The exceptions that `_atomic_yaml_write` turns into a `SettingsError`. -/
def unwritable (path : String) : PyExn → ConfigError
  | .osError message | .fileNotFoundError message | .permissionError message =>
    .settingsError s!"Could not write settings file {path}: {message}"
  | exn => .raised exn

/-- What `_atomic_yaml_write` does before the file is replaced, at the `n`-th write. -/
def Writer.attempt (writer : Writer) (n : Nat) (path : String) (data : Dict Key Value) : Except ConfigError Unit := do
  (writer.mkdir n path).mapError .raised
  let content ← writer.safeDump data
  (writer.replace n path content).mapError (unwritable path)

/-- The machine, and the files that were replaced. A failed write leaves a temporary file at most. -/
structure Disk where
  machine : Machine
  written : List String

/-- `_atomic_yaml_write`. -/
def atomicYamlWrite (writer : Writer) (disk : Disk) (path : String) (data : Dict Key Value) :
    Except ConfigError Disk := do
  writer.attempt disk.written.length path data
  return ⟨disk.machine.write path data, disk.written ++ [path]⟩

/-- How a call ended. -/
structure Outcome where
  disk : Disk
  result : Except ConfigError (Dict String SettingView)

/-- Of the files that a call wants to write one after the other, as far as each could be read, the first that
fails, with what is raised. -/
def firstFailure (writer : Writer) : Nat → List (Except ConfigError (String × Dict Key Value)) →
    Option (Nat × ConfigError)
  | _, [] => none
  | n, .error exn :: _ => some (n, exn)
  | n, .ok file :: rest =>
    match writer.attempt n file.1 file.2 with
    | .error exn => some (n, exn)
    | .ok () => firstFailure writer (n + 1) rest

theorem atomicYamlWrite_eq (writer : Writer) (disk : Disk) (path : String) (data : Dict Key Value) :
    atomicYamlWrite writer disk path data = (writer.attempt disk.written.length path data).map fun _ =>
      ⟨disk.machine.write path data, disk.written ++ [path]⟩ := by
  unfold atomicYamlWrite
  cases writer.attempt disk.written.length path data <;> rfl

/-! ### The scopes -/

/-- `USER_KEYS` and `PROJECT_KEYS`. -/
def allowedKeys (scope : ConfigScope) : List String :=
  (settingSpecs.filter fun spec => spec.scope = scope).map SettingSpec.key

def ConfigScope.str : ConfigScope → String
  | .user => "user"
  | .project => "project"

/-- The check at the start of both calls. -/
def checkKeys (done : String) (scope : ConfigScope) (keys : List String) : Except ConfigError Unit :=
  let invalid := ((keys.filter fun key => key ∉ allowedKeys scope).eraseDups).mergeSort fun a b => decide (a ≤ b)
  let listed := ", ".intercalate invalid
  if invalid = [] then .ok ()
  else .error (.settingsError s!"Settings cannot be {done} in {scope.str}: {listed}")

/-- What the files of a scope hold for a key. -/
def scopeValue (files : Files) (scope : ConfigScope) (key : String) : Option Value :=
  match scope with
  | .user => (userFile files).get? (.str key)
  | .project => declared files key

section Scope

variable {m : Machine} {scope : ConfigScope} {key : String} {keys : List String}

theorem checkKeys_iff (done : String) : checkKeys done scope keys = .ok () ↔ ∀ key ∈ keys, key ∈ allowedKeys scope := by
  unfold checkKeys
  dsimp only
  constructor
  · intro h key hkey
    by_contra hnot
    split at h
    · next hnil =>
      have hmem : key ∈ (keys.filter fun key => key ∉ allowedKeys scope).eraseDups := by
        rw [List.mem_eraseDups, List.mem_filter]
        exact ⟨hkey, by simpa using hnot⟩
      rw [← List.mem_mergeSort, hnil] at hmem
      exact List.not_mem_nil hmem
    · cases h
  · intro h
    have hnil : (keys.filter fun key => key ∉ allowedKeys scope) = [] :=
      List.filter_eq_nil_iff.mpr fun key hkey => by simpa using h key hkey
    rw [hnil, List.eraseDups_nil, if_pos List.mergeSort_nil]

/-- The check raises a `SettingsError` or nothing. -/
theorem checkKeys_error {done : String} {exn : ConfigError} (h : checkKeys done scope keys = .error exn) :
    ∃ message, exn = .settingsError message := by
  unfold checkKeys at h
  dsimp only at h
  split at h
  · cases h
  · cases h
    exact ⟨_, rfl⟩

theorem setting_of_allowed (h : key ∈ allowedKeys scope) : key ∈ settingKeys := by
  obtain ⟨spec, hspec, rfl⟩ := List.mem_map.mp h
  exact List.mem_map_of_mem (List.mem_of_mem_filter hspec)

theorem plainDefault_of_user (m : Machine) (h : key ∈ allowedKeys .user) : ((plainDefaults m).get? key).isSome := by
  have hall : ∀ key ∈ allowedKeys .user, key ∈ ["command_code_timeout_seconds", "command_code_max_turns", "log_level",
      "artifact_retention_days", "transcript_retention_days"] := by decide
  have hkey := hall key h
  simp only [List.mem_cons, List.not_mem_nil, or_false] at hkey
  rcases hkey with rfl | rfl | rfl | rfl | rfl <;> rfl

theorem place_of_project : ∀ key ∈ allowedKeys .project, ∃ place, projectFiles.get? key = some place := by
  intro key hkey
  have hall : ∀ key ∈ allowedKeys .project, (projectFiles.get? key).isSome := by decide
  exact Option.isSome_iff_exists.mp (hall key hkey)

end Scope

end AtlasFlow.Reference.Settings
