import Mathlib
import AtlasFlow.Reference.SettingsFiles

/-!
# Applying settings

`apply_settings`: a patch is checked, planned file by file and written, and the settings are loaded again.
-/

namespace AtlasFlow.Reference.Settings

/-! ## A patch -/

/-- A value of a patch. Python tells a number's types apart; `special` is a float that is no number. -/
inductive PatchValue where
  | bool (b : Bool)
  | int (n : Int)
  | float (q : ℚ)
  | special (text : String) (negative : Bool)
  | str (s : String)
  | list (items : List Value)
  | other (value : Value)

def PatchValue.toValue : PatchValue → Value
  | .bool b => .bool b
  | .int n => .number n
  | .float q => .number q
  | .special text _ => .other text
  | .str s => .str s
  | .list items => .list items
  | .other value => value

def PatchValue.isBool : PatchValue → Bool
  | .bool _ => true
  | _ => false

/-- An integer that is no truth value, and not negative. -/
def PatchValue.isCount : PatchValue → Bool
  | .int n => 0 ≤ n
  | _ => false

/-- A number that is no truth value, and not negative. -/
def PatchValue.isAmount : PatchValue → Bool
  | .int n => 0 ≤ n
  | .float q => 0 ≤ q
  | .special _ negative => !negative
  | _ => false

def PatchValue.isList : PatchValue → Bool
  | .list _ => true
  | _ => false

def PatchValue.isStr : PatchValue → Bool
  | .str _ => true
  | _ => false

/-- `_validate_value`. -/
def validateValue (kind key : String) (value : PatchValue) : Except ConfigError Unit :=
  if kind = "boolean" ∧ !value.isBool then .error (.settingsError s!"{key} must be boolean")
  else if kind = "integer" ∧ !value.isCount then .error (.settingsError s!"{key} must be a non-negative integer")
  else if kind = "number" ∧ !value.isAmount then .error (.settingsError s!"{key} must be a non-negative number")
  else if kind = "list" ∧ !value.isList then .error (.settingsError s!"{key} must be a list")
  else if kind ∈ ["text", "select"] ∧ !value.isStr then .error (.settingsError s!"{key} must be text")
  else .ok ()

abbrev Patch := Dict String PatchValue

/-- One turn of the loop that checks a patch. -/
def checkItem (current : Dict String SettingView) (item : String × PatchValue) : Except ConfigError Unit :=
  match current.get? item.1 with
  | none => .error (.raised (.keyError item.1))
  | some view =>
    let controller := view.environmentVariable.getD "None"
    if view.source = .environment then
      .error (.settingsError
        s!"{item.1} is controlled by {controller}; change that environment variable instead")
    else validateValue view.kind item.1 item.2

/-! ## The files to write -/

/-- `data.update(patch)`. -/
def update (data : Dict Key Value) (patch : Patch) : Dict Key Value :=
  patch.foldl (fun data item => data.set (.str item.1) item.2.toValue) data

/-- One turn of the loop in `_apply_project_patch`. The file is read for each key; the first reading is kept. -/
def groupOne (m : Machine) (grouped : Dict String (Dict Key Value)) (item : String × PatchValue) :
    Except ConfigError (Dict String (Dict Key Value)) :=
  match projectFiles.get? item.1 with
  | none => .error (.raised (.keyError item.1))
  | some place => do
    let loaded ← readYaml m place.relative
    match place.put ((grouped.get? place.relative).getD loaded) item.2.toValue with
    | some data => return grouped.set place.relative data
    | none => throw (.settingsError s!"Cannot update malformed settings file: {place.relative}")

/-- What `apply_settings` checks and reads before it writes, for a patch that is not empty: the files to write. -/
def planned (m : Machine) (current : Dict String SettingView) (patch : Patch) (scope : ConfigScope) :
    Except ConfigError (Dict String (Dict Key Value)) := do
  checkKeys "written" scope patch.keys
  patch.forM (checkItem current)
  match scope with
  | .user =>
    let data ← readYaml m userPath
    return [(userPath, update data patch)]
  | .project => patch.foldlM (groupOne m) []

/-- The loop over the files. -/
def writeAll (writer : Writer) (disk : Disk) : Dict String (Dict Key Value) → Disk × Except ConfigError Unit
  | [] => (disk, .ok ())
  | file :: rest =>
    match atomicYamlWrite writer disk file.1 file.2 with
    | .error exn => (disk, .error exn)
    | .ok disk => writeAll writer disk rest

/-- `apply_settings`. -/
def applySettings (writer : Writer) (m : Machine) (patch : Patch) (scope : ConfigScope) : Outcome :=
  match loadSettings m with
  | .error exn => ⟨⟨m, []⟩, .error exn⟩
  | .ok current =>
    if patch.isEmpty then ⟨⟨m, []⟩, .ok current⟩
    else match planned m current patch scope with
    | .error exn => ⟨⟨m, []⟩, .error exn⟩
    | .ok files =>
      match writeAll writer ⟨m, []⟩ files with
      | (disk, .error exn) => ⟨disk, .error exn⟩
      | (disk, .ok ()) => ⟨disk, loadSettings disk.machine⟩

/-! ## What is planned -/

section Planned

variable {m : Machine} {current : Dict String SettingView} {patch done : Patch} {scope : ConfigScope}
  {grouped last files : Dict String (Dict Key Value)}

theorem get?_update (data : Dict Key Value) (hpatch : patch.keys.Nodup) (key : String) :
    (update data patch).get? (.str key) = ((patch.get? key).map PatchValue.toValue).or (data.get? (.str key)) := by
  unfold update
  induction patch generalizing data with
  | nil => rfl
  | cons item patch ih =>
      obtain ⟨hnew, hrest⟩ := List.nodup_cons.mp (show (item.1 :: Dict.keys patch).Nodup from hpatch)
      rw [List.foldl_cons, ih _ hrest, Dict.get?_set, Dict.get?_cons]
      by_cases hkey : item.1 = key
      · rw [Dict.get?_eq_none.mpr (hkey ▸ hnew), if_pos (congrArg Key.str hkey), if_pos hkey]
        rfl
      · rw [if_neg fun heq => hkey (Key.str.inj heq), if_neg hkey]

theorem without_update (data : Dict Key Value) : without patch.keys (update data patch) = without patch.keys data := by
  have hall : ∀ keys : List String, (∀ item ∈ patch, item.1 ∈ keys) →
      without keys (update data patch) = without keys data := by
    intro keys hkeys
    unfold update
    induction patch generalizing data with
    | nil => rfl
    | cons item patch ih =>
        obtain ⟨hitem, hrest⟩ := List.forall_mem_cons.mp hkeys
        rw [List.foldl_cons, ih _ hrest]
        exact Dict.filter_set (p := fun key => decide (key ∉ keys.map Key.str))
          (by simpa using hitem) data item.2.toValue
  exact hall patch.keys fun item hitem => List.mem_map_of_mem hitem

theorem update_distinct {data : Dict Key Value} (h : data.keys.Nodup) : (update data patch).keys.Nodup := by
  unfold update
  induction patch generalizing data with
  | nil => exact h
  | cons item patch ih => exact ih (Dict.keys_set_nodup h _ _)

/-- A file to write: it could be read, and for each key that it declares it holds what the patch says, or else what
it held. -/
structure PlannedFile (m : Machine) (done : Patch) (path : String) (data : Dict Key Value) : Prop where
  loaded : ∃ loaded, readYaml m path = .ok loaded ∧ ∀ key place, projectFiles.get? key = some place →
    place.relative = path → place.held data = ((done.get? key).map PatchValue.toValue).or (place.held loaded)
  distinct : data.keys.Nodup

/-- The files that the part `done` of a patch is to be written into. -/
structure Grouped (m : Machine) (done : Patch) (grouped : Dict String (Dict Key Value)) : Prop where
  distinct : grouped.keys.Nodup
  files : ∀ path data, grouped.get? path = some data → PlannedFile m done path data
  ofProject : ∀ path ∈ grouped.keys, path ≠ userPath
  covers : ∀ key ∈ done.keys, ∃ place, projectFiles.get? key = some place ∧ place.relative ∈ grouped.keys

theorem get?_append_single {item : String × PatchValue} (hnew : item.1 ∉ done.keys) (key : String) :
    (done ++ [item] : Patch).get? key = if item.1 = key then some item.2 else done.get? key := by
  have hset : (done ++ [item] : Patch) = Dict.set done item.1 item.2 := (Dict.set_of_not_mem hnew item.2).symm
  rw [hset, Dict.get?_set]

/-- The file that a turn changes. -/
theorem Grouped.put (h : Grouped m done grouped) {item : String × PatchValue} (hnew : item.1 ∉ done.keys)
    {place : Place} (hplace : projectFiles.get? item.1 = some place) {loaded data : Dict Key Value}
    (hread : readYaml m place.relative = .ok loaded)
    (hput : place.put ((grouped.get? place.relative).getD loaded) item.2.toValue = some data) :
    PlannedFile m (done ++ [item]) place.relative data := by
  -- before the turn the file holds the patch so far, also if it was not in a group yet
  have hbefore : PlannedFile m done place.relative ((grouped.get? place.relative).getD loaded) := by
    cases hget : grouped.get? place.relative with
    | some data => exact h.files _ _ hget
    | none =>
        refine ⟨⟨loaded, hread, fun key other hother hfile => ?_⟩, readYaml_distinct hread⟩
        have hnone : done.get? key = none := by
          rw [Dict.get?_eq_none]
          intro hkey
          obtain ⟨other', hother', hmem⟩ := h.covers key hkey
          cases hother.symm.trans hother'
          rw [Dict.get?_eq_none, ← hfile] at hget
          exact hget hmem
        rw [hnone]
        rfl
  obtain ⟨⟨loaded', hread', hheld⟩, hdistinct⟩ := hbefore
  refine ⟨⟨loaded', hread', fun key other hother hfile => ?_⟩, Place.put_distinct hdistinct hput⟩
  rw [get?_append_single hnew]
  by_cases hkey : item.1 = key
  · subst hkey
    cases hplace.symm.trans hother
    rw [if_pos rfl, Place.held_put hput]
    rfl
  · obtain ⟨hsection, hfield⟩ := place_apart hplace hother hfile (Ne.symm hkey)
    rw [if_neg hkey, Place.held_put_other hsection hfield hput]
    exact hheld key other hother hfile

theorem Grouped.step (h : Grouped m done grouped) {item : String × PatchValue} (hnew : item.1 ∉ done.keys)
    (hone : groupOne m grouped item = .ok last) : Grouped m (done ++ [item]) last := by
  unfold groupOne at hone
  split at hone
  · cases hone
  next place hplace =>
  obtain ⟨loaded, hread, hone⟩ := ok_of_bind hone
  split at hone
  case h_2 => cases hone
  next data hput =>
  cases hone
  have hkeys : ∀ path, path ∈ (grouped.set place.relative data).keys ↔ path = place.relative ∨ path ∈ grouped.keys :=
    fun path => Dict.mem_keys_set
  constructor
  · exact Dict.keys_set_nodup h.distinct _ _
  · intro path other hget
    rw [Dict.get?_set] at hget
    split at hget
    · next heq =>
      cases hget
      exact heq ▸ h.put hnew hplace hread hput
    · next hpath =>
      obtain ⟨⟨before, hbefore, hheld⟩, hdistinct⟩ := h.files path other hget
      refine ⟨⟨before, hbefore, fun key place' hplace' hfile => ?_⟩, hdistinct⟩
      rw [get?_append_single hnew, if_neg]
      · exact hheld key place' hplace' hfile
      · rintro rfl
        cases hplace.symm.trans hplace'
        exact hpath hfile
  · intro path hmem
    rcases (hkeys path).mp hmem with rfl | hmem
    · exact projectFiles_not_user _ (Dict.mem_of_get? hplace)
    · exact h.ofProject path hmem
  · intro key hkey
    rw [Dict.keys, List.map_append, List.mem_append] at hkey
    rcases hkey with hkey | hkey
    · obtain ⟨other, hother, hmem⟩ := h.covers key hkey
      exact ⟨other, hother, (hkeys _).mpr (Or.inr hmem)⟩
    · rw [List.map_singleton, List.mem_singleton] at hkey
      subst hkey
      exact ⟨place, hplace, (hkeys _).mpr (Or.inl rfl)⟩

theorem Grouped.run {rest : Patch} (h : Grouped m done grouped) (hpatch : (done ++ rest : Patch).keys.Nodup)
    (hfold : rest.foldlM (groupOne m) grouped = .ok last) : Grouped m (done ++ rest) last := by
  induction rest generalizing done grouped with
  | nil =>
      cases hfold
      rw [List.append_nil]
      exact h
  | cons item rest ih =>
      rw [List.foldlM_cons] at hfold
      obtain ⟨next, hone, hfold⟩ := ok_of_bind hfold
      have hassoc : done ++ item :: rest = (done ++ [item]) ++ rest := by simp
      have hnew : item.1 ∉ Dict.keys done := by
        intro hmem
        rw [Dict.keys, List.map_append, List.map_cons, List.nodup_append] at hpatch
        exact hpatch.2.2 item.1 hmem item.1 List.mem_cons_self rfl
      rw [hassoc] at hpatch ⊢
      exact ih (h.step hnew hone) hpatch hfold

theorem grouped_nil (m : Machine) : Grouped m [] [] where
  distinct := List.nodup_nil
  files _ _ hget := by cases hget
  ofProject _ hmem := absurd hmem List.not_mem_nil
  covers _ hmem := absurd hmem List.not_mem_nil

theorem forM_ok {α : Type} {f : α → Except ConfigError Unit} {xs : List α} (h : xs.forM f = .ok ()) :
    ∀ x ∈ xs, f x = .ok () := by
  induction xs with
  | nil => exact fun x hx => absurd hx List.not_mem_nil
  | cons x xs ih =>
      obtain ⟨⟨⟩, hx, hxs⟩ := ok_of_bind (f := fun _ => xs.forM f) h
      exact List.forall_mem_cons.mpr ⟨hx, ih hxs⟩

/-- The keys that differ in the files of a layer, when those of a scope are changed. -/
def ConfigScope.keysIn (scope layer : ConfigScope) (keys : List String) : List String :=
  if scope = layer then keys else []

theorem planned_ok (h : planned m current patch scope = .ok files) (hpatch : patch.keys.Nodup) :
    (∀ key ∈ patch.keys, key ∈ allowedKeys scope) ∧ (∀ item ∈ patch, checkItem current item = .ok ()) ∧
    files.keys.Nodup ∧
    (∀ file ∈ files, Rewrites m (scope.keysIn .user patch.keys) (scope.keysIn .project patch.keys) file.1 file.2) ∧
    ∀ key value, patch.get? key = some value →
      scopeValue (m.writeFiles files).utf8 scope key = some value.toValue := by
  obtain ⟨⟨⟩, hkeys, h⟩ := ok_of_bind h
  obtain ⟨⟨⟩, hitems, h⟩ := ok_of_bind h
  have hallowed := (checkKeys_iff _).mp hkeys
  refine ⟨hallowed, forM_ok hitems, ?_⟩
  cases scope with
  | user =>
      obtain ⟨data, hread, hfiles⟩ := ok_of_bind h
      cases hfiles
      have hdistinct : (update data patch).keys.Nodup := update_distinct (readYaml_distinct hread)
      have hsingle : (Dict.keys [(userPath, update data patch)]).Nodup := List.nodup_singleton _
      refine ⟨hsingle, ?_, ?_⟩
      · intro file hfile
        cases List.mem_singleton.mp hfile
        refine ⟨hdistinct, data, hread, fun _ => without_update data, fun key place hplace hfile => ?_⟩
        exact absurd hfile (projectFiles_not_user _ (Dict.mem_of_get? hplace))
      · intro key value hvalue
        show (mapping (m.writeFiles [(userPath, update data patch)]).utf8 userPath).get? (.str key) = _
        rw [mapping_writeFiles hsingle fun file hfile => by cases List.mem_singleton.mp hfile; exact hdistinct]
        show (update data patch).get? (.str key) = _
        rw [get?_update data hpatch, hvalue]
        rfl
  | project =>
      have hgrouped : Grouped m patch files := (grouped_nil m).run hpatch h
      have hplanned : ∀ file ∈ files, PlannedFile m patch file.1 file.2 := fun file hfile =>
        hgrouped.files file.1 file.2 (Dict.get?_of_mem hgrouped.distinct hfile)
      refine ⟨hgrouped.distinct, ?_, ?_⟩
      · intro file hfile
        obtain ⟨⟨loaded, hread, hheld⟩, hdistinct⟩ := hplanned file hfile
        refine ⟨hdistinct, loaded, hread, fun huser => ?_, fun key place hplace hpath hkey => ?_⟩
        · exact absurd huser (hgrouped.ofProject _ (List.mem_map_of_mem hfile))
        · rw [hheld key place hplace hpath, Dict.get?_eq_none.mpr hkey]
          rfl
      · intro key value hvalue
        obtain ⟨place, hplace, hmem⟩ := hgrouped.covers key (Dict.mem_keys.mpr ⟨value, Dict.mem_of_get? hvalue⟩)
        obtain ⟨data, hdata⟩ := Option.ne_none_iff_exists'.mp (Dict.get?_eq_none.not.mpr (not_not.mpr hmem))
        obtain ⟨⟨loaded, _, hheld⟩, _⟩ := hgrouped.files _ _ hdata
        show declared _ key = _
        rw [declared_eq, hplace]
        show place.held (mapping (m.writeFiles files).utf8 place.relative) = _
        rw [mapping_writeFiles hgrouped.distinct fun file hfile => (hplanned file hfile).distinct, hdata]
        show place.held data = _
        rw [hheld key place hplace rfl, hvalue]
        rfl

end Planned

/-! ## What is written -/

section Apply

variable {writer : Writer} {m : Machine} {current : Dict String SettingView} {patch : Patch} {scope : ConfigScope}
  {files : Dict String (Dict Key Value)} {disk : Disk}

theorem writeAll_ok (h : firstFailure writer disk.written.length (files.map .ok) = none) :
    writeAll writer disk files = (⟨disk.machine.writeFiles files, disk.written ++ files.keys⟩, .ok ()) := by
  induction files generalizing disk with
  | nil =>
      rw [Dict.keys, List.map_nil, List.append_nil]
      rfl
  | cons file files ih =>
      rw [List.map_cons, firstFailure] at h
      rw [writeAll, atomicYamlWrite_eq]
      cases hattempt : writer.attempt disk.written.length file.1 file.2 with
      | error exn =>
          rw [hattempt] at h
          cases h
      | ok done =>
          rw [hattempt] at h
          show writeAll writer ⟨disk.machine.write file.1 file.2, disk.written ++ [file.1]⟩ files = _
          rw [ih (by simpa using h), List.append_assoc]
          rfl

theorem writeAll_error {index : Nat} {exn : ConfigError}
    (h : firstFailure writer disk.written.length (files.map .ok) = some (index, exn)) :
    (writeAll writer disk files).2 = .error exn ∧ (writeAll writer disk files).1.written.length = index := by
  induction files generalizing disk with
  | nil => cases h
  | cons file files ih =>
      rw [List.map_cons, firstFailure] at h
      rw [writeAll, atomicYamlWrite_eq]
      cases hattempt : writer.attempt disk.written.length file.1 file.2 with
      | error raised =>
          rw [hattempt] at h
          cases h
          exact ⟨rfl, rfl⟩
      | ok done =>
          rw [hattempt] at h
          exact ih (by simpa using h)

/-- What was asked of `apply_settings`. -/
structure TakesEffect (m : Machine) (patch : Patch) (outcome : Outcome) : Prop where
  returned : ∀ views, outcome.result = .ok views → loadSettings outcome.disk.machine = .ok views ∧
    (∀ key value, patch.get? key = some value →
      ∃ view, views.get? key = some view ∧ view.value = value.toValue) ∧
    ∃ current, loadSettings m = .ok current ∧ ∀ key, patch.get? key = none →
      (views.get? key).map SettingView.value = (current.get? key).map SettingView.value
  raised : ∀ message, outcome.result = .error (.settingsError message) → outcome.disk.written = []

/-- The user's file holds nothing else for a key that is written for the project. -/
def Unmasked (m : Machine) (patch : Patch) : Prop :=
  ∀ key value, patch.get? key = some value →
    ∀ held, (userFile m.utf8).get? (.str key) = some held → held = value.toValue

/-- For a patch that is accepted: if all its files can be written, then none of its values is hidden by the user's
file, and if one of them cannot, then it is the first, or no `SettingsError` comes of it. -/
def Lands (writer : Writer) (m : Machine) (patch : Patch) (scope : ConfigScope) : Prop :=
  ∀ current files, loadSettings m = .ok current → planned m current patch scope = .ok files →
    (firstFailure writer 0 (files.map .ok) = none → scope = .project → Unmasked m patch) ∧
    ∀ index message, firstFailure writer 0 (files.map .ok) = some (index, .settingsError message) → index = 0

theorem keysIn_user (h : ∀ key ∈ patch.keys, key ∈ allowedKeys scope) (m : Machine) :
    ∀ key ∈ scope.keysIn .user patch.keys, key ∈ settingKeys ∧ ((plainDefaults m).get? key).isSome := by
  intro key hkey
  cases scope with
  | user => exact ⟨setting_of_allowed (h key hkey), plainDefault_of_user m (h key hkey)⟩
  | project => exact absurd hkey List.not_mem_nil

theorem keysIn_project (h : ∀ key ∈ patch.keys, key ∈ allowedKeys scope) :
    ∀ key ∈ scope.keysIn .project patch.keys, key ∈ settingKeys := by
  intro key hkey
  cases scope with
  | user => exact absurd hkey List.not_mem_nil
  | project => exact setting_of_allowed (h key hkey)

theorem keysIn_subset (layer : ConfigScope) (keys : List String) : ∀ key ∈ scope.keysIn layer keys, key ∈ keys := by
  intro key hkey
  unfold ConfigScope.keysIn at hkey
  split at hkey
  · exact hkey
  · exact absurd hkey List.not_mem_nil

/-- No variable sets a key that passed the check. -/
theorem environmentText_of_checkItem {spec : SettingSpec} {value : PatchValue}
    (hload : loadSettings m = .ok current) (hspec : spec ∈ settingSpecs)
    (h : checkItem current (spec.key, value) = .ok ()) : environmentText m spec.key = none := by
  obtain ⟨config, user, project, _, _, _, hall, _⟩ := loadSettings_ok hload
  obtain ⟨view, hview, hget⟩ := hall spec hspec
  unfold checkItem at h
  rw [hget] at h
  dsimp only at h
  split at h
  · cases h
  next hsource =>
  rw [settingView_eq] at hview
  obtain ⟨loaded, _, hview⟩ := ok_of_bind hview
  unfold layered at hview
  cases htext : environmentText m spec.key with
  | none => rfl
  | some text =>
      rw [htext] at hview
      dsimp only at hview
      cases hconvert : convert m text spec.kind with
      | error exn =>
          rw [hconvert] at hview
          cases hview
      | ok converted =>
          rw [hconvert] at hview
          cases hview
          exact absurd rfl hsource

/-- After the files of an accepted patch were written, the settings load again. The other keys are as they were,
and a key of the patch has its value unless the user's file hides it. -/
theorem loadSettings_written (hsame : m.locale = m.utf8) (hobject : PlainKeys m) (hpatch : patch.keys.Nodup)
    (hload : loadSettings m = .ok current) (hplan : planned m current patch scope = .ok files) :
    ∃ views, loadSettings (m.writeFiles files) = .ok views ∧
      (∀ key, patch.get? key = none → views.get? key = current.get? key) ∧
      ∀ key value, patch.get? key = some value → ∃ view, views.get? key = some view ∧
        view.value = if scope = .project then ((userFile m.utf8).get? (.str key)).getD value.toValue
          else value.toValue := by
  obtain ⟨hallowed, hitems, hdistinct, hrewrites, hvalues⟩ := planned_ok hplan hpatch
  have halike := alike_writeFiles hsame hdistinct hrewrites (keysIn_user hallowed m) (keysIn_project hallowed)
  obtain ⟨views, hviews, hothers⟩ := halike.loadSettings hobject hload
  refine ⟨views, hviews, ?_, ?_⟩
  · intro key hkey
    rw [Dict.get?_eq_none] at hkey
    exact hothers key (fun hmem => hkey (keysIn_subset _ _ key hmem)) fun hmem => hkey (keysIn_subset _ _ key hmem)
  · intro key value hvalue
    have hmem : (key, value) ∈ patch := Dict.mem_of_get? hvalue
    obtain ⟨spec, hspec, rfl⟩ := List.mem_map.mp
      (setting_of_allowed (hallowed key (Dict.mem_keys.mpr ⟨value, hmem⟩)))
    obtain ⟨config, view, loaded, _, hget, _, hshown⟩ := shown_value hviews hspec
    rw [halike.environmentText, environmentText_of_checkItem hload hspec (hitems _ hmem)] at hshown
    refine ⟨view, hget, ?_⟩
    have hscope := hvalues spec.key value hvalue
    cases scope with
    | user =>
        have huser : (userFile (m.writeFiles files).utf8).get? (.str spec.key) = some value.toValue := hscope
        rw [huser] at hshown
        exact hshown
    | project =>
        have hdeclared : declared (m.writeFiles files).utf8 spec.key = some value.toValue := hscope
        have huser : userFile (m.writeFiles files).utf8 = userFile m.utf8 := by
          simpa [without, ConfigScope.keysIn] using halike.user
        rw [hdeclared, huser] at hshown
        rw [if_pos rfl, hshown]
        cases (userFile m.utf8).get? (.str spec.key) <;> rfl

/-- How `apply_settings` ends with a patch that is accepted and not empty. -/
theorem applySettings_planned (writer : Writer) (hload : loadSettings m = .ok current) (hempty : patch ≠ [])
    (hplan : planned m current patch scope = .ok files) :
    match firstFailure writer 0 (files.map .ok) with
    | none => applySettings writer m patch scope =
      ⟨⟨m.writeFiles files, files.keys⟩, loadSettings (m.writeFiles files)⟩
    | some (index, exn) => (applySettings writer m patch scope).result = .error exn ∧
      (applySettings writer m patch scope).disk.written.length = index := by
  unfold applySettings
  rw [hload]
  dsimp only
  rw [if_neg (by simpa using hempty), hplan]
  dsimp only
  cases hfailure : firstFailure writer 0 (files.map .ok) with
  | none =>
      have hwritten : writeAll writer ⟨m, []⟩ files = _ := writeAll_ok hfailure
      rw [hwritten]
      rfl
  | some failure =>
      obtain ⟨index, exn⟩ := failure
      obtain ⟨hresult, hlength⟩ : (writeAll writer ⟨m, []⟩ files).2 = _ ∧ _ := writeAll_error hfailure
      rw [← Prod.mk.eta (p := writeAll writer ⟨m, []⟩ files), hresult]
      exact ⟨rfl, hlength⟩

/-- A patch of one file is written or not. -/
theorem index_eq_zero {file : String × Dict Key Value} {index : Nat} {exn : ConfigError}
    (h : firstFailure writer 0 [.ok file] = some (index, exn)) : index = 0 := by
  unfold firstFailure at h
  split at h
  · cases h
    rfl
  · cases h

theorem lands_nil (writer : Writer) (m : Machine) (scope : ConfigScope) : Lands writer m [] scope := by
  intro current files _ hplan
  refine ⟨fun _ _ key value hvalue => (by cases hvalue), fun index message hfailure => ?_⟩
  obtain ⟨⟨⟩, _, hplan⟩ := ok_of_bind hplan
  obtain ⟨⟨⟩, _, hplan⟩ := ok_of_bind hplan
  cases scope with
  | user =>
      obtain ⟨data, _, hfiles⟩ := ok_of_bind hplan
      cases hfiles
      exact index_eq_zero hfailure
  | project =>
      cases hplan
      cases hfailure

/-- A call that stops before it writes. -/
theorem takesEffect_stopped (m : Machine) (patch : Patch) (exn : ConfigError) :
    TakesEffect m patch ⟨⟨m, []⟩, .error exn⟩ where
  returned _ hviews := by cases hviews
  raised _ _ := rfl

theorem takesEffect_planned (hsame : m.locale = m.utf8) (hobject : PlainKeys m) (hpatch : patch.keys.Nodup)
    (hload : loadSettings m = .ok current) (hempty : patch ≠ []) (hplan : planned m current patch scope = .ok files) :
    TakesEffect m patch (applySettings writer m patch scope) ↔
      (firstFailure writer 0 (files.map .ok) = none → scope = .project → Unmasked m patch) ∧
      ∀ index message, firstFailure writer 0 (files.map .ok) = some (index, .settingsError message) → index = 0 := by
  have happly := applySettings_planned writer hload hempty hplan
  cases hfailure : firstFailure writer 0 (files.map .ok) with
  | some failure =>
      obtain ⟨index, exn⟩ := failure
      rw [hfailure] at happly
      obtain ⟨hresult, hlength⟩ := happly
      constructor
      · intro h
        refine ⟨fun hnone => (by cases hnone), ?_⟩
        rintro _ message ⟨⟩
        rw [← hlength, h.raised message hresult]
        rfl
      · rintro ⟨_, hfirst⟩
        refine ⟨fun views hviews => (by rw [hresult] at hviews; cases hviews), fun message hmessage => ?_⟩
        rw [hresult] at hmessage
        cases hmessage
        exact List.eq_nil_of_length_eq_zero (hlength.trans (hfirst index message rfl))
  | none =>
      rw [hfailure] at happly
      rw [happly]
      obtain ⟨views, hviews, hothers, hpatched⟩ := loadSettings_written hsame hobject hpatch hload hplan
      constructor
      · intro h
        refine ⟨?_, fun index message hsome => (by cases hsome)⟩
        rintro - rfl key value hvalue held hheld
        obtain ⟨_, hvalues, _⟩ := h.returned views hviews
        obtain ⟨view, hget, hvalueOf⟩ := hvalues key value hvalue
        obtain ⟨view', hget', hshown⟩ := hpatched key value hvalue
        cases hget.symm.trans hget'
        rw [if_pos rfl, hheld] at hshown
        exact hshown.symm.trans hvalueOf
      · rintro ⟨hmasks, _⟩
        refine ⟨?_, fun message hmessage => (by rw [hviews] at hmessage; cases hmessage)⟩
        intro returned hreturned
        cases hviews.symm.trans hreturned
        refine ⟨hviews, fun key value hvalue => ?_, current, hload, fun key hkey => by rw [hothers key hkey]⟩
        obtain ⟨view, hget, hshown⟩ := hpatched key value hvalue
        refine ⟨view, hget, ?_⟩
        rw [hshown]
        split
        · next hscope =>
          cases hheld : (userFile m.utf8).get? (.str key) with
          | none => rfl
          | some held => exact hmasks rfl hscope key value hvalue held hheld
        · rfl

/-- A patch takes effect or leaves the files as they were, except where the user's file holds another value for a
key that is written for the project, and where a file after the first cannot be written. -/
theorem applySettings_iff (writer : Writer) (scope : ConfigScope) (hsame : m.locale = m.utf8) (hobject : PlainKeys m)
    (hpatch : patch.keys.Nodup) :
    TakesEffect m patch (applySettings writer m patch scope) ↔ Lands writer m patch scope := by
  cases hload : loadSettings m with
  | error exn =>
      rw [applySettings, hload]
      refine iff_of_true (takesEffect_stopped m patch exn) ?_
      intro current files hcurrent
      cases hload.symm.trans hcurrent
  | ok current =>
      by_cases hempty : patch = []
      · subst hempty
        rw [applySettings, hload]
        refine iff_of_true ⟨?_, fun message hmessage => rfl⟩ (lands_nil writer m scope)
        rintro views ⟨⟩
        exact ⟨hload, fun key value hvalue => (by cases hvalue), current, hload, fun _ _ => rfl⟩
      cases hplan : planned m current patch scope with
      | error exn =>
          rw [applySettings, hload]
          dsimp only
          rw [if_neg (by simpa using hempty), hplan]
          refine iff_of_true (takesEffect_stopped m patch exn) ?_
          intro other files hother hfiles
          cases hload.symm.trans hother
          cases hplan.symm.trans hfiles
      | ok files =>
          rw [takesEffect_planned hsame hobject hpatch hload hempty hplan]
          constructor
          · intro h other files' hother hfiles
            cases hload.symm.trans hother
            cases hplan.symm.trans hfiles
            exact h
          · exact fun h => h current files hload hplan

end Apply

/-! ### A file that is masked, and one that cannot be written -/

/-- A disk on which the writes before the `n`-th succeed, and no other. -/
def diskOf (n : Nat) : Writer where
  mkdir _ _ := .ok ()
  safeDump _ := .ok ""
  replace k _ _ := if k < n then .ok () else .error (.osError "No space left on device")

def fiveWorkers : Patch := [("max_parallel_tasks", .int 5)]

theorem fiveWorkers_planned {m : Machine} {current : Dict String SettingView} {files : Dict String (Dict Key Value)}
    (h : planned m current fiveWorkers .project = .ok files) : ∃ data, files = [(".ai/orchestration/settings.yaml", data)] := by
  obtain ⟨⟨⟩, _, h⟩ := ok_of_bind h
  obtain ⟨⟨⟩, _, h⟩ := ok_of_bind h
  obtain ⟨grouped, hone, hfiles⟩ := ok_of_bind h
  cases hfiles
  obtain ⟨loaded, _, hone⟩ := ok_of_bind hone
  cases hone
  exact ⟨_, rfl⟩

theorem applySettings_iff_five :
    TakesEffect eightWorkers fiveWorkers (applySettings (diskOf 1) eightWorkers fiveWorkers .project) := by
  refine (applySettings_iff (diskOf 1) .project rfl (fun _ _ => rfl) (by decide)).mpr ?_
  intro current files _ hplan
  obtain ⟨data, rfl⟩ := fiveWorkers_planned hplan
  exact ⟨fun _ _ key value _ held hheld => (by cases hheld), fun index message hfailure => (by cases hfailure)⟩

theorem nodup_eightForUser : (Dict.keys [(Key.str "max_parallel_tasks", Value.number 8)]).Nodup := by decide

def eightForUser : Machine :=
  machineWith userPath [(.str "max_parallel_tasks", .number 8)] nodup_eightForUser

def twoFiles : Patch := [("worktree_strategy", .str "single"), ("max_retries_per_task", .int 5)]

/-- The user's file hides the value that was written, and of two files one is written and the call fails. -/
theorem masked_not_applied :
    ¬ TakesEffect eightForUser fiveWorkers (applySettings (diskOf 1) eightForUser fiveWorkers .project) ∧
    ¬ TakesEffect eightWorkers twoFiles (applySettings (diskOf 1) eightWorkers twoFiles .project) := by
  have hfive : checkKeys "written" .project fiveWorkers.keys = .ok () := (checkKeys_iff _).mpr (by decide)
  have htwo : checkKeys "written" .project twoFiles.keys = .ok () := (checkKeys_iff _).mpr (by decide)
  constructor
  · obtain ⟨current, hload⟩ : ∃ current, loadSettings eightForUser = .ok current := ⟨_, rfl⟩
    obtain ⟨files, hplan⟩ : ∃ files, planned eightForUser current fiveWorkers .project = .ok files := by
      cases hload
      unfold planned
      rw [hfive]
      exact ⟨_, rfl⟩
    obtain ⟨data, rfl⟩ := fiveWorkers_planned hplan
    rw [takesEffect_planned rfl (fun _ _ => rfl) (by decide) hload (by decide) hplan]
    intro h
    have hmasks := h.1 rfl rfl "max_parallel_tasks" (.int 5) rfl (.number 8) rfl
    simp [PatchValue.toValue] at hmasks
  · obtain ⟨current, hload⟩ : ∃ current, loadSettings eightWorkers = .ok current := ⟨_, rfl⟩
    obtain ⟨files, hplan, hfailure⟩ : ∃ files, planned eightWorkers current twoFiles .project = .ok files ∧
        firstFailure (diskOf 1) 0 (files.map .ok) = some (1, .settingsError
          "Could not write settings file .ai/orchestration/fallbacks.yaml: No space left on device") := by
      cases hload
      unfold planned
      rw [htwo]
      exact ⟨_, rfl, rfl⟩
    rw [takesEffect_planned rfl (fun _ _ => rfl) (by decide) hload (by decide) hplan]
    intro h
    cases h.2 1 _ hfailure

end AtlasFlow.Reference.Settings
