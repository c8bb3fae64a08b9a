import AtlasFlow.Reference.Settings

/-!
# Loading settings again

What `load_settings` returns after files were written, compared with what it returned before. Each attribute of
the runtime's object is followed by itself through the layers, and two machines are compared key by key.
-/

namespace AtlasFlow.Reference.Settings

/-! ## One attribute through the layers -/

section Follow

variable {m : Machine} {attributes result : Attributes} {name : String} {overrides : Dict Key Value}

/-- What every object of the class has besides its `__dict__`. -/
def isInherited (m : Machine) (name : String) : Bool :=
  ((plainDefaults m).get? name).isSome || properties.contains name || methods.contains name || (m.object name).isSome

/-- The keys of a mapping that name attributes. -/
def attributesOf (items : Dict Key Value) : Attributes :=
  items.filterMap fun item => match item.1 with
    | .str s => some (s, item.2)
    | .other _ => none

/-- What one override does to the attribute `name`, of which `held` is the value. -/
def follow (m : Machine) (name : String) (held : Option Value) (item : Key × Value) : Option Value :=
  if item.1 = .str "__dict__" then
    match item.2 with
    | .dict items => (attributesOf items).get? name
    | _ => held
  else if item.1 = .str name ∧ (held.isSome || isInherited m name) = true then some item.2
  else held

theorem hasAttribute_eq (h : name ≠ "__dict__") :
    hasAttribute m attributes name = ((attributes.get? name).isSome || isInherited m name) := by
  unfold hasAttribute isInherited
  simp [h, Bool.or_assoc]

theorem overrideOne_dict (value : Value) :
    overrideOne m attributes (.str "__dict__", value) =
      match value with
      | .dict items => .ok (attributesOf items)
      | _ => .error (.typeError "__dict__ must be set to a dictionary") := by
  have hhas : hasAttribute m attributes "__dict__" = true := by simp [hasAttribute]
  show (if hasAttribute m attributes "__dict__" then setAttribute m attributes "__dict__" value
    else .ok attributes) = _
  rw [if_pos hhas]
  unfold setAttribute
  rw [if_pos rfl]
  rfl

theorem overrideOne_other (h : name ≠ "__dict__") (value : Value) :
    overrideOne m attributes (.str name, value) =
      if (attributes.get? name).isSome || isInherited m name then
        if properties.contains name then
          .error (.attributeError s!"property '{name}' of 'AtlasFlowConfig' object has no setter")
        else match m.object name with
          | some (.error exn) => .error exn
          | _ => .ok (attributes.set name value)
      else .ok attributes := by
  show (if hasAttribute m attributes name then setAttribute m attributes name value else .ok attributes) = _
  rw [hasAttribute_eq h]
  unfold setAttribute
  exact ite_congr rfl (fun _ => if_neg h) fun _ => rfl

theorem get?_of_overrideOne {item : Key × Value} (hname : name ≠ "__dict__")
    (h : overrideOne m attributes item = .ok result) :
    result.get? name = follow m name (attributes.get? name) item := by
  obtain ⟨key, value⟩ := item
  cases key with
  | other text => cases h
  | str other =>
      by_cases hdict : other = "__dict__"
      · subst hdict
        rw [overrideOne_dict] at h
        rw [follow, if_pos rfl]
        cases value with
        | dict items =>
            cases h
            rfl
        | _ => cases h
      · rw [follow, if_neg (by simpa using hdict)]
        simp only [overrideOne] at h
        rw [hasAttribute_eq hdict] at h
        split at h
        · next hhas =>
          rw [setAttribute_ok hdict h, Dict.get?_set]
          by_cases hother : other = name
          · subst hother
            simp [hhas]
          · simp [hother]
        · next hhas =>
          cases h
          by_cases hother : other = name
          · subst hother
            simp [hhas]
          · simp [hother]

theorem get?_of_applyOverride (hname : name ≠ "__dict__") (h : applyOverride m attributes overrides = .ok result) :
    result.get? name = overrides.foldl (follow m name) (attributes.get? name) := by
  unfold applyOverride at h
  induction overrides generalizing attributes with
  | nil =>
      cases h
      rfl
  | cons item overrides ih =>
      rw [List.foldlM_cons] at h
      obtain ⟨next, hone, hfold⟩ := ok_of_bind h
      rw [ih hfold, get?_of_overrideOne hname hone]
      rfl

/-- An override of another key does nothing. -/
theorem follow_other {held : Option Value} {item : Key × Value} (hdict : item.1 ≠ .str "__dict__")
    (h : item.1 ≠ .str name) : follow m name held item = held := by
  rw [follow, if_neg hdict, if_neg fun hboth => h hboth.1]

/-- Overrides that are left out here are of other keys. -/
theorem foldl_follow_filter {p : Key × Value → Bool}
    (hp : ∀ item, p item = false → item.1 ≠ .str "__dict__" ∧ item.1 ≠ .str name) (held : Option Value) :
    (overrides.filter p).foldl (follow m name) held = overrides.foldl (follow m name) held := by
  induction overrides generalizing held with
  | nil => rfl
  | cons item overrides ih =>
      cases hitem : p item with
      | true =>
          rw [List.filter_cons_of_pos hitem]
          exact ih _
      | false =>
          obtain ⟨hdict, hother⟩ := hp item hitem
          rw [List.filter_cons_of_neg (by rw [hitem]; decide), List.foldl_cons, follow_other hdict hother]
          exact ih held

/-- Whether the attribute is there at the end depends on whether it was at the start. -/
theorem isSome_foldl_follow {held held' : Option Value} (h : held'.isSome = held.isSome) :
    (overrides.foldl (follow m name) held').isSome = (overrides.foldl (follow m name) held).isSome := by
  induction overrides generalizing held held' with
  | nil => exact h
  | cons item overrides ih =>
      refine ih ?_
      unfold follow
      rw [h]
      split
      · split
        · rfl
        · exact h
      · split
        · rfl
        · exact h

/-! ### When a layer can be applied -/

/-- An override that does not raise, whatever the attributes are. -/
def Settable (m : Machine) (item : Key × Value) : Prop :=
  match item.1 with
  | .other _ => False
  | .str name =>
    if name = "__dict__" then ∃ items, item.2 = .dict items
    else properties.contains name = false ∧ ∀ exn, m.object name ≠ some (.error exn)

theorem overrideOne_iff (attributes : Attributes) (item : Key × Value) :
    (∃ result, overrideOne m attributes item = .ok result) ↔ Settable m item := by
  obtain ⟨key, value⟩ := item
  cases key with
  | other text =>
      constructor
      · rintro ⟨_, h⟩
        cases h
      · exact False.elim
  | str name =>
      simp only [Settable]
      by_cases hdict : name = "__dict__"
      · subst hdict
        rw [if_pos rfl, overrideOne_dict]
        cases value <;> simp
      rw [if_neg hdict, overrideOne_other hdict]
      cases hproperty : properties.contains name with
      | true =>
          have hinherited : isInherited m name = true := by
            rw [isInherited, hproperty]
            simp
          simp [hinherited]
      | false =>
          cases hobject : m.object name with
          | none =>
              by_cases h : ((attributes.get? name).isSome || isInherited m name) = true
              · rw [if_pos h]
                simp
              · rw [if_neg h]
                simp
          | some raised =>
              have hinherited : isInherited m name = true := by simp [isInherited, hobject]
              rw [hinherited, Bool.or_true, if_pos rfl]
              cases raised <;> simp

theorem applyOverride_iff (attributes : Attributes) (overrides : Dict Key Value) :
    (∃ result, applyOverride m attributes overrides = .ok result) ↔ ∀ item ∈ overrides, Settable m item := by
  unfold applyOverride
  induction overrides generalizing attributes with
  | nil => simp [pure, Except.pure]
  | cons item overrides ih =>
      rw [List.foldlM_cons, List.forall_mem_cons, ← overrideOne_iff attributes]
      constructor
      · rintro ⟨result, h⟩
        obtain ⟨next, hone, hfold⟩ := ok_of_bind h
        exact ⟨⟨next, hone⟩, (ih next).mp ⟨result, hfold⟩⟩
      · rintro ⟨⟨next, hone⟩, hrest⟩
        obtain ⟨result, hfold⟩ := (ih next).mpr hrest
        exact ⟨result, by rw [hone]; exact hfold⟩

end Follow

/-! ## Two machines -/

def settingKeys : List String := settingSpecs.map SettingSpec.key

/-- No object has a setting as an attribute of its own: Python's are all written with underscores. -/
def PlainKeys (m : Machine) : Prop := ∀ key ∈ settingKeys, m.object key = none

/-- The items of a mapping with other keys. -/
def without (keys : List String) (data : Dict Key Value) : Dict Key Value :=
  data.filter fun item => item.1 ∉ keys.map Key.str

/-- The same process on two states of its files: the user's files differ in `byUser`, and the project's in
`byProject`. The same files can be read, and they are read in UTF-8. -/
structure Alike (m m' : Machine) (byUser byProject : List String) : Prop where
  environ : m'.environ = m.environ
  int : m'.int = m.int
  float : m'.float = m.float
  object : m'.object = m.object
  projectId : m'.projectId = m.projectId
  workingDir : m'.workingDir = m.workingDir
  projectRoot : m'.projectRoot = m.projectRoot
  locale : m.locale = m.utf8
  locale' : m'.locale = m'.utf8
  errors : ∀ path exn, m'.utf8 path = some (.error exn) ↔ m.utf8 path = some (.error exn)
  user : without byUser (userFile m'.utf8) = without byUser (userFile m.utf8)
  declared : ∀ key, key ∉ byProject → declared m'.utf8 key = declared m.utf8 key
  userKeys : ∀ key ∈ byUser, key ∈ settingKeys ∧ ((plainDefaults m).get? key).isSome
  projectKeys : ∀ key ∈ byProject, key ∈ settingKeys

section Alike

variable {m m' m'' : Machine} {byUser byProject : List String} {attributes attributes' config : Attributes}
  {name : String}

theorem Alike.plainDefaults (h : Alike m m' byUser byProject) : plainDefaults m' = plainDefaults m := by
  unfold Settings.plainDefaults
  rw [h.workingDir]

theorem Alike.symm (h : Alike m m' byUser byProject) : Alike m' m byUser byProject where
  environ := h.environ.symm
  int := h.int.symm
  float := h.float.symm
  object := h.object.symm
  projectId := h.projectId.symm
  workingDir := h.workingDir.symm
  projectRoot := h.projectRoot.symm
  locale := h.locale'
  locale' := h.locale
  errors path exn := (h.errors path exn).symm
  user := h.user.symm
  declared key hkey := (h.declared key hkey).symm
  userKeys key hkey := by
    rw [h.plainDefaults]
    exact h.userKeys key hkey
  projectKeys := h.projectKeys

theorem Alike.trans (h : Alike m m' byUser byProject) (h' : Alike m' m'' byUser byProject) :
    Alike m m'' byUser byProject where
  environ := h'.environ.trans h.environ
  int := h'.int.trans h.int
  float := h'.float.trans h.float
  object := h'.object.trans h.object
  projectId := h'.projectId.trans h.projectId
  workingDir := h'.workingDir.trans h.workingDir
  projectRoot := h'.projectRoot.trans h.projectRoot
  locale := h.locale
  locale' := h'.locale'
  errors path exn := (h'.errors path exn).trans (h.errors path exn)
  user := h'.user.trans h.user
  declared key hkey := (h'.declared key hkey).trans (h.declared key hkey)
  userKeys := h.userKeys
  projectKeys := h.projectKeys

theorem Alike.refl (h : m.locale = m.utf8)
    (huser : ∀ key ∈ byUser, key ∈ settingKeys ∧ ((Settings.plainDefaults m).get? key).isSome)
    (hproject : ∀ key ∈ byProject, key ∈ settingKeys) : Alike m m byUser byProject where
  environ := rfl
  int := rfl
  float := rfl
  object := rfl
  projectId := rfl
  workingDir := rfl
  projectRoot := rfl
  locale := h
  locale' := h
  errors _ _ := Iff.rfl
  user := rfl
  declared _ _ := rfl
  userKeys := huser
  projectKeys := hproject

/-- Where the files turn out to hold the same, nothing differs. -/
theorem Alike.narrow (h : Alike m m' byUser byProject) (huser : userFile m'.utf8 = userFile m.utf8)
    (hdeclared : ∀ key ∈ byProject, Settings.declared m'.utf8 key = Settings.declared m.utf8 key) :
    Alike m m' [] [] where
  environ := h.environ
  int := h.int
  float := h.float
  object := h.object
  projectId := h.projectId
  workingDir := h.workingDir
  projectRoot := h.projectRoot
  locale := h.locale
  locale' := h.locale'
  errors := h.errors
  user := by rw [huser]
  declared key _ := by
    by_cases hkey : key ∈ byProject
    · exact hdeclared key hkey
    · exact h.declared key hkey
  userKeys _ hkey := absurd hkey List.not_mem_nil
  projectKeys _ hkey := absurd hkey List.not_mem_nil

/-! ### The layer of the project -/

/-- No file of the directory is in the way. -/
def Readable (m : Machine) : Prop :=
  ∀ name ∈ ["autonomy-policy.yaml", "orchestrator.yaml", "fallbacks.yaml", "settings.yaml"], ∀ exn,
    m.locale (configDir ++ name) ≠ some (.error exn)

theorem mergeFile_iff (merge : Dict Key Value → Attributes → Attributes) (merged : Attributes) :
    (∃ merged', mergeFile m name merge merged = .ok merged') ↔
      ∀ exn, m.locale (configDir ++ name) ≠ some (.error exn) := by
  unfold mergeFile
  rcases m.locale (configDir ++ name) with _ | exn | value
  · simp
  · simp
  · cases value <;> simp

theorem loadProjectConfig_iff : (∃ merged, loadProjectConfig m = .ok merged) ↔ Readable m := by
  unfold Readable
  simp only [List.forall_mem_cons, List.not_mem_nil, IsEmpty.forall_iff, implies_true, and_true]
  unfold loadProjectConfig
  cases hdir : m.isDir with
  | false =>
      have hnone : ∀ name, m.locale (configDir ++ name) = none := by
        intro name
        have hsame := m.exists_same (configDir ++ name)
        rw [m.no_files hdir name] at hsame
        simpa using hsame
      simp [hnone, pure, Except.pure]
  | true =>
      constructor
      · rintro ⟨merged, h⟩
        obtain ⟨first, hfirst, h⟩ := ok_of_bind h
        obtain ⟨second, hsecond, h⟩ := ok_of_bind h
        obtain ⟨third, hthird, h⟩ := ok_of_bind h
        exact ⟨(mergeFile_iff _ _).mp ⟨_, hfirst⟩, (mergeFile_iff _ _).mp ⟨_, hsecond⟩, (mergeFile_iff _ _).mp ⟨_, hthird⟩,
          (mergeFile_iff _ _).mp ⟨_, h⟩⟩
      · rintro ⟨hautonomy, hexecution, hfallbacks, hsettings⟩
        obtain ⟨first, hfirst⟩ := (mergeFile_iff mergeAutonomy []).mpr hautonomy
        obtain ⟨second, hsecond⟩ := (mergeFile_iff mergeExecution first).mpr hexecution
        obtain ⟨third, hthird⟩ := (mergeFile_iff mergeFallbacks second).mpr hfallbacks
        obtain ⟨last, hlast⟩ := (mergeFile_iff mergeSettings third).mpr hsettings
        refine ⟨last, ?_⟩
        rw [hfirst]
        show (mergeFile m "orchestrator.yaml" mergeExecution first >>= fun merged => do
          let merged ← mergeFile m "fallbacks.yaml" mergeFallbacks merged
          mergeFile m "settings.yaml" mergeSettings merged) = _
        rw [hsecond]
        show (mergeFile m "fallbacks.yaml" mergeFallbacks second >>= mergeFile m "settings.yaml" mergeSettings) = _
        rw [hthird]
        exact hlast

/-- The layer holds settings only. -/
theorem mem_settingKeys_of_merged {merged : Attributes} (h : loadProjectConfig m = .ok merged)
    (hname : merged.get? name ≠ none) : name ∈ settingKeys := by
  by_contra hnot
  apply hname
  rw [get?_mergeAll h]
  have hne : ∀ key ∈ settingKeys, name ≠ key := by
    rintro key hkey rfl
    exact hnot hkey
  simp only [settingKeys, settingSpecs, List.map_cons, List.map_nil, List.forall_mem_cons] at hne
  simp [ofSettings, ofFallbacks, ofExecution, ofAutonomy, known, hne]

theorem dict_not_mem_settingKeys : "__dict__" ∉ settingKeys := by decide

theorem not_property_of_mem_settingKeys : ∀ key ∈ settingKeys, properties.contains key = false := by decide

theorem settable_of_mem_settingKeys (h : PlainKeys m) (hname : name ∈ settingKeys) (value : Value) :
    Settable m (.str name, value) := by
  have hdict : name ≠ "__dict__" := by
    rintro rfl
    exact dict_not_mem_settingKeys hname
  show if name = "__dict__" then _ else _
  rw [if_neg hdict, h name hname]
  exact ⟨not_property_of_mem_settingKeys name hname, fun exn herror => by cases herror⟩

/-- `_load_project_config`, as it is applied. -/
def projectItems (merged : Attributes) : Dict Key Value := merged.map fun item => (.str item.1, item.2)

theorem mem_projectItems {merged : Attributes} (h : loadProjectConfig m = .ok merged) :
    ∀ item ∈ projectItems merged, ∃ key ∈ settingKeys, item.1 = .str key := by
  intro item hitem
  obtain ⟨entry, hentry, rfl⟩ := List.mem_map.mp hitem
  refine ⟨entry.1, mem_settingKeys_of_merged h fun hnone => ?_, rfl⟩
  exact Dict.get?_eq_none.mp hnone (Dict.mem_keys.mpr ⟨entry.2, hentry⟩)

theorem foldl_follow_absent {overrides : Dict Key Value} {held : Option Value}
    (h : ∀ item ∈ overrides, item.1 ≠ .str "__dict__" ∧ item.1 ≠ .str name) :
    overrides.foldl (follow m name) held = held := by
  induction overrides with
  | nil => rfl
  | cons item overrides ih =>
      obtain ⟨hitem, hrest⟩ := List.forall_mem_cons.mp h
      rw [List.foldl_cons, follow_other hitem.1 hitem.2]
      exact ih hrest

theorem applyProject_ok (hobject : PlainKeys m) {merged : Attributes} (h : loadProjectConfig m = .ok merged)
    (attributes : Attributes) : ∃ result, applyOverride m attributes (projectItems merged) = .ok result := by
  rw [applyOverride_iff]
  intro item hitem
  obtain ⟨key, hkey, hitem⟩ := mem_projectItems h item hitem
  obtain ⟨_, value⟩ := item
  cases hitem
  exact settable_of_mem_settingKeys hobject hkey value

/-- After the layer of the project a setting is what its files declare, or the default. -/
theorem get?_applyProject {projectId : String} {merged : Attributes} (hmerged : loadProjectConfig m = .ok merged)
    (h : applyOverride m (initial m projectId) (projectItems merged) = .ok attributes) :
    (∀ spec ∈ settingSpecs, attributes.get? spec.key =
      ((declared m.locale spec.key).filter fun value =>
        spec.key ≠ "mcp_enabled" && (spec.key ≠ "autonomy_mode" || value.isSet)).or (some spec.default)) ∧
    ∀ name, name ∉ settingKeys → name ≠ "__dict__" → attributes.get? name = (initial m projectId).get? name := by
  have hinjective : Function.Injective Key.str := fun a b heq => Key.str.inj heq
  have hdict : ∀ item ∈ projectItems merged, item.1 ≠ .str "__dict__" := by
    intro item hitem heq
    obtain ⟨key, hkey, hitem⟩ := mem_projectItems hmerged item hitem
    rw [hitem] at heq
    cases heq
    exact dict_not_mem_settingKeys hkey
  have hkeys : (projectItems merged).keys = merged.keys.map Key.str := by
    simp [Dict.keys, projectItems]
  constructor
  · intro spec hspec
    have hget := get?_applyOverride hdict (hkeys ▸ (nodup_mergeAll hmerged).map hinjective)
      (by rw [get?_initial projectId hspec]; rfl) h
    rw [projectItems, Dict.get?_map_keys hinjective, loaded_project hmerged hspec, get?_initial projectId hspec] at hget
    exact hget
  · intro name hname hnotDict
    rw [get?_of_applyOverride hnotDict h, foldl_follow_absent]
    intro item hitem
    refine ⟨hdict item hitem, fun heq => ?_⟩
    obtain ⟨key, hkey, hitem⟩ := mem_projectItems hmerged item hitem
    rw [hitem] at heq
    cases heq
    exact hname hkey

/-! ### The layers of the files -/

theorem Alike.plainKeys (h : Alike m m' byUser byProject) (hobject : PlainKeys m) : PlainKeys m' := by
  intro key hkey
  rw [h.object]
  exact hobject key hkey

theorem Alike.settable (h : Alike m m' byUser byProject) (item : Key × Value) : Settable m' item ↔ Settable m item := by
  unfold Settable
  rw [h.object]

theorem Alike.follow (h : Alike m m' byUser byProject) : follow m' = follow m := by
  funext name held item
  unfold Settings.follow isInherited
  rw [h.object, h.plainDefaults]

theorem Alike.initial (h : Alike m m' byUser byProject) : initial m' = initial m := by
  funext projectId
  unfold Settings.initial
  rw [h.projectRoot, h.plainDefaults]

theorem Alike.readable (h : Alike m m' byUser byProject) (hreadable : Readable m) : Readable m' := by
  intro name hname exn herror
  rw [h.locale', h.errors, ← h.locale] at herror
  exact hreadable name hname exn herror

theorem loadUserConfig_iff {user : Dict Key Value} : loadUserConfig m = .ok user ↔
    (∀ exn, m.locale userPath ≠ some (.error exn)) ∧ user = userFile m.locale := by
  unfold loadUserConfig userFile
  rcases m.locale userPath with _ | exn | value
  · simp [eq_comm]
  · simp
  · cases value <;> simp [eq_comm]

/-- What is left of the user's file is applied in the same way. -/
theorem Alike.foldl_follow (h : Alike m m' byUser byProject) (hname : name ∉ byUser) (held : Option Value) :
    (userFile m'.utf8).foldl (Settings.follow m name) held = (userFile m.utf8).foldl (Settings.follow m name) held := by
  have hp : ∀ item : Key × Value, (decide (item.1 ∉ byUser.map Key.str)) = false →
      item.1 ≠ .str "__dict__" ∧ item.1 ≠ .str name := by
    intro item hitem
    rw [decide_eq_false_iff_not, not_not] at hitem
    obtain ⟨key, hkey, heq⟩ := List.mem_map.mp hitem
    rw [← heq]
    constructor
    · rintro ⟨⟩
      exact dict_not_mem_settingKeys (h.userKeys _ hkey).1
    · rintro ⟨⟩
      exact hname hkey
  rw [← foldl_follow_filter hp, ← @foldl_follow_filter m name (userFile m.utf8) _ hp]
  exact congrArg _ h.user

/-- A key of the user's file that is not one of those that differ is in the other file too. -/
theorem Alike.settable_user (h : Alike m m' byUser byProject) (hobject : PlainKeys m)
    (hsettable : ∀ item ∈ userFile m.utf8, Settable m item) : ∀ item ∈ userFile m'.utf8, Settable m' item := by
  intro item hitem
  by_cases hdiffers : item.1 ∈ byUser.map Key.str
  · obtain ⟨key, hkey, heq⟩ := List.mem_map.mp hdiffers
    obtain ⟨_, value⟩ := item
    cases heq
    exact settable_of_mem_settingKeys (h.plainKeys hobject) (h.userKeys key hkey).1 value
  · have hmem : item ∈ without byUser (userFile m'.utf8) := List.mem_filter.mpr ⟨hitem, by simpa using hdiffers⟩
    rw [h.user] at hmem
    exact (h.settable item).mpr (hsettable item (List.mem_of_mem_filter hmem))

theorem Alike.loadFiles (h : Alike m m' byUser byProject) (hobject : PlainKeys m)
    (hload : loadFiles m = .ok attributes) : ∃ attributes', loadFiles m' = .ok attributes' ∧
      (∀ name, name ≠ "__dict__" → name ∉ byUser → name ∉ byProject →
        attributes'.get? name = attributes.get? name) ∧
      ∀ name, name ≠ "__dict__" → name ∉ byUser → (attributes'.get? name).isSome = (attributes.get? name).isSome := by
  obtain ⟨projectId, hprojectId, hload⟩ := ok_of_bind hload
  obtain ⟨merged, hmerged, hload⟩ := ok_of_bind hload
  obtain ⟨project, hproject, hload⟩ := ok_of_bind hload
  obtain ⟨user, huser, huserLayer⟩ := ok_of_bind hload
  obtain ⟨hreadUser, rfl⟩ := loadUserConfig_iff.mp huser
  rw [h.locale] at huserLayer hreadUser
  have hprojectId' : m'.projectId = .ok projectId := h.projectId.trans hprojectId
  obtain ⟨merged', hmerged'⟩ := loadProjectConfig_iff.mpr (h.readable (loadProjectConfig_iff.mp ⟨merged, hmerged⟩))
  obtain ⟨project', hproject'⟩ := applyProject_ok (h.plainKeys hobject) hmerged' (Settings.initial m' projectId)
  have huser' : loadUserConfig m' = .ok (userFile m'.utf8) := by
    rw [loadUserConfig_iff, h.locale']
    exact ⟨fun exn herror => hreadUser exn ((h.errors _ _).mp herror), rfl⟩
  obtain ⟨attributes', hattributes'⟩ := (applyOverride_iff project' (userFile m'.utf8)).mpr
    (h.settable_user hobject ((applyOverride_iff project _).mp ⟨attributes, huserLayer⟩))
  refine ⟨attributes', ?_, ?_⟩
  · rw [Settings.loadFiles, hprojectId']
    show (loadProjectConfig m' >>= fun project => _) = _
    rw [hmerged']
    show (applyOverride m' (Settings.initial m' projectId) (projectItems merged') >>= fun attributes => _) = _
    rw [hproject']
    show (loadUserConfig m' >>= fun user => applyOverride m' project' user) = _
    rw [huser']
    exact hattributes'
  have hlayer := get?_applyProject hmerged hproject
  have hlayer' := get?_applyProject hmerged' hproject'
  -- each attribute is followed through the user's file from what the layer of the project left
  have hfollow : ∀ name, name ≠ "__dict__" → name ∉ byUser →
      attributes'.get? name = (userFile m.utf8).foldl (Settings.follow m name) (project'.get? name) ∧
        attributes.get? name = (userFile m.utf8).foldl (Settings.follow m name) (project.get? name) := by
    intro name hdict hname
    rw [get?_of_applyOverride hdict hattributes', get?_of_applyOverride hdict huserLayer, h.follow,
      h.foldl_follow hname]
    exact ⟨rfl, rfl⟩
  constructor
  · intro name hdict hnotUser hnotProject
    obtain ⟨hafter, hbefore⟩ := hfollow name hdict hnotUser
    rw [hafter, hbefore]
    congr 1
    by_cases hsetting : name ∈ settingKeys
    · obtain ⟨spec, hspec, rfl⟩ := List.mem_map.mp hsetting
      rw [hlayer.1 spec hspec, hlayer'.1 spec hspec, h.locale, h.locale', h.declared _ hnotProject]
    · rw [hlayer.2 name hsetting hdict, hlayer'.2 name hsetting hdict, h.initial]
  · intro name hdict hnotUser
    obtain ⟨hafter, hbefore⟩ := hfollow name hdict hnotUser
    rw [hafter, hbefore]
    apply isSome_foldl_follow
    by_cases hsetting : name ∈ settingKeys
    · obtain ⟨spec, hspec, rfl⟩ := List.mem_map.mp hsetting
      rw [hlayer.1 spec hspec, hlayer'.1 spec hspec]
      simp
    · rw [hlayer.2 name hsetting hdict, hlayer'.2 name hsetting hdict, h.initial]

/-! ### The environment -/

/-- What one row of `env_map` does to the attribute `name`, of which `held` is the value. -/
def followEnv (m : Machine) (name : String) (held : Option Value) (row : String × String × Converter) :
    Option Value :=
  match m.environ.get? row.1 with
  | none => held
  | some text => if row.2.1 = name then (row.2.2.apply m text).toOption else held

theorem get?_of_overrideFromEnv {rows : List (String × String × Converter)}
    (h : rows.foldlM (overrideFromEnv m) attributes = .ok config) (name : String) :
    config.get? name = rows.foldl (followEnv m name) (attributes.get? name) := by
  induction rows generalizing attributes with
  | nil =>
      cases h
      rfl
  | cons row rows ih =>
      rw [List.foldlM_cons] at h
      obtain ⟨next, hone, hfold⟩ := ok_of_bind h
      rw [ih hfold, List.foldl_cons]
      congr 1
      unfold followEnv
      cases htext : m.environ.get? row.1 with
      | none =>
          rw [overrideFromEnv_none htext] at hone
          cases hone
          rfl
      | some text =>
          obtain ⟨value, hvalue, rfl⟩ := overrideFromEnv_some htext hone
          rw [Dict.get?_set]
          dsimp only
          rw [hvalue]
          rfl

theorem isSome_foldl_followEnv {rows : List (String × String × Converter)} {held held' : Option Value}
    (h : held'.isSome = held.isSome) :
    (rows.foldl (followEnv m name) held').isSome = (rows.foldl (followEnv m name) held).isSome := by
  induction rows generalizing held held' with
  | nil => exact h
  | cons row rows ih =>
      refine ih ?_
      unfold followEnv
      split
      · exact h
      · split
        · rfl
        · exact h

/-- Whether the environment can be applied does not depend on the attributes. -/
theorem overrideFromEnv_ok {rows : List (String × String × Converter)}
    (h : rows.foldlM (overrideFromEnv m) attributes = .ok config) (attributes' : Attributes) :
    ∃ config', rows.foldlM (overrideFromEnv m) attributes' = .ok config' := by
  induction rows generalizing attributes attributes' with
  | nil => exact ⟨attributes', rfl⟩
  | cons row rows ih =>
      rw [List.foldlM_cons] at h ⊢
      obtain ⟨next, hone, hfold⟩ := ok_of_bind h
      cases htext : m.environ.get? row.1 with
      | none =>
          rw [overrideFromEnv_none htext]
          exact ih hfold attributes'
      | some text =>
          obtain ⟨value, hvalue, _⟩ := overrideFromEnv_some htext hone
          have hnext : overrideFromEnv m attributes' row = .ok (attributes'.set row.2.1 value) := by
            rw [overrideFromEnv, htext]
            show (row.2.2.apply m text >>= fun value => _) = _
            rw [hvalue]
            rfl
          rw [hnext]
          exact ih hfold _

theorem Alike.overrideFromEnv (h : Alike m m' byUser byProject) : overrideFromEnv m' = overrideFromEnv m := by
  funext attributes row
  unfold Settings.overrideFromEnv Converter.apply
  rw [h.environ, h.int]

theorem Alike.applyEnvOverrides (h : Alike m m' byUser byProject)
    (hhidden : attributes'.get? "_apply_env_overrides" = attributes.get? "_apply_env_overrides")
    (happly : applyEnvOverrides m attributes = .ok config) :
    ∃ config', applyEnvOverrides m' attributes' = .ok config' ∧
      (∀ name, attributes'.get? name = attributes.get? name → config'.get? name = config.get? name) ∧
      ∀ name, (attributes'.get? name).isSome = (attributes.get? name).isSome →
        (config'.get? name).isSome = (config.get? name).isSome := by
  unfold Settings.applyEnvOverrides at happly ⊢
  rw [hhidden, h.overrideFromEnv, h.environ]
  split at happly
  · cases happly
  next hvisible =>
  rw [if_neg hvisible]
  obtain ⟨overridden, hfold, happly⟩ := ok_of_bind happly
  obtain ⟨overridden', hfold'⟩ := overrideFromEnv_ok hfold attributes'
  rw [hfold']
  have hsame : ∀ name, attributes'.get? name = attributes.get? name →
      overridden'.get? name = overridden.get? name := by
    intro name hname
    rw [get?_of_overrideFromEnv hfold, get?_of_overrideFromEnv hfold', hname]
  have hpresent : ∀ name, (attributes'.get? name).isSome = (attributes.get? name).isSome →
      (overridden'.get? name).isSome = (overridden.get? name).isSome := by
    intro name hname
    rw [get?_of_overrideFromEnv hfold, get?_of_overrideFromEnv hfold', isSome_foldl_followEnv hname]
  split at happly
  · next hagent =>
    cases happly
    exact ⟨overridden', rfl, hsame, hpresent⟩
  · next agent hagent =>
    split at happly
    · next argv hsplit =>
      cases happly
      refine ⟨overridden'.set "acp_agent_command" (.list (argv.map .str)), rfl, ?_, ?_⟩
      · intro name hname
        rw [Dict.get?_set, Dict.get?_set, hsame name hname]
      · intro name hname
        rw [Dict.get?_set, Dict.get?_set]
        split
        · rfl
        · exact hpresent name hname
    · cases happly

/-- The runtime's object after other files were loaded. -/
theorem Alike.load (h : Alike m m' byUser byProject) (hobject : PlainKeys m) (hload : load m = .ok config) :
    ∃ config', load m' = .ok config' ∧
      (∀ name, name ≠ "__dict__" → name ∉ byUser → name ∉ byProject → config'.get? name = config.get? name) ∧
      ∀ name, name ≠ "__dict__" → name ∉ byUser → (config'.get? name).isSome = (config.get? name).isSome := by
  obtain ⟨attributes, hfiles, happly⟩ := ok_of_bind hload
  obtain ⟨attributes', hfiles', hsame, hpresent⟩ := h.loadFiles hobject hfiles
  have hmethod : "_apply_env_overrides" ∉ settingKeys := by decide
  obtain ⟨config', happly', hsameEnv, hpresentEnv⟩ := h.applyEnvOverrides
    (hsame _ (by decide) (fun hmem => hmethod (h.userKeys _ hmem).1) (fun hmem => hmethod (h.projectKeys _ hmem))) happly
  refine ⟨config', ?_, ?_, ?_⟩
  · rw [Settings.load, hfiles']
    exact happly'
  · intro name hdict hnotUser hnotProject
    exact hsameEnv name (hsame name hdict hnotUser hnotProject)
  · intro name hdict hnotUser
    exact hpresentEnv name (hpresent name hdict hnotUser)

/-! ### The views -/

/-- The view of a setting. -/
def viewOf (spec : SettingSpec) (shown : Value × ConfigSource) : SettingView where
  key := spec.key
  value := shown.1
  default := spec.default
  source := shown.2
  scope := spec.scope
  restartRequired := spec.restartRequired
  appliesTo := spec.appliesTo
  description := spec.description
  kind := spec.kind
  environmentVariable := environmentFields.get? spec.key

theorem settingView_eq (config : Attributes) (user : Dict Key Value) (project : Dict String (Value × ConfigSource))
    (spec : SettingSpec) :
    settingView m config user project spec = (do
      let loaded ← getAttribute m config spec.key
      (layered m user project spec loaded).map (viewOf spec)) := by
  unfold settingView
  cases getAttribute m config spec.key with
  | error exn => rfl
  | ok loaded =>
      show (layered m user project spec loaded >>= fun shown => _) = (layered m user project spec loaded).map _
      cases layered m user project spec loaded <;> rfl

theorem readYaml_iff {path : String} {data : Dict Key Value} :
    readYaml m path = .ok data ↔ (∀ exn, m.utf8 path ≠ some (.error exn)) ∧
      data = match m.utf8 path with
        | some (.ok (.dict data)) => data
        | _ => [] := by
  unfold readYaml
  rcases m.utf8 path with _ | exn | value
  · simp [eq_comm]
  · simp
  · cases value <;> simp [eq_comm]

theorem readOverride_iff (result : Dict String (Value × ConfigSource)) (item : String × Place) :
    (∃ next, readOverride m result item = .ok next) ↔ ∀ exn, m.utf8 item.2.relative ≠ some (.error exn) := by
  constructor
  · rintro ⟨next, h⟩
    obtain ⟨data, hdata, _⟩ := ok_of_bind h
    exact (readYaml_iff.mp hdata).1
  · intro h
    unfold readOverride
    rw [readYaml_iff.mpr ⟨h, rfl⟩]
    dsimp only [bind, Except.bind]
    split <;> exact ⟨_, rfl⟩

theorem foldlM_readOverride_iff (table : Dict String Place) (result : Dict String (Value × ConfigSource)) :
    (∃ last, table.foldlM (readOverride m) result = .ok last) ↔
      ∀ item ∈ table, ∀ exn, m.utf8 item.2.relative ≠ some (.error exn) := by
  induction table generalizing result with
  | nil => simp [pure, Except.pure]
  | cons item table ih =>
      rw [List.foldlM_cons, List.forall_mem_cons, ← readOverride_iff result]
      constructor
      · rintro ⟨last, h⟩
        obtain ⟨next, hone, hfold⟩ := ok_of_bind h
        exact ⟨⟨next, hone⟩, (ih next).mp ⟨last, hfold⟩⟩
      · rintro ⟨⟨next, hone⟩, hrest⟩
        obtain ⟨last, hfold⟩ := (ih next).mpr hrest
        exact ⟨last, by rw [hone]; exact hfold⟩

theorem foldlM_set_ok {α ν : Type} {f : α → Except ConfigError ν} {key : α → String} {xs : List α}
    (h : ∀ x ∈ xs, ∃ value, f x = .ok value) (values : Dict String ν) :
    ∃ filled, xs.foldlM (fun values x => do
      let value ← f x
      return values.set (key x) value) values = .ok filled := by
  induction xs generalizing values with
  | nil => exact ⟨values, rfl⟩
  | cons x xs ih =>
      obtain ⟨⟨value, hvalue⟩, hrest⟩ := List.forall_mem_cons.mp h
      obtain ⟨filled, hfilled⟩ := ih hrest (values.set (key x) value)
      refine ⟨filled, ?_⟩
      rw [List.foldlM_cons, hvalue]
      exact hfilled

theorem get?_without {keys : List String} {key : String} (h : key ∉ keys) (data : Dict Key Value) :
    Dict.get? (without keys data) (.str key) = data.get? (.str key) := by
  induction data with
  | nil => rfl
  | cons item data ih =>
      rw [without, List.filter_cons]
      split
      · rw [Dict.get?_cons, Dict.get?_cons]
        split
        · rfl
        · exact ih
      · next hout =>
        rw [Dict.get?_cons, if_neg]
        · exact ih
        · intro heq
          rw [heq, decide_eq_true_eq, not_not] at hout
          obtain ⟨other, hother, hsame⟩ := List.mem_map.mp hout
          cases hsame
          exact h hother

/-- What `load_settings` returns for each setting. -/
theorem loadSettings_ok {views : Dict String SettingView} (h : loadSettings m = .ok views) :
    ∃ config user project, load m = .ok config ∧ readYaml m userPath = .ok user ∧
      readProjectOverrides m = .ok project ∧
      (∀ spec ∈ settingSpecs, ∃ view, settingView m config user project spec = .ok view ∧
        views.get? spec.key = some view) ∧
      ∀ key, key ∉ settingKeys → views.get? key = none := by
  obtain ⟨config, hconfig, h⟩ := ok_of_bind h
  obtain ⟨user, huser, h⟩ := ok_of_bind h
  obtain ⟨project, hproject, h⟩ := ok_of_bind h
  have hdistinct : (settingSpecs.map SettingSpec.key).Nodup := by decide
  obtain ⟨hall, hnone⟩ := get?_foldlM_set hdistinct h
  exact ⟨config, user, project, hconfig, huser, hproject, hall, hnone⟩

theorem Alike.readYaml (h : Alike m m' byUser byProject) {path : String} {data : Dict Key Value}
    (hread : readYaml m path = .ok data) : ∃ data', readYaml m' path = .ok data' :=
  ⟨_, readYaml_iff.mpr ⟨fun exn herror => (readYaml_iff.mp hread).1 exn ((h.errors path exn).mp herror), rfl⟩⟩

theorem Alike.readProjectOverrides (h : Alike m m' byUser byProject) {project : Dict String (Value × ConfigSource)}
    (hread : readProjectOverrides m = .ok project) : ∃ project', readProjectOverrides m' = .ok project' := by
  refine (foldlM_readOverride_iff projectFiles []).mpr fun item hitem exn herror => ?_
  exact (foldlM_readOverride_iff projectFiles []).mp ⟨project, hread⟩ item hitem exn ((h.errors _ exn).mp herror)

theorem Alike.environmentText (h : Alike m m' byUser byProject) : environmentText m' = environmentText m := by
  funext key
  unfold Settings.environmentText
  rw [h.environ]

theorem Alike.convert (h : Alike m m' byUser byProject) : convert m' = convert m := by
  funext value kind
  unfold Settings.convert
  rw [h.int, h.float]

theorem getAttribute_iff : (∃ value, getAttribute m config name = .ok value) ↔
    ((config.get? name).isSome || ((plainDefaults m).get? name).isSome) = true := by
  unfold getAttribute
  cases config.get? name <;> cases (plainDefaults m).get? name <;> simp

theorem ne_dict_of_mem {spec : SettingSpec} (h : spec ∈ settingSpecs) : spec.key ≠ "__dict__" := by
  intro hdict
  exact dict_not_mem_settingKeys (hdict ▸ List.mem_map.mpr ⟨spec, h, rfl⟩)

section View

variable {config' : Attributes} {user user' : Dict Key Value} {project project' : Dict String (Value × ConfigSource)}
  {spec : SettingSpec}

/-- A setting that differs in no file is shown as before. -/
theorem Alike.settingView (h : Alike m m' byUser byProject) (huser : Settings.readYaml m userPath = .ok user)
    (huser' : Settings.readYaml m' userPath = .ok user')
    (hproject : Settings.readProjectOverrides m = .ok project)
    (hproject' : Settings.readProjectOverrides m' = .ok project') (hnotUser : spec.key ∉ byUser)
    (hnotProject : spec.key ∉ byProject) (hconfig : config'.get? spec.key = config.get? spec.key) :
    settingView m' config' user' project' spec = settingView m config user project spec := by
  have hfiles : fromFiles user' project' spec.key = fromFiles user project spec.key := by
    funext loaded
    unfold fromFiles
    rw [readYaml_user huser, readYaml_user huser', ← get?_without hnotUser (userFile m.utf8), ← h.user,
      get?_without hnotUser, get?_readProjectOverrides hproject, get?_readProjectOverrides hproject',
      h.declared _ hnotProject]
  have hlayered : layered m' user' project' spec = layered m user project spec := by
    funext loaded
    unfold layered
    rw [h.environmentText, h.convert, hfiles]
  have hattribute : getAttribute m' config' spec.key = getAttribute m config spec.key := by
    unfold getAttribute
    rw [hconfig, h.plainDefaults]
  rw [settingView_eq, settingView_eq, hlayered, hattribute]

/-- A setting that could be shown still can. -/
theorem Alike.settingView_ok (h : Alike m m' byUser byProject) {view : SettingView}
    (hview : Settings.settingView m config user project spec = .ok view)
    (hpresent : spec.key ∉ byUser → (config'.get? spec.key).isSome = (config.get? spec.key).isSome) :
    ∃ view', Settings.settingView m' config' user' project' spec = .ok view' := by
  rw [settingView_eq] at hview
  obtain ⟨loaded, hloaded, hview⟩ := ok_of_bind hview
  obtain ⟨value, hvalue⟩ : ∃ value, getAttribute m' config' spec.key = .ok value := by
    rw [getAttribute_iff, h.plainDefaults]
    by_cases hnotUser : spec.key ∈ byUser
    · rw [(h.userKeys _ hnotUser).2, Bool.or_true]
    · rw [hpresent hnotUser]
      exact getAttribute_iff.mp ⟨loaded, hloaded⟩
  obtain ⟨shown, hshown⟩ : ∃ shown, layered m' user' project' spec value = .ok shown := by
    unfold layered at hview ⊢
    rw [h.environmentText, h.convert]
    cases htext : Settings.environmentText m spec.key with
    | none => exact ⟨_, rfl⟩
    | some text =>
        rw [htext] at hview
        dsimp only at hview ⊢
        cases hconvert : Settings.convert m text spec.kind with
        | error exn =>
            rw [hconvert] at hview
            cases hview
        | ok converted => exact ⟨_, rfl⟩
  refine ⟨viewOf spec shown, ?_⟩
  rw [settingView_eq, hvalue]
  show (layered m' user' project' spec value).map _ = _
  rw [hshown]
  rfl

end View

/-- After other files were written the settings load again, and the others are as before. -/
theorem Alike.loadSettings {views : Dict String SettingView} (h : Alike m m' byUser byProject) (hobject : PlainKeys m)
    (hviews : loadSettings m = .ok views) : ∃ views', Settings.loadSettings m' = .ok views' ∧
      ∀ key, key ∉ byUser → key ∉ byProject → views'.get? key = views.get? key := by
  obtain ⟨config, user, project, hconfig, huser, hproject, hall, hnone⟩ := loadSettings_ok hviews
  obtain ⟨config', hconfig', hsame, hpresent⟩ := h.load hobject hconfig
  obtain ⟨user', huser'⟩ := h.readYaml huser
  obtain ⟨project', hproject'⟩ := h.readProjectOverrides hproject
  have hok : ∀ spec ∈ settingSpecs, ∃ view, Settings.settingView m' config' user' project' spec = .ok view := by
    intro spec hspec
    obtain ⟨view, hview, _⟩ := hall spec hspec
    exact h.settingView_ok hview (hpresent _ (ne_dict_of_mem hspec))
  obtain ⟨views', hviews'⟩ := foldlM_set_ok hok []
  have hload : Settings.loadSettings m' = .ok views' := by
    unfold Settings.loadSettings
    rw [hconfig']
    show (Settings.readYaml m' userPath >>= fun user => _) = _
    rw [huser']
    show (Settings.readProjectOverrides m' >>= fun project => _) = _
    rw [hproject']
    exact hviews'
  refine ⟨views', hload, fun key hnotUser hnotProject => ?_⟩
  have hdistinct : (settingSpecs.map SettingSpec.key).Nodup := by decide
  obtain ⟨hall', hnone'⟩ := get?_foldlM_set hdistinct hviews'
  by_cases hsetting : key ∈ settingKeys
  · obtain ⟨spec, hspec, rfl⟩ := List.mem_map.mp hsetting
    obtain ⟨view, hview, hget⟩ := hall spec hspec
    obtain ⟨view', hview', hget'⟩ := hall' spec hspec
    rw [h.settingView huser huser' hproject hproject' hnotUser hnotProject
      (hsame _ (ne_dict_of_mem hspec) hnotUser hnotProject), hview] at hview'
    cases hview'
    rw [hget, hget']
  · rw [hnone key hsetting, hnone' key hsetting]
    rfl

end Alike

end AtlasFlow.Reference.Settings
