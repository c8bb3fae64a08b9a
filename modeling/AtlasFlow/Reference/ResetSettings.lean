import AtlasFlow.Reference.ApplySettings

/-!
# Resetting settings

`reset_settings`: the keys are taken out of their files, one file at a time, and the settings are loaded again.
-/

namespace AtlasFlow.Reference.Settings

/-! ## The call -/

/-- `_remove_project_override`. -/
def removeProjectOverride (writer : Writer) (disk : Disk) (key : String) : Except ConfigError Disk :=
  match projectFiles.get? key with
  | none => .error (.raised (.keyError key))
  | some place => do
    let data ← readYaml disk.machine place.relative
    atomicYamlWrite writer disk place.relative (place.drop data)

/-- The loop over the keys, for the project. -/
def removeAll (writer : Writer) (disk : Disk) : List String → Disk × Except ConfigError Unit
  | [] => (disk, .ok ())
  | key :: rest =>
    match removeProjectOverride writer disk key with
    | .error exn => (disk, .error exn)
    | .ok disk => removeAll writer disk rest

/-- `for key in keys: data.pop(key, None)`. -/
def popAll (data : Dict Key Value) (keys : List String) : Dict Key Value :=
  keys.foldl (fun data key => data.pop (.str key)) data

/-- The user's file without the keys. -/
def removeUser (writer : Writer) (disk : Disk) (keys : List String) : Disk × Except ConfigError Unit :=
  match (do
    let data ← readYaml disk.machine userPath
    atomicYamlWrite writer disk userPath (popAll data keys)) with
  | .error exn => (disk, .error exn)
  | .ok disk => (disk, .ok ())

/-- What `reset_settings` does with keys of the scope, before the settings are loaded again. -/
def removeScope (writer : Writer) (m : Machine) (scope : ConfigScope) (keys : List String) :
    Disk × Except ConfigError Unit :=
  match scope with
  | .user => removeUser writer ⟨m, []⟩ keys
  | .project => removeAll writer ⟨m, []⟩ keys

/-- `reset_settings`. -/
def resetSettings (writer : Writer) (m : Machine) (keys : List String) (scope : ConfigScope) : Outcome :=
  match checkKeys "reset" scope keys with
  | .error exn => ⟨⟨m, []⟩, .error exn⟩
  | .ok () =>
    match removeScope writer m scope keys with
    | (disk, .error exn) => ⟨disk, .error exn⟩
    | (disk, .ok ()) => ⟨disk, loadSettings disk.machine⟩

/-! ## The writes of a call -/

/-- The mapping of a file of the project without the keys. -/
def dropped (keys : List String) (path : String) (data : Dict Key Value) : Dict Key Value :=
  keys.foldl (fun data key =>
    match projectFiles.get? key with
    | some place => if place.relative = path then place.drop data else data
    | none => data) data

/-- What is to be written for each key, after those of `done`, as far as its file can be read. -/
def projectRemovals (m : Machine) (done : List String) : List String →
    List (Except ConfigError (String × Dict Key Value))
  | [] => []
  | key :: rest =>
    (match projectFiles.get? key with
      | none => .error (.raised (.keyError key))
      | some place => (readYaml m place.relative).map fun data =>
        (place.relative, dropped (done ++ [key]) place.relative data)) :: projectRemovals m (done ++ [key]) rest

/-- What `reset_settings` is to write, from what the files hold before the call. -/
def removals (m : Machine) (scope : ConfigScope) (keys : List String) :
    List (Except ConfigError (String × Dict Key Value)) :=
  match scope with
  | .user => [(readYaml m userPath).map fun data => (userPath, popAll data keys)]
  | .project => projectRemovals m [] keys

section Removed

variable {writer : Writer} {m : Machine} {scope : ConfigScope} {key path : String} {keys done rest : List String}
  {data : Dict Key Value} {disk : Disk}

theorem get?_popAll (data : Dict Key Value) (keys : List String) (key : String) :
    (popAll data keys).get? (.str key) = if key ∈ keys then none else data.get? (.str key) := by
  unfold popAll
  induction keys generalizing data with
  | nil => rfl
  | cons first keys ih =>
      rw [List.foldl_cons, ih, Dict.get?_pop]
      by_cases hkey : key ∈ keys
      · rw [if_pos hkey, if_pos (List.mem_cons_of_mem _ hkey)]
      · rw [if_neg hkey]
        by_cases hfirst : first = key
        · rw [if_pos (congrArg Key.str hfirst), if_pos (by simp [hfirst])]
        · rw [if_neg fun heq => hfirst (Key.str.inj heq), if_neg (by simp [hkey, Ne.symm hfirst])]

theorem popAll_distinct (h : data.keys.Nodup) (keys : List String) : (popAll data keys).keys.Nodup := by
  unfold popAll
  induction keys generalizing data with
  | nil => exact h
  | cons first keys ih => exact ih (h.sublist (List.filter_sublist.map _))

theorem without_popAll (data : Dict Key Value) (keys : List String) :
    without keys (popAll data keys) = without keys data := by
  have hall : ∀ all : List String, (∀ key ∈ keys, key ∈ all) → without all (popAll data keys) = without all data := by
    intro all hkeys
    unfold popAll
    induction keys generalizing data with
    | nil => rfl
    | cons first keys ih =>
        obtain ⟨hfirst, hrest⟩ := List.forall_mem_cons.mp hkeys
        rw [List.foldl_cons, ih _ hrest, without, Dict.pop, List.filter_filter]
        refine List.filter_congr fun item hitem => ?_
        by_cases hitem : item.1 = .str first <;> simp [hitem, hfirst]
  exact hall keys fun _ hkey => hkey

theorem dropped_append (done : List String) (key path : String) (data : Dict Key Value) :
    dropped (done ++ [key]) path data = match projectFiles.get? key with
      | some place => if place.relative = path then place.drop (dropped done path data) else dropped done path data
      | none => dropped done path data := by
  rw [dropped, List.foldl_append]
  rfl

/-- Each key of the list is gone, and no other. -/
theorem held_dropped {place : Place} (hplace : projectFiles.get? key = some place) (keys : List String)
    (data : Dict Key Value) :
    place.held (dropped keys place.relative data) = if key ∈ keys then none else place.held data := by
  induction keys using List.reverseRecOn with
  | nil => rfl
  | append_singleton keys last ih =>
      rw [dropped_append]
      by_cases hlast : last = key
      · subst hlast
        rw [hplace]
        dsimp only
        rw [if_pos rfl, Place.held_drop, if_pos (by simp)]
      · have hmem : key ∈ keys ++ [last] ↔ key ∈ keys := by simp [Ne.symm hlast]
        simp only [hmem]
        rw [← ih]
        split
        · next other hother =>
          split
          · next hfile =>
            obtain ⟨hsection, hfield⟩ := place_apart hother hplace hfile.symm (Ne.symm hlast)
            exact Place.held_drop_other hsection hfield _
          · rfl
        · rfl

theorem dropped_distinct (h : data.keys.Nodup) (keys : List String) (path : String) :
    (dropped keys path data).keys.Nodup := by
  induction keys using List.reverseRecOn with
  | nil => exact h
  | append_singleton keys last ih =>
      rw [dropped_append]
      split
      · next place hplace =>
        split
        · exact place.drop_distinct ih
        · exact ih
      · exact ih

/-- The disk after the keys of `done` were removed, which are some of `keys`. -/
structure Removed (m : Machine) (keys done : List String) (disk : Disk) : Prop where
  reads : ∀ path, readYaml disk.machine path = (readYaml m path).map (dropped done path)
  alike : Alike m disk.machine [] keys
  length : disk.written.length = done.length

theorem removed_nil (hsame : m.locale = m.utf8) (hkeys : ∀ key ∈ keys, key ∈ settingKeys) :
    Removed m keys [] ⟨m, []⟩ where
  reads path := by cases h : readYaml m path <;> rfl
  alike := Alike.refl hsame (fun _ hkey => absurd hkey List.not_mem_nil) hkeys
  length := rfl

/-- One more key is removed. -/
theorem Removed.step (h : Removed m keys done disk) (hkey : key ∈ keys) {place : Place}
    (hplace : projectFiles.get? key = some place) (hread : readYaml m place.relative = .ok data) :
    Removed m keys (done ++ [key]) ⟨disk.machine.write place.relative (dropped (done ++ [key]) place.relative data),
      disk.written ++ [place.relative]⟩ := by
  have hdistinct := dropped_distinct (readYaml_distinct hread) (done ++ [key]) place.relative
  have hbefore : readYaml disk.machine place.relative = .ok (dropped done place.relative data) := by
    rw [h.reads, hread]
    rfl
  constructor
  · intro path
    rw [readYaml_write hdistinct, h.reads]
    by_cases hpath : path = place.relative
    · subst hpath
      rw [if_pos rfl, hread]
      rfl
    · rw [if_neg hpath]
      congr 1
      funext other
      rw [dropped_append, hplace]
      dsimp only
      rw [if_neg (Ne.symm hpath)]
  · refine h.alike.trans (alike_write h.alike.locale' ⟨hdistinct, _, hbefore, ?_, ?_⟩ ?_ h.alike.projectKeys)
    · exact fun huser => absurd huser (projectFiles_not_user _ (Dict.mem_of_get? hplace))
    · intro other place' hplace' hfile hother
      have hne : other ∉ [key] := by
        rw [List.mem_singleton]
        rintro rfl
        exact hother hkey
      rw [← hfile, held_dropped hplace', held_dropped hplace']
      simp [List.mem_append, hne]
    · exact fun _ hmem => absurd hmem List.not_mem_nil
  · rw [List.length_append, List.length_append, h.length]
    rfl

theorem removeProjectOverride_eq (h : Removed m keys done disk) (writer : Writer) {place : Place}
    (hplace : projectFiles.get? key = some place) :
    removeProjectOverride writer disk key = (do
      let data ← readYaml m place.relative
      (writer.attempt done.length place.relative (dropped (done ++ [key]) place.relative data)).map fun _ =>
        ⟨disk.machine.write place.relative (dropped (done ++ [key]) place.relative data),
          disk.written ++ [place.relative]⟩) := by
  rw [removeProjectOverride, hplace]
  dsimp only
  rw [h.reads]
  cases readYaml m place.relative with
  | error exn => rfl
  | ok data =>
      have hdata : dropped (done ++ [key]) place.relative data = place.drop (dropped done place.relative data) := by
        rw [dropped_append, hplace]
        exact if_pos rfl
      show atomicYamlWrite writer disk place.relative (place.drop (dropped done place.relative data)) = _
      rw [atomicYamlWrite_eq, h.length, ← hdata]
      rfl

theorem projectRemovals_cons {place : Place} (hplace : projectFiles.get? key = some place) :
    projectRemovals m done (key :: rest) = (readYaml m place.relative).map (fun data =>
      (place.relative, dropped (done ++ [key]) place.relative data)) :: projectRemovals m (done ++ [key]) rest := by
  rw [projectRemovals, hplace]

theorem removeAll_ok (h : Removed m keys done disk) (hrest : ∀ key ∈ rest, key ∈ keys)
    (hplaces : ∀ key ∈ rest, ∃ place, projectFiles.get? key = some place)
    (hnone : firstFailure writer done.length (projectRemovals m done rest) = none) :
    ∃ last, removeAll writer disk rest = (last, .ok ()) ∧ Removed m keys (done ++ rest) last := by
  induction rest generalizing done disk with
  | nil => exact ⟨disk, rfl, by rw [List.append_nil]; exact h⟩
  | cons key rest ih =>
      obtain ⟨hkey, hkeys⟩ := List.forall_mem_cons.mp hrest
      obtain ⟨⟨place, hplace⟩, hothers⟩ := List.forall_mem_cons.mp hplaces
      rw [projectRemovals_cons hplace] at hnone
      rw [removeAll, removeProjectOverride_eq h writer hplace]
      cases hread : readYaml m place.relative with
      | error exn =>
          rw [hread] at hnone
          cases hnone
      | ok data =>
          rw [hread] at hnone
          dsimp only [Except.map, bind, Except.bind] at hnone ⊢
          rw [firstFailure] at hnone
          cases hattempt : writer.attempt done.length place.relative
              (dropped (done ++ [key]) place.relative data) with
          | error exn =>
              rw [hattempt] at hnone
              cases hnone
          | ok written =>
              rw [hattempt] at hnone
              obtain ⟨last, hlast, hremoved⟩ := ih (h.step hkey hplace hread) hkeys hothers (by simpa using hnone)
              rw [List.append_assoc] at hremoved
              exact ⟨last, hlast, hremoved⟩

theorem removeAll_error {index : Nat} {exn : ConfigError} (h : Removed m keys done disk)
    (hrest : ∀ key ∈ rest, key ∈ keys) (hplaces : ∀ key ∈ rest, ∃ place, projectFiles.get? key = some place)
    (hsome : firstFailure writer done.length (projectRemovals m done rest) = some (index, exn)) :
    (removeAll writer disk rest).2 = .error exn ∧ (removeAll writer disk rest).1.written.length = index := by
  induction rest generalizing done disk with
  | nil => cases hsome
  | cons key rest ih =>
      obtain ⟨hkey, hkeys⟩ := List.forall_mem_cons.mp hrest
      obtain ⟨⟨place, hplace⟩, hothers⟩ := List.forall_mem_cons.mp hplaces
      rw [projectRemovals_cons hplace] at hsome
      rw [removeAll, removeProjectOverride_eq h writer hplace]
      cases hread : readYaml m place.relative with
      | error raised =>
          rw [hread] at hsome
          cases hsome
          exact ⟨rfl, h.length⟩
      | ok data =>
          rw [hread] at hsome
          dsimp only [Except.map, bind, Except.bind] at hsome ⊢
          rw [firstFailure] at hsome
          cases hattempt : writer.attempt done.length place.relative
              (dropped (done ++ [key]) place.relative data) with
          | error raised =>
              rw [hattempt] at hsome
              cases hsome
              exact ⟨rfl, h.length⟩
          | ok written =>
              rw [hattempt] at hsome
              exact ih (h.step hkey hplace hread) hkeys hothers (by simpa using hsome)

/-! ### Both scopes -/

/-- After the keys of a scope were removed. -/
structure Cleared (m : Machine) (scope : ConfigScope) (keys : List String) (disk : Disk) : Prop where
  alike : Alike m disk.machine (scope.keysIn .user keys) (scope.keysIn .project keys)
  values : ∀ key ∈ keys, scopeValue disk.machine.utf8 scope key = none
  written : disk.written.length = (removals m scope keys).length
  untouched : disk.written = [] → disk.machine = m

theorem mapping_of_error {exn : ConfigError} (h : readYaml m path = .error exn) : mapping m.utf8 path = [] := by
  unfold readYaml at h
  unfold mapping
  split at h <;> simp_all

theorem Removed.declared (h : Removed m keys done disk) (hkey : key ∈ done) : declared disk.machine.utf8 key = none := by
  rw [declared_eq]
  cases hplace : projectFiles.get? key with
  | none => rfl
  | some place =>
      show place.held (mapping disk.machine.utf8 place.relative) = none
      have hread := h.reads place.relative
      cases hbefore : readYaml m place.relative with
      | error exn =>
          rw [hbefore] at hread
          rw [mapping_of_error hread]
          exact place.none_of_empty
      | ok data =>
          rw [hbefore] at hread
          rw [← readYaml_mapping hread, held_dropped hplace, if_pos hkey]

theorem length_projectRemovals (m : Machine) (done rest : List String) :
    (projectRemovals m done rest).length = rest.length := by
  induction rest generalizing done with
  | nil => rfl
  | cons key rest ih => rw [projectRemovals, List.length_cons, ih, List.length_cons]

theorem resetSettings_eq (hallowed : ∀ key ∈ keys, key ∈ allowedKeys scope) :
    resetSettings writer m keys scope = match removeScope writer m scope keys with
      | (disk, .error exn) => ⟨disk, .error exn⟩
      | (disk, .ok ()) => ⟨disk, loadSettings disk.machine⟩ := by
  unfold resetSettings
  rw [(checkKeys_iff _).mpr hallowed]

theorem removeUser_eq (writer : Writer) (m : Machine) (keys : List String) :
    removeUser writer ⟨m, []⟩ keys = match (do
      let data ← readYaml m userPath
      (writer.attempt 0 userPath (popAll data keys)).map fun _ =>
        (⟨m.write userPath (popAll data keys), [userPath]⟩ : Disk)) with
      | .error exn => (⟨m, []⟩, .error exn)
      | .ok disk => (disk, .ok ()) := by
  unfold removeUser
  cases readYaml m userPath with
  | error exn => rfl
  | ok data =>
      dsimp only [bind, Except.bind]
      rw [atomicYamlWrite_eq]
      rfl

theorem removeScope_ok (hsame : m.locale = m.utf8) (hallowed : ∀ key ∈ keys, key ∈ allowedKeys scope)
    (hnone : firstFailure writer 0 (removals m scope keys) = none) :
    ∃ disk, removeScope writer m scope keys = (disk, .ok ()) ∧ Cleared m scope keys disk := by
  cases scope with
  | user =>
      rw [removeScope, removeUser_eq]
      rw [removals] at hnone
      cases hread : readYaml m userPath with
      | error exn =>
          rw [hread] at hnone
          cases hnone
      | ok data =>
          rw [hread] at hnone
          dsimp only [Except.map, bind, Except.bind] at hnone ⊢
          rw [firstFailure] at hnone
          cases hattempt : writer.attempt 0 userPath (popAll data keys) with
          | error exn =>
              rw [hattempt] at hnone
              cases hnone
          | ok written =>
              have hdistinct := popAll_distinct (readYaml_distinct hread) keys
              refine ⟨_, rfl, ?_, ?_, rfl, fun hnil => (by cases hnil)⟩
              · refine alike_write hsame ⟨hdistinct, data, hread, fun _ => without_popAll data keys, ?_⟩ ?_ ?_
                · intro key place hplace hfile
                  exact absurd hfile (projectFiles_not_user _ (Dict.mem_of_get? hplace))
                · exact fun key hkey =>
                    ⟨setting_of_allowed (hallowed key hkey), plainDefault_of_user m (hallowed key hkey)⟩
                · exact fun key hkey => absurd hkey List.not_mem_nil
              · intro key hkey
                show (mapping (m.utf8.write userPath (popAll data keys)) userPath).get? (.str key) = none
                rw [mapping_write _ hdistinct, if_pos rfl, get?_popAll, if_pos hkey]
  | project =>
      have hsettings : ∀ key ∈ keys, key ∈ settingKeys := fun key hkey => setting_of_allowed (hallowed key hkey)
      obtain ⟨disk, hdisk, hremoved⟩ := removeAll_ok (removed_nil hsame hsettings) (fun _ hkey => hkey)
        (fun key hkey => place_of_project key (hallowed key hkey)) hnone
      rw [List.nil_append] at hremoved
      refine ⟨disk, hdisk, hremoved.alike, fun key hkey => hremoved.declared hkey, ?_, ?_⟩
      · rw [hremoved.length]
        exact (length_projectRemovals m [] keys).symm
      · intro hnil
        have hkeys : keys = [] := by
          rw [← List.length_eq_zero_iff, ← hremoved.length, hnil]
          rfl
        subst hkeys
        cases hdisk
        rfl

theorem removeScope_error {index : Nat} {exn : ConfigError} (hsame : m.locale = m.utf8)
    (hallowed : ∀ key ∈ keys, key ∈ allowedKeys scope)
    (hsome : firstFailure writer 0 (removals m scope keys) = some (index, exn)) :
    (removeScope writer m scope keys).2 = .error exn ∧ (removeScope writer m scope keys).1.written.length = index := by
  cases scope with
  | user =>
      rw [removeScope, removeUser_eq]
      rw [removals] at hsome
      cases hread : readYaml m userPath with
      | error raised =>
          rw [hread] at hsome
          cases hsome
          exact ⟨rfl, rfl⟩
      | ok data =>
          rw [hread] at hsome
          dsimp only [Except.map, bind, Except.bind] at hsome ⊢
          rw [firstFailure] at hsome
          cases hattempt : writer.attempt 0 userPath (popAll data keys) with
          | error raised =>
              rw [hattempt] at hsome
              cases hsome
              exact ⟨rfl, rfl⟩
          | ok written =>
              rw [hattempt] at hsome
              cases hsome
  | project =>
      have hsettings : ∀ key ∈ keys, key ∈ settingKeys := fun key hkey => setting_of_allowed (hallowed key hkey)
      exact removeAll_error (removed_nil hsame hsettings) (fun _ hkey => hkey)
        (fun key hkey => place_of_project key (hallowed key hkey)) hsome

/-! ## What the call promises -/

/-- Exactly the keys are gone from the scope. -/
def RemovedExactly (m : Machine) (scope : ConfigScope) (keys : List String) (outcome : Outcome) : Prop :=
  (∃ views current, outcome.result = .ok views ∧ loadSettings m = .ok current ∧
    ∀ key, key ∉ keys → views.get? key = current.get? key) ∧
  ∀ layer key, scopeValue outcome.disk.machine.utf8 layer key =
    if layer = scope ∧ key ∈ keys then none else scopeValue m.utf8 layer key

/-- Nothing was written, and a `SettingsError` was raised. -/
def Refused (outcome : Outcome) : Prop :=
  (∃ message, outcome.result = .error (.settingsError message)) ∧ outcome.disk.written = []

/-- The keys are no settings of the scope, or the first file cannot be read or written, or all can and the settings
could be loaded before. -/
def CanReset (writer : Writer) (m : Machine) (scope : ConfigScope) (keys : List String) : Prop :=
  (∃ key ∈ keys, key ∉ allowedKeys scope) ∨
  (∃ message, firstFailure writer 0 (removals m scope keys) = some (0, .settingsError message)) ∨
  firstFailure writer 0 (removals m scope keys) = none ∧ ((∃ views, loadSettings m = .ok views) ∨
    removals m scope keys = [] ∧ ∃ message, loadSettings m = .error (.settingsError message))

theorem Cleared.scopeValue_eq (h : Cleared m scope keys disk) (layer : ConfigScope) (key : String) :
    scopeValue disk.machine.utf8 layer key =
      if layer = scope ∧ key ∈ keys then none else scopeValue m.utf8 layer key := by
  by_cases hlayer : layer = scope
  · subst hlayer
    by_cases hkey : key ∈ keys
    · rw [h.values key hkey, if_pos ⟨rfl, hkey⟩]
    · rw [if_neg fun hboth => hkey hboth.2]
      cases layer with
      | user =>
          show Dict.get? (userFile disk.machine.utf8) (.str key) = Dict.get? (userFile m.utf8) (.str key)
          rw [← get?_without hkey, ← get?_without hkey (userFile m.utf8)]
          exact congrArg (fun data => Dict.get? data (Key.str key)) h.alike.user
      | project => exact h.alike.declared key hkey
  · rw [if_neg fun hboth => hlayer hboth.1]
    cases layer with
    | user =>
        cases scope with
        | user => exact absurd rfl hlayer
        | project =>
            have huser : userFile disk.machine.utf8 = userFile m.utf8 := by
              simpa [without, ConfigScope.keysIn] using h.alike.user
            rw [scopeValue, huser]
            rfl
    | project =>
        cases scope with
        | user => exact h.alike.declared key List.not_mem_nil
        | project => exact absurd rfl hlayer

theorem not_mem_keysIn (h : key ∉ keys) (layer : ConfigScope) : key ∉ scope.keysIn layer keys :=
  fun hmem => h (keysIn_subset layer keys key hmem)

theorem Cleared.removedExactly (h : Cleared m scope keys disk) (hobject : PlainKeys m)
    {current : Dict String SettingView} (hload : loadSettings m = .ok current) :
    RemovedExactly m scope keys ⟨disk, loadSettings disk.machine⟩ := by
  obtain ⟨views, hviews, hothers⟩ := h.alike.loadSettings hobject hload
  refine ⟨⟨views, current, hviews, hload, fun key hkey => ?_⟩, h.scopeValue_eq⟩
  exact hothers key (not_mem_keysIn hkey _) (not_mem_keysIn hkey _)

/-- Where the settings could not be loaded before, they cannot be loaded after. -/
theorem Cleared.refused_iff (h : Cleared m scope keys disk) {exn : ConfigError}
    (hload : loadSettings m = .error exn) :
    RemovedExactly m scope keys ⟨disk, loadSettings disk.machine⟩ ∨ Refused ⟨disk, loadSettings disk.machine⟩ ↔
      removals m scope keys = [] ∧ ∃ message, exn = .settingsError message := by
  have hnil : disk.written = [] ↔ removals m scope keys = [] := by
    rw [← List.length_eq_zero_iff, h.written, List.length_eq_zero_iff]
  constructor
  · rintro (⟨⟨views, current, _, hcurrent, _⟩, _⟩ | ⟨⟨message, hmessage⟩, hwritten⟩)
    · cases hload.symm.trans hcurrent
    · have hsame : disk.machine = m := h.untouched hwritten
      refine ⟨hnil.mp hwritten, message, ?_⟩
      rw [show loadSettings disk.machine = .error exn by rw [hsame, hload]] at hmessage
      exact Except.error.inj hmessage
  · rintro ⟨hremovals, message, rfl⟩
    have hwritten := hnil.mpr hremovals
    exact Or.inr ⟨⟨message, by rw [h.untouched hwritten]; exact hload⟩, hwritten⟩

theorem resets_or_nothing_iff (writer : Writer) (scope : ConfigScope) (keys : List String) (hsame : m.locale = m.utf8)
    (hobject : PlainKeys m) :
    (RemovedExactly m scope keys (resetSettings writer m keys scope) ∨ Refused (resetSettings writer m keys scope)) ↔
      CanReset writer m scope keys := by
  by_cases hallowed : ∀ key ∈ keys, key ∈ allowedKeys scope
  case neg =>
    refine iff_of_true (Or.inr ?_) (Or.inl (by simpa using hallowed))
    unfold resetSettings
    cases hcheck : checkKeys "reset" scope keys with
    | ok done => exact absurd ((checkKeys_iff _).mp hcheck) hallowed
    | error exn =>
        obtain ⟨message, rfl⟩ := checkKeys_error hcheck
        exact ⟨⟨message, rfl⟩, rfl⟩
  have hno : ¬ ∃ key ∈ keys, key ∉ allowedKeys scope := by simpa using hallowed
  rw [resetSettings_eq hallowed, CanReset, or_iff_right hno]
  cases hfailure : firstFailure writer 0 (removals m scope keys) with
  | some failure =>
      obtain ⟨index, exn⟩ := failure
      obtain ⟨hresult, hlength⟩ := removeScope_error hsame hallowed hfailure
      rw [← Prod.mk.eta (p := removeScope writer m scope keys), hresult]
      constructor
      · rintro (⟨⟨views, current, hviews, _⟩, _⟩ | ⟨⟨message, hmessage⟩, hwritten⟩)
        · cases hviews
        · cases hmessage
          refine Or.inl ⟨message, ?_⟩
          rw [← hlength, show (removeScope writer m scope keys).1.written = [] from hwritten]
          rfl
      · rintro (⟨message, hsome⟩ | ⟨hnone, _⟩)
        · cases hsome
          exact Or.inr ⟨⟨message, rfl⟩, List.eq_nil_of_length_eq_zero hlength⟩
        · cases hnone
  | none =>
      obtain ⟨disk, hdisk, hcleared⟩ := removeScope_ok hsame hallowed hfailure
      rw [hdisk]
      dsimp only
      cases hload : loadSettings m with
      | ok current =>
          exact iff_of_true (Or.inl (hcleared.removedExactly hobject hload)) (Or.inr ⟨rfl, Or.inl ⟨current, rfl⟩⟩)
      | error exn =>
          rw [hcleared.refused_iff hload]
          simp

/-! ### After a patch was applied -/

variable {patch : Patch} {views : Dict String SettingView}

/-- After a call of `apply_settings` that returned. -/
structure Applied (m : Machine) (scope : ConfigScope) (patch : Patch) (after : Machine) : Prop where
  loaded : ∃ current, loadSettings m = .ok current
  allowed : ∀ key ∈ patch.keys, key ∈ allowedKeys scope
  alike : Alike m after (scope.keysIn .user patch.keys) (scope.keysIn .project patch.keys)

theorem applied_of_returned (hsame : m.locale = m.utf8) (hpatch : patch.keys.Nodup)
    (h : (applySettings writer m patch scope).result = .ok views) :
    Applied m scope patch (applySettings writer m patch scope).disk.machine := by
  cases hload : loadSettings m with
  | error exn =>
      rw [applySettings, hload] at h
      cases h
  | ok current =>
      by_cases hempty : patch = []
      · subst hempty
        have hnone : ∀ layer, scope.keysIn layer (Dict.keys ([] : Patch)) = [] := by
          intro layer
          unfold ConfigScope.keysIn
          split <;> rfl
        have hcall : applySettings writer m [] scope = ⟨⟨m, []⟩, .ok current⟩ := by
          rw [applySettings, hload]
          rfl
        refine ⟨⟨current, hload⟩, fun _ hkey => absurd hkey List.not_mem_nil, ?_⟩
        rw [hnone, hnone, hcall]
        exact Alike.refl hsame (fun _ hkey => absurd hkey List.not_mem_nil) fun _ hkey =>
          absurd hkey List.not_mem_nil
      cases hplan : planned m current patch scope with
      | error exn =>
          rw [applySettings, hload] at h
          dsimp only at h
          rw [if_neg (by simpa using hempty), hplan] at h
          cases h
      | ok files =>
          obtain ⟨hallowed, _, hdistinct, hrewrites, _⟩ := planned_ok hplan hpatch
          have hcall := applySettings_planned writer hload hempty hplan
          cases hfailure : firstFailure writer 0 (files.map .ok) with
          | some failure =>
              rw [hfailure] at hcall
              cases hcall.1.symm.trans h
          | none =>
              rw [hfailure] at hcall
              rw [hcall]
              exact ⟨⟨current, hload⟩, hallowed,
                alike_writeFiles hsame hdistinct hrewrites (keysIn_user hallowed m) (keysIn_project hallowed)⟩

/-- The settings are what they were before the patch. -/
def Undone (m : Machine) (outcome : Outcome) : Prop :=
  ∃ views current, outcome.result = .ok views ∧ loadSettings outcome.disk.machine = .ok views ∧
    loadSettings m = .ok current ∧ ∀ key, views.get? key = current.get? key

/-- A mapping without any of the keys. -/
theorem without_of_absent {data : Dict Key Value} (h : ∀ key ∈ keys, data.get? (.str key) = none) :
    without keys data = data := by
  refine List.filter_eq_self.mpr fun item hitem => ?_
  rw [decide_eq_true_eq]
  intro hmem
  obtain ⟨key, hkey, heq⟩ := List.mem_map.mp hmem
  exact Dict.get?_eq_none.mp (h key hkey) (heq ▸ List.mem_map_of_mem hitem)

/-- Files that differ in some keys of one scope, and hold none of them, do not differ. -/
theorem Alike.of_absent {after : Machine} (h : Alike m after (scope.keysIn .user keys) (scope.keysIn .project keys))
    (hbefore : ∀ key ∈ keys, scopeValue m.utf8 scope key = none)
    (hafter : ∀ key ∈ keys, scopeValue after.utf8 scope key = none) : Alike m after [] [] := by
  cases scope with
  | user =>
      refine h.narrow ?_ fun key hkey => absurd hkey List.not_mem_nil
      have huser : without keys (userFile after.utf8) = without keys (userFile m.utf8) := h.user
      rw [without_of_absent hafter, without_of_absent hbefore] at huser
      exact huser
  | project =>
      refine h.narrow (by simpa [without, ConfigScope.keysIn] using h.user) fun key hkey => ?_
      exact (hafter key hkey).trans (hbefore key hkey).symm

/-- A reset that writes all its files takes back a patch of keys that had no value. -/
theorem undone_iff (reset : Writer) (hobject : PlainKeys m) {after : Machine} (h : Applied m scope patch after)
    (hbefore : ∀ key ∈ patch.keys, scopeValue m.utf8 scope key = none) :
    Undone m (resetSettings reset after patch.keys scope) ↔
      firstFailure reset 0 (removals after scope patch.keys) = none := by
  rw [resetSettings_eq h.allowed]
  cases hfailure : firstFailure reset 0 (removals after scope patch.keys) with
  | some failure =>
      obtain ⟨index, exn⟩ := failure
      obtain ⟨hresult, _⟩ := removeScope_error h.alike.locale' h.allowed hfailure
      rw [← Prod.mk.eta (p := removeScope reset after scope patch.keys), hresult]
      refine iff_of_false ?_ (fun hnone => (by cases hnone))
      rintro ⟨views, current, hviews, _⟩
      cases hviews
  | none =>
      obtain ⟨disk, hdisk, hcleared⟩ := removeScope_ok h.alike.locale' h.allowed hfailure
      rw [hdisk]
      refine iff_of_true ?_ rfl
      obtain ⟨current, hload⟩ := h.loaded
      have halike : Alike m disk.machine [] [] := (h.alike.trans hcleared.alike).of_absent hbefore hcleared.values
      obtain ⟨views, hviews, hequal⟩ := halike.loadSettings hobject hload
      exact ⟨views, current, hviews, hviews, hload, fun key => hequal key List.not_mem_nil List.not_mem_nil⟩

/-- A reset takes back a patch unless a file cannot be written. On its own it removes its keys, or raises a
`SettingsError` before it writes, just where all its files can be written and the settings could be loaded, or the
first of them cannot be read or written. -/
theorem resetSettings_iff (scope : ConfigScope) (hsame : m.locale = m.utf8) (hobject : PlainKeys m) :
    (∀ (writer reset : Writer) (patch : Patch) views, patch.keys.Nodup →
      (applySettings writer m patch scope).result = .ok views →
      (∀ key ∈ patch.keys, scopeValue m.utf8 scope key = none) →
      (Undone m (resetSettings reset (applySettings writer m patch scope).disk.machine patch.keys scope) ↔
        firstFailure reset 0 (removals (applySettings writer m patch scope).disk.machine scope patch.keys) = none)) ∧
    ∀ writer keys, RemovedExactly m scope keys (resetSettings writer m keys scope) ∨
      Refused (resetSettings writer m keys scope) ↔ CanReset writer m scope keys :=
  ⟨fun _ reset _ _ hpatch hreturned hbefore =>
      undone_iff reset hobject (applied_of_returned hsame hpatch hreturned) hbefore,
    fun writer keys => resets_or_nothing_iff writer scope keys hsame hobject⟩

end Removed

/-! ### Settings that do not load -/

def brokenFiles : Files := fun path =>
  if path = ".ai/orchestration/mcp-servers.yaml" then some (.error (.yamlError "mapping values are not allowed here"))
  else none

/-- The file of the tool servers is no YAML. -/
def brokenServers : Machine :=
  have hnone : ∀ path items, brokenFiles path = some (.ok (.dict items)) → (Dict.keys items).Nodup := by
    intro path items hload
    unfold brokenFiles at hload
    split at hload <;> cases hload
  { eightWorkers with
    locale := brokenFiles
    utf8 := brokenFiles
    exists_same := fun _ => rfl
    no_files := fun h => Bool.noConfusion h
    locale_distinct := hnone
    utf8_distinct := hnone }

/-- `orchestrator.yaml` is written, and then the settings do not load. -/
theorem reset_fails_late :
    ¬ (RemovedExactly brokenServers .project ["worktree_strategy"]
        (resetSettings (diskOf 1) brokenServers ["worktree_strategy"] .project) ∨
      Refused (resetSettings (diskOf 1) brokenServers ["worktree_strategy"] .project)) := by
  have hallowed : ∀ key ∈ ["worktree_strategy"], key ∈ allowedKeys .project := by decide
  rw [resetSettings_eq hallowed]
  rintro (⟨⟨views, current, hviews, _⟩, _⟩ | ⟨_, hwritten⟩)
  · cases hviews
  · cases hwritten

def singleTree : Patch := [("worktree_strategy", .str "single")]

/-- A patch of one key is taken back, and a key that the project declares is removed. -/
theorem resetSettings_iff_single :
    Undone eightWorkers (resetSettings (diskOf 1)
      (applySettings (diskOf 1) eightWorkers singleTree .project).disk.machine singleTree.keys .project) ∧
    (RemovedExactly eightWorkers .project ["max_parallel_tasks"]
        (resetSettings (diskOf 1) eightWorkers ["max_parallel_tasks"] .project) ∨
      Refused (resetSettings (diskOf 1) eightWorkers ["max_parallel_tasks"] .project)) := by
  obtain ⟨hundone, hresets⟩ := resetSettings_iff (m := eightWorkers) .project rfl fun _ _ => rfl
  have hkeys : checkKeys "written" .project singleTree.keys = .ok () := (checkKeys_iff _).mpr (by decide)
  obtain ⟨current, hload⟩ : ∃ current, loadSettings eightWorkers = .ok current := ⟨_, rfl⟩
  obtain ⟨files, hplan, hwrites, hremovals⟩ : ∃ files, planned eightWorkers current singleTree .project = .ok files ∧
      firstFailure (diskOf 1) 0 (files.map .ok) = none ∧
      firstFailure (diskOf 1) 0 (removals (eightWorkers.writeFiles files) .project singleTree.keys) = none := by
    cases hload
    unfold planned
    rw [hkeys]
    exact ⟨_, rfl, rfl, rfl⟩
  have hcall := applySettings_planned (diskOf 1) hload (by decide) hplan
  rw [hwrites] at hcall
  obtain ⟨views, hviews, _⟩ := loadSettings_written rfl (fun _ _ => rfl) (by decide) hload hplan
  constructor
  · refine (hundone (diskOf 1) (diskOf 1) singleTree views (by decide) (by rw [hcall]; exact hviews) ?_).mpr ?_
    · intro key hkey
      cases List.mem_singleton.mp hkey
      rfl
    · rw [hcall]
      exact hremovals
  · exact (hresets _ _).mpr (Or.inr (Or.inr ⟨rfl, Or.inl ⟨current, hload⟩⟩))

end AtlasFlow.Reference.Settings
