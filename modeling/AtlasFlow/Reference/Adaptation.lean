import AtlasFlow.Data.Attempts
import AtlasFlow.Data.LinkedWrites
import AtlasFlow.Reference.Documents
import AtlasFlow.Reference.GoalFile

/-!
# Adapting a project

`atlas_flow.project.adaptation`: a scaffold of files is shown, and of those that are accepted one after the other is
written where nothing is. An adaptation should be all or nothing. A path that fails after another was written leaves
that one behind, so it is if and only if the checks refuse the request, or the first path fails and leaves nothing, or
no path fails (`allOrNothing_iff`). Whether a path fails shows before the call: where it leads, what is there and on the
way, and that no two accepted paths lead to the same place or one into the other.
-/

namespace AtlasFlow.Reference.Adaptation

open LinkedFiles LinkedFiles.FileSystem

inductive ProjectMode | atlasReady | atlasNeedsAdaptation | atlasIncompatible | external
  deriving DecidableEq, Repr

/-- Of a `ProjectInspection` what an adaptation reads. -/
structure ProjectInspection where
  mode : ProjectMode
  projectId : String
  projectName : String
  types : List String
  gitPresent : Bool
  deriving DecidableEq, Repr

structure AdaptationFile where
  path : String
  action : String
  content : String
  reason : String
  deriving DecidableEq, Repr

structure AdaptationPreview where
  ready : Bool
  files : List AdaptationFile
  conflicts : List String
  limitations : List String
  deriving DecidableEq, Repr

inductive AdaptationException
  | adaptationError (message : String)
  | osError (relative : String)
  deriving DecidableEq, Repr

/-- What Python knows of characters, and how PyYAML writes a list of texts in block style. -/
structure Library where
  isAlnum : Char → Bool
  lower : Char → List Char
  safeDump : List String → String

/-! ## The scaffold -/

section Scaffold

variable (lib : Library)

/-- `_safe_id`. -/
def safeId (value : String) : String :=
  let cleaned := value.toList.flatMap fun c => if lib.isAlnum c then lib.lower c else ['-']
  let parts := (cleaned.splitOn '-').filter (· ≠ [])
  if parts = [] then "external-project" else String.ofList (['-'].intercalate parts)

/-- `_indent`. -/
def indent (value : String) (spaces : Nat) : String :=
  String.ofList (['\n'].intercalate
    ((Documents.splitLines [] value.toList).map fun line => List.replicate spaces ' ' ++ line))

/-- `_scaffold`, the files with their paths. -/
def scaffoldFiles (inspection : ProjectInspection) : List (String × String) :=
  let projectId := safeId lib inspection.projectId
  let projectName := if inspection.projectName = "" then projectId else inspection.projectName
  let types := if inspection.types = [] then ["application"] else inspection.types
  let typeYaml := String.ofList (GoalFile.strip (lib.safeDump types).toList)
  [("PROJECT_MANIFEST.yaml",
      "framework:\n  name: project-atlas-framework\n  version: 0.1.0\n  entrypoint: ENTRYPOINT.md\n" ++
      "project:\n  id: " ++ projectId ++ "\n  name: " ++ projectName ++ "\n  type:\n" ++ indent typeYaml 4 ++
      "\n  status: in-development\ndocumentation:\n  atlas: docs/ATLAS.md\n  state: PROJECT_STATE.md\n"),
    ("ENTRYPOINT.md",
      "# " ++ projectName ++ "\n\nProject Atlas entrypoint. Review this scaffold before committing.\n"),
    ("PROJECT_STATE.md",
      "# Project State\n\nAtlas Flow adaptation scaffold; status requires owner review.\n"),
    ("docs/ATLAS.md", "# Atlas\n\nAdd the canonical navigation for this project.\n"),
    (".ai/context/project-profile.yaml",
      "project:\n  id: " ++ projectId ++ "\n  type:\n" ++ indent typeYaml 4 ++
      "\n  languages: []\n  technologies: []\n  features: []\n  risk:\n    security: unknown\n"),
    (".ai/goals/README.md",
      "# Goals\n\nDefine Goals here after the project context and decisions are reviewed.\n"),
    (".ai/agents/manifest.yaml",
      "agents:\n  - goal-planner\n  - core-implementer\n  - reviewer\n" ++
      "selection_basis:\n  - project type\n  - risk\n"),
    (".ai/skills/manifest.yaml", "skills:\n  - goal-contracts\n"),
    (".ai/recipes/manifest.yaml", "recipes:\n  - implement-goal\n"),
    (".ai/orchestration/model-policy.yaml",
      "version: 1\ndevelopment_harness: command-code\nruntime_discovery:\n  command: cmd --list-models\nroster: []\n" ++
      "principles:\n  - runtime availability beats static assumptions\n"),
    (".ai/orchestration/autonomy-policy.yaml",
      "default: agentic\nmodes:\n  controlled:\n    description: human approval at meaningful gates\n" ++
      "  agentic:\n    description: bounded execution with escalation\nproject_policy:\n  current: agentic\n"),
    (".ai/orchestration/orchestrator.yaml",
      "development:\n  harness: command-code\nproduct:\n  runtime: atlas-flow\n" ++
      "protocols:\n  agent: acp\n  ui: ag-ui\n" ++
      "execution:\n  isolate_mutating_tasks: true\n  worktree_strategy: per-task\n"),
    (".ai/orchestration/fallbacks.yaml",
      "availability: route to the next reachable model\nquality:\n  max_cross_model_attempts: 2\n" ++
      "confidence:\n  escalate_below: 0.5\nhuman_escalation:\n  - unresolvable conflict\n")]

def scaffold (inspection : ProjectInspection) : List AdaptationFile :=
  (scaffoldFiles lib inspection).map fun file =>
    { path := file.1, action := "create", content := file.2, reason := "Required Project Atlas scaffold file." }

end Scaffold

/-! ## Preview -/

/-- Where the relative path leads, from the project's directory; `root` is the way there. -/
def segmentsOf (root : List Segment) (relative : String) : List Segment := root ++ relative.toList.splitOn '/'

/-- `(root / relative).exists()`. -/
def pathExists (fs : FileSystem String) (root : List Segment) (relative : String) : Bool :=
  ((fs.leads true [] (segmentsOf root relative)).bind fs.item).isSome

/-- `preview_adaptation`. -/
def previewAdaptation (lib : Library) (fs : FileSystem String) (root : List Segment) (inspection : ProjectInspection) :
    AdaptationPreview :=
  if inspection.mode = .atlasIncompatible then
    { ready := false
      files := []
      conflicts := []
      limitations := ["An incompatible framework requires a reviewed migration, not a scaffold."] }
  else
    let files := scaffold lib inspection
    let conflicts := (files.map AdaptationFile.path).filter (pathExists fs root)
    let planned := files.map fun item => { item with action := if item.path ∈ conflicts then "conflict" else "create" }
    { ready := planned.any (·.action = "create")
      files := planned
      conflicts
      limitations :=
        ["No Goal is generated or marked locked/done.",
          "No command from the project is executed during adaptation.",
          "Review generated files and commit them through Git after applying."] ++
        if inspection.gitPresent then []
        else ["Execution remains unavailable until the project has a Git repository."] }

/-! ## Application -/

/-- What becomes of a write to a new file: it is done, or nothing is made, or it fails with a part of it written. -/
inductive Written | done | refused | broken (left : String)
  deriving DecidableEq, Repr

/-- What the operating system refuses, and where it fails. -/
structure OperatingSystem where
  refusesDirectory : Location → Bool
  write : Location → Written

section Apply

variable (os : OperatingSystem) (root : List Segment) (planned : Dict String AdaptationFile)

/-- What happens with one accepted path. -/
def writeOne (relative : String) (fs : FileSystem String) : Except AdaptationException Unit × FileSystem String :=
  match planned.get? relative, fs.leads false [] (segmentsOf root relative), fs.leads false [] root with
  | some item, some target, some directory =>
    if ¬ directory <+: target then
      (.error (.adaptationError s!"Adaptation path escapes project root: {relative}"), fs)
    else if (fs.item target).isSome then
      (.error (.adaptationError s!"Refusing to overwrite existing file: {relative}"), fs)
    else
      match fs.mkdir os.refusesDirectory target.dropLast with
      | (false, fs) => (.error (.osError relative), fs)
      | (true, fs) =>
        if h : fs.Free target then
          match os.write target with
          | .done => (.ok (), fs.put target (.file item.content) h)
          | .refused => (.error (.osError relative), fs)
          | .broken left => (.error (.osError relative), fs.put target (.file left) h)
        else (.error (.osError relative), fs)
  | _, _, _ => (.error (.osError relative), fs)

/-- The loop over the accepted paths. -/
def writeAccepted : List String → FileSystem String → Except AdaptationException (List String) × FileSystem String
  | [], fs => (.ok [], fs)
  | relative :: rest, fs =>
    match writeOne os root planned relative fs with
    | (.error e, fs) => (.error e, fs)
    | (.ok (), fs) =>
      match writeAccepted rest fs with
      | (.error e, fs) => (.error e, fs)
      | (.ok written, fs) => (.ok (relative :: written), fs)

end Apply

/-- `planned`. -/
def plannedFiles (preview : AdaptationPreview) : Dict String AdaptationFile :=
  Dict.ofItems (preview.files.map fun item => (item.path, item))

/-- `sorted(set(accepted_paths) - set(planned))`. -/
def unknownPaths (planned : Dict String AdaptationFile) (accepted : List String) : List String :=
  (accepted.filter (· ∉ planned.keys)).dedup.mergeSort fun a b => decide (a ≤ b)

/-- `apply_adaptation`. -/
def applyAdaptation (lib : Library) (os : OperatingSystem) (fs : FileSystem String) (root : List Segment)
    (inspection : ProjectInspection) (accepted : List String) :
    Except AdaptationException (List String) × FileSystem String :=
  let planned := plannedFiles (previewAdaptation lib fs root inspection)
  let unknown := unknownPaths planned accepted
  if inspection.mode = .atlasIncompatible then
    (.error (.adaptationError "An incompatible framework requires a reviewed migration before applying."), fs)
  else if unknown ≠ [] then
    let paths := ", ".intercalate unknown
    (.error (.adaptationError s!"Cannot apply paths not present in the preview: {paths}"), fs)
  else writeAccepted os root planned accepted fs

/-! ## What one path does -/

section One

variable (os : OperatingSystem) (root : List Segment)

/-- The path leads into the project to a place where there is nothing, and the directories above are there or can be
made. -/
structure Reaches (fs : FileSystem String) (relative : String) (loc : Location) : Prop where
  leads : fs.leads false [] (segmentsOf root relative) = some loc
  inside : ∃ directory, fs.leads false [] root = some directory ∧ directory <+: loc
  vacant : fs.item loc = none
  passes : ∀ l, l <+: loc.dropLast → CanPass os.refusesDirectory fs l
  names : ∀ name ∈ loc, IsName name

theorem Reaches.unique {fs : FileSystem String} {relative : String} {loc loc' : Location}
    (h : Reaches os root fs relative loc) (h' : Reaches os root fs relative loc') : loc = loc' :=
  Option.some.inj (h.leads.symm.trans h'.leads)

/-- A file was put at a place, the directories above it were made, and nothing else changed. -/
structure Placed (fs fs' : FileSystem String) (loc : Location) (text : String) : Prop where
  file : fs'.item loc = some (.file text)
  above : ∀ l, l <+: loc.dropLast → fs'.isDirectory l = true
  others : ∀ l, l ≠ loc → fs'.item l = fs.item l ∨
    fs.item l = none ∧ fs'.item l = some (.directory true) ∧ CanPass os.refusesDirectory fs l ∧ l <+: loc

variable {os root} {planned : Dict String AdaptationFile} {relative : String} {fs : FileSystem String}

theorem Placed.of_put {fs' : FileSystem String} {target : Location} (htarget : target ≠ [])
    (hwidened : Widened os.refusesDirectory fs fs' target.dropLast) (hparent : fs'.isDirectory target.dropLast = true)
    (hfree : fs'.Free target) (text : String) : Placed os fs (fs'.put target (.file text) hfree) target text := by
  refine ⟨by rw [item_put, if_pos rfl], fun l hl => ?_, fun l hl => ?_⟩
  · rw [isDirectory_put_of_ne hfree (ne_of_prefix_dropLast htarget hl)]
    exact isDirectory_of_prefix hl hparent
  · rw [item_put, if_neg hl]
    refine (hwidened l).imp_right fun hadded => ⟨hadded.1, hadded.2.1, hadded.2.2.1, ?_⟩
    exact hadded.2.2.2.trans (List.dropLast_prefix target)

/-- **One path**: a file is written, or one is left that is broken, or no file is made. -/
theorem writeOne_cases (os : OperatingSystem) (root : List Segment) (fs : FileSystem String) {item : AdaptationFile}
    (hitem : planned.get? relative = some item) :
    (∃ loc, Reaches os root fs relative loc ∧ os.write loc = .done ∧
      (writeOne os root planned relative fs).1 = .ok () ∧
      Placed os fs (writeOne os root planned relative fs).2 loc item.content) ∨
    (∃ loc left e, Reaches os root fs relative loc ∧ os.write loc = .broken left ∧
      (writeOne os root planned relative fs).1 = .error e ∧
      Placed os fs (writeOne os root planned relative fs).2 loc left) ∨
    ((∀ loc, Reaches os root fs relative loc → os.write loc = .refused) ∧
      (∃ e, (writeOne os root planned relative fs).1 = .error e) ∧
      ∃ loc, Widened os.refusesDirectory fs (writeOne os root planned relative fs).2 loc) := by
  unfold writeOne
  rw [hitem]
  have hsame : ∃ loc, Widened os.refusesDirectory fs fs loc := ⟨[], fun l => .inl rfl⟩
  split
  case h_2 hnone =>
    refine .inr (.inr ⟨fun loc h => ?_, ⟨_, rfl⟩, hsame⟩)
    obtain ⟨directory, hdirectory, _⟩ := h.inside
    exact absurd h.leads (hnone item loc directory rfl · hdirectory)
  case h_1 item' target directory hitem' htarget hdirectory =>
    cases hitem'
    split
    · next houtside =>
        refine .inr (.inr ⟨fun loc h => ?_, ⟨_, rfl⟩, hsame⟩)
        obtain ⟨directory', hdirectory', hinside⟩ := h.inside
        cases hdirectory.symm.trans hdirectory'
        cases htarget.symm.trans h.leads
        exact absurd hinside houtside
    · next hinside =>
        split
        · next hthere =>
            refine .inr (.inr ⟨fun loc h => ?_, ⟨_, rfl⟩, hsame⟩)
            cases htarget.symm.trans h.leads
            rw [h.vacant] at hthere
            cases hthere
        · next hvacant =>
            obtain ⟨hiff, hwidened, hdone⟩ := mkdir_spec os.refusesDirectory fs target.dropLast
            split
            · next fs' hmkdir =>
                rw [hmkdir] at hiff hwidened
                refine .inr (.inr ⟨fun loc h => ?_, ⟨_, rfl⟩, ⟨_, hwidened⟩⟩)
                cases htarget.symm.trans h.leads
                exact absurd (hiff.mpr h.passes) Bool.false_ne_true
            · next fs' hmkdir =>
                rw [hmkdir] at hiff hwidened hdone
                have hvacant' : fs.item target = none := Option.not_isSome_iff_eq_none.mp hvacant
                have htarget' : target ≠ [] := by
                  rintro rfl
                  rw [item_root] at hvacant'
                  cases hvacant'
                have hstill : fs'.item target = none := by
                  rcases hwidened target with hsame' | ⟨_, _, _, hprefix⟩
                  · rw [hsame', hvacant']
                  · exact absurd rfl (ne_of_prefix_dropLast htarget' hprefix)
                split
                · next hfree =>
                    have hreaches : Reaches os root fs relative target :=
                      ⟨htarget, ⟨directory, hdirectory, not_not.mp hinside⟩, hvacant', hiff.mp rfl, hfree.names⟩
                    have hplaced := Placed.of_put htarget' hwidened (hdone rfl) hfree
                    split
                    · next hwrite => exact .inl ⟨target, hreaches, hwrite, rfl, hplaced _⟩
                    · next hwrite =>
                        refine .inr (.inr ⟨fun loc h => ?_, ⟨_, rfl⟩, ⟨_, hwidened⟩⟩)
                        rw [h.unique os root hreaches, hwrite]
                    · next left hwrite => exact .inr (.inl ⟨target, left, _, hreaches, hwrite, rfl, hplaced left⟩)
                · next hblocked =>
                    refine .inr (.inr ⟨fun loc h => ?_, ⟨_, rfl⟩, ⟨_, hwidened⟩⟩)
                    cases htarget.symm.trans h.leads
                    exact absurd ⟨hstill, hdone rfl, h.names⟩ hblocked

end One

/-! ## What several paths do -/

/-- Neither place is the other, or on the way to it. -/
def Apart (l l' : Location) : Prop := ¬ l <+: l' ∧ ¬ l' <+: l

section Several

variable (os : OperatingSystem) (root : List Segment)

/-- Since `fs₀` some files were made, with the directories above them, and nothing else changed. -/
structure Grew (fs₀ fs : FileSystem String) (made : List (Location × String)) : Prop where
  files : ∀ m ∈ made, fs₀.item m.1 = none ∧ fs.item m.1 = some (.file m.2)
  above : ∀ m ∈ made, ∀ l, l <+: m.1.dropLast → fs.isDirectory l = true
  others : ∀ l, l ∉ made.map Prod.fst → fs.item l = fs₀.item l ∨
    fs₀.item l = none ∧ fs.item l = some (.directory true) ∧ CanPass os.refusesDirectory fs₀ l ∧
      ∃ m ∈ made, l <+: m.1

variable {os root} {fs₀ fs fs' : FileSystem String} {made : List (Location × String)} {relative : String}
  {loc : Location} {text : String}

theorem Grew.refl (os : OperatingSystem) (fs : FileSystem String) : Grew os fs fs [] :=
  ⟨fun _ hm => absurd hm List.not_mem_nil, fun _ hm => absurd hm List.not_mem_nil, fun _ _ => .inl rfl⟩

theorem Grew.sameLinks (h : Grew os fs₀ fs made) : SameLinks fs₀ fs := by
  intro l target
  by_cases hl : l ∈ made.map Prod.fst
  · obtain ⟨m, hm, rfl⟩ := List.mem_map.mp hl
    rw [(h.files m hm).1, (h.files m hm).2]
    exact iff_of_false (fun h => by cases h) (fun h => by cases h)
  · rcases h.others l hl with hsame | ⟨hnone, hdirectory, _⟩
    · rw [hsame]
    · rw [hnone, hdirectory]
      exact iff_of_false (fun h => by cases h) (fun h => by cases h)

/-- What was there is there. -/
theorem Grew.item_eq (h : Grew os fs₀ fs made) {l : Location} {item : Item String} (hl : fs₀.item l = some item) :
    fs.item l = some item := by
  have hmade : l ∉ made.map Prod.fst := fun hmem => by
    obtain ⟨m, hm, rfl⟩ := List.mem_map.mp hmem
    rw [(h.files m hm).1] at hl
    cases hl
  rcases h.others l hmade with hsame | ⟨hnone, _⟩
  · rw [hsame, hl]
  · rw [hnone] at hl
    cases hl

/-- What can be passed is what could be passed, but for the files made meanwhile. -/
theorem Grew.canPass_iff (h : Grew os fs₀ fs made) (l : Location) :
    CanPass os.refusesDirectory fs l ↔ CanPass os.refusesDirectory fs₀ l ∧ l ∉ made.map Prod.fst := by
  by_cases hmade : l ∈ made.map Prod.fst
  · refine iff_of_false (fun hpass => ?_) fun hpass => hpass.2 hmade
    obtain ⟨m, hm, rfl⟩ := List.mem_map.mp hmade
    have hfile := (h.files m hm).2
    rcases hpass with hdirectory | ⟨hnone, _⟩
    · obtain ⟨isReadable, hitem⟩ := isDirectory_iff.mp hdirectory
      rw [hfile] at hitem
      cases hitem
    · rw [hfile] at hnone
      cases hnone
  · rw [and_iff_left hmade]
    rcases h.others l hmade with hsame | ⟨hnone, hdirectory, hpass, _⟩
    · rw [CanPass, CanPass, isDirectory, isDirectory, hsame]
    · refine iff_of_true (.inl ?_) hpass
      rw [isDirectory, hdirectory]
      rfl

/-- **A path reaches a place later as it did at first**, if the place is apart from the files made meanwhile. -/
theorem Grew.reaches_iff (h : Grew os fs₀ fs made) :
    Reaches os root fs relative loc ↔ Reaches os root fs₀ relative loc ∧ ∀ m ∈ made, Apart m.1 loc := by
  have hleads : ∀ segments, fs.leads false [] segments = fs₀.leads false [] segments := leads_congr h.sameLinks []
  constructor
  · intro hreaches
    have hvacant : fs₀.item loc = none := by
      cases hitem : fs₀.item loc with
      | none => rfl
      | some item =>
          have hthere := h.item_eq hitem
          rw [hreaches.vacant] at hthere
          cases hthere
    refine ⟨⟨?_, ?_, hvacant, fun l hl => ((h.canPass_iff l).mp (hreaches.passes l hl)).1, hreaches.names⟩,
      fun m hm => ⟨fun hprefix => ?_, fun hprefix => ?_⟩⟩
    · rw [← hleads]
      exact hreaches.leads
    · obtain ⟨directory, hdirectory, hinside⟩ := hreaches.inside
      exact ⟨directory, by rw [← hleads]; exact hdirectory, hinside⟩
    · -- the file made would be the place itself, or on the way to it
      by_cases heq : m.1 = loc
      · rw [← heq] at hreaches
        have hfile := (h.files m hm).2
        rw [hreaches.vacant] at hfile
        cases hfile
      · have habove := prefix_dropLast hprefix heq
        exact ((h.canPass_iff m.1).mp (hreaches.passes m.1 habove)).2 (List.mem_map_of_mem hm)
    · have hsome : fs.item loc ≠ none := by
        by_cases heq : loc = m.1
        · rw [heq, (h.files m hm).2]
          exact Option.some_ne_none _
        · obtain ⟨isReadable, hitem⟩ := isDirectory_iff.mp (h.above m hm loc (prefix_dropLast hprefix heq))
          rw [hitem]
          exact Option.some_ne_none _
      exact hsome hreaches.vacant
  · rintro ⟨hreaches, hapart⟩
    have hmade : loc ∉ made.map Prod.fst := fun hmem => by
      obtain ⟨m, hm, rfl⟩ := List.mem_map.mp hmem
      exact (hapart m hm).1 (List.prefix_refl _)
    refine ⟨?_, ?_, ?_, fun l hl => (h.canPass_iff l).mpr ⟨hreaches.passes l hl, fun hmem => ?_⟩, hreaches.names⟩
    · rw [hleads]
      exact hreaches.leads
    · obtain ⟨directory, hdirectory, hinside⟩ := hreaches.inside
      exact ⟨directory, by rw [hleads]; exact hdirectory, hinside⟩
    · rcases h.others loc hmade with hsame | ⟨_, _, _, m, hm, hprefix⟩
      · rw [hsame]
        exact hreaches.vacant
      · exact absurd hprefix (hapart m hm).2
    · obtain ⟨m, hm, rfl⟩ := List.mem_map.mp hmem
      exact (hapart m hm).1 (hl.trans (List.dropLast_prefix loc))

/-- One file more. -/
theorem Grew.snoc (h : Grew os fs₀ fs made) (hvacant : fs₀.item loc = none) (hplaced : Placed os fs fs' loc text)
    (hapart : ∀ m ∈ made, Apart m.1 loc) : Grew os fs₀ fs' (made ++ [(loc, text)]) := by
  have hother : ∀ l, l ≠ loc → ∀ item, fs.item l = some item → fs'.item l = some item := by
    intro l hl item hitem
    rcases hplaced.others l hl with hsame | ⟨hnone, _⟩
    · rw [hsame, hitem]
    · rw [hnone] at hitem
      cases hitem
  refine ⟨fun m hm => ?_, fun m hm l hl => ?_, fun l hl => ?_⟩
  · rcases List.mem_append.mp hm with hm | hm
    · have hne : m.1 ≠ loc := fun heq => (hapart m hm).1 (heq ▸ List.prefix_refl _)
      exact ⟨(h.files m hm).1, hother _ hne _ (h.files m hm).2⟩
    · cases List.mem_singleton.mp hm
      exact ⟨hvacant, hplaced.file⟩
  · rcases List.mem_append.mp hm with hm | hm
    · have hne : l ≠ loc := fun heq => (hapart m hm).2 (heq ▸ hl.trans (List.dropLast_prefix _))
      obtain ⟨isReadable, hitem⟩ := isDirectory_iff.mp (h.above m hm l hl)
      exact isDirectory_iff.mpr ⟨isReadable, hother l hne _ hitem⟩
    · cases List.mem_singleton.mp hm
      exact hplaced.above l hl
  · rw [List.map_append, List.mem_append, not_or] at hl
    obtain ⟨hmade, hlast⟩ := hl
    have hne : l ≠ loc := fun heq => hlast (by rw [heq]; exact List.mem_singleton_self _)
    have hmore : (∃ m ∈ made, l <+: m.1) → ∃ m ∈ made ++ [(loc, text)], l <+: m.1 := by
      rintro ⟨m, hm, hprefix⟩
      exact ⟨m, List.mem_append_left _ hm, hprefix⟩
    rcases hplaced.others l hne with hsame | ⟨hnone, hdirectory, hpass, hprefix⟩
    · rw [hsame]
      refine (h.others l hmade).imp_right fun hadded => ?_
      exact ⟨hadded.1, hadded.2.1, hadded.2.2.1, hmore hadded.2.2.2⟩
    · refine .inr ⟨?_, hdirectory, ((h.canPass_iff l).mp hpass).1, (loc, text), by simp, hprefix⟩
      cases hitem : fs₀.item l with
      | none => rfl
      | some item =>
          rw [h.item_eq hitem] at hnone
          cases hnone

/-- No file that was made is lost, whatever becomes of a path. -/
theorem Grew.kept (h : Grew os fs₀ fs made) (hitems : ∀ l item, fs.item l = some item → fs'.item l = some item) :
    ∀ m ∈ made, fs'.item m.1 = some (.file m.2) :=
  fun m hm => hitems _ _ (h.files m hm).2

theorem Placed.item_eq (h : Placed os fs fs' loc text) (hvacant : fs.item loc = none) :
    ∀ l item, fs.item l = some item → fs'.item l = some item := by
  intro l item hitem
  have hne : l ≠ loc := by
    rintro rfl
    rw [hvacant] at hitem
    cases hitem
  rcases h.others l hne with hsame | ⟨hnone, _⟩
  · rw [hsame, hitem]
  · rw [hnone] at hitem
    cases hitem

variable (os root) in
/-- The paths lead to places apart from those where files were made. -/
structure Fits (fs₀ : FileSystem String) (made : List (Location × String)) (paths : List String) : Prop where
  reach : ∀ relative ∈ paths, ∃ loc, Reaches os root fs₀ relative loc ∧ os.write loc = .done ∧ ∀ m ∈ made, Apart m.1 loc
  apart : paths.Pairwise fun relative other => ∀ l l', fs₀.leads false [] (segmentsOf root relative) = some l →
    fs₀.leads false [] (segmentsOf root other) = some l' → Apart l l'

theorem fits_cons (text : String) {rest : List String} (hreaches : Reaches os root fs₀ relative loc)
    (hwrite : os.write loc = .done) (hapart : ∀ m ∈ made, Apart m.1 loc) :
    Fits os root fs₀ made (relative :: rest) ↔ Fits os root fs₀ (made ++ [(loc, text)]) rest := by
  constructor
  · rintro ⟨hreach, hpairs⟩
    obtain ⟨hfirst, hrest⟩ := List.pairwise_cons.mp hpairs
    refine ⟨fun other hother => ?_, hrest⟩
    obtain ⟨l, hl, hdone, hmade⟩ := hreach other (List.mem_cons_of_mem _ hother)
    refine ⟨l, hl, hdone, fun m hm => ?_⟩
    rcases List.mem_append.mp hm with hm | hm
    · exact hmade m hm
    · cases List.mem_singleton.mp hm
      exact hfirst other hother loc l hreaches.leads hl.leads
  · rintro ⟨hreach, hpairs⟩
    refine ⟨fun other hother => ?_, List.pairwise_cons.mpr ⟨fun other hother l l' hl hl' => ?_, hpairs⟩⟩
    · rcases List.mem_cons.mp hother with rfl | hother
      · exact ⟨loc, hreaches, hwrite, hapart⟩
      · obtain ⟨l, hl, hdone, hmade⟩ := hreach other hother
        exact ⟨l, hl, hdone, fun m hm => hmade m (List.mem_append_left _ hm)⟩
    · obtain ⟨l'', hl'', _, hmade⟩ := hreach other hother
      cases hreaches.leads.symm.trans hl
      cases hl''.leads.symm.trans hl'
      exact hmade (loc, text) (by simp)

theorem writeAccepted_of_error {planned : Dict String AdaptationFile} {rest : List String} {e : AdaptationException}
    (h : (writeOne os root planned relative fs).1 = .error e) :
    writeAccepted os root planned (relative :: rest) fs = (.error e, (writeOne os root planned relative fs).2) := by
  unfold writeAccepted
  generalize writeOne os root planned relative fs = one at h ⊢
  obtain ⟨answer, fs₁⟩ := one
  cases h
  rfl

theorem writeAccepted_of_ok {planned : Dict String AdaptationFile} {rest : List String}
    (h : (writeOne os root planned relative fs).1 = .ok ()) :
    (writeAccepted os root planned (relative :: rest) fs).2 =
      (writeAccepted os root planned rest (writeOne os root planned relative fs).2).2 := by
  rw [writeAccepted]
  generalize writeOne os root planned relative fs = one at h ⊢
  obtain ⟨answer, fs₁⟩ := one
  cases h
  dsimp only
  generalize writeAccepted os root planned rest fs₁ = others
  obtain ⟨answer' | answer', fs₂⟩ := others <;> rfl

/-- **The loop**: it returns if and only if the paths fit, and then it has made a file for each of them; the files made
before stay in any case. -/
theorem writeAccepted_spec {planned : Dict String AdaptationFile} {paths : List String}
    (hplanned : ∀ relative ∈ paths, ∃ item, planned.get? relative = some item) (h : Grew os fs₀ fs made) :
    ((∃ written, (writeAccepted os root planned paths fs).1 = .ok written) ↔ Fits os root fs₀ made paths) ∧
    (∀ m ∈ made, (writeAccepted os root planned paths fs).2.item m.1 = some (.file m.2)) ∧
    ∀ written, (writeAccepted os root planned paths fs).1 = .ok written → written = paths ∧
      ∃ new, Grew os fs₀ (writeAccepted os root planned paths fs).2 (made ++ new) ∧
        List.Forall₂ (fun relative m => Reaches os root fs₀ relative m.1 ∧
          ∃ item, planned.get? relative = some item ∧ item.content = m.2) paths new := by
  induction paths generalizing fs made with
  | nil =>
      refine ⟨iff_of_true ⟨[], rfl⟩ ⟨fun _ hp => absurd hp List.not_mem_nil, .nil⟩, fun m hm => (h.files m hm).2, ?_⟩
      intro written hwritten
      cases hwritten
      exact ⟨rfl, [], by rw [List.append_nil]; exact h, .nil⟩
  | cons relative rest ih =>
      obtain ⟨item, hitem⟩ := hplanned relative List.mem_cons_self
      have hcases := writeOne_cases os root fs hitem
      unfold writeAccepted
      generalize writeOne os root planned relative fs = one at hcases ⊢
      obtain ⟨answer, fs₁⟩ := one
      -- a path that fails does not fit
      have hfails : ∀ e : AdaptationException, (∀ l item, fs.item l = some item → fs₁.item l = some item) →
          (∀ loc, Reaches os root fs relative loc → os.write loc ≠ .done) →
          ((∃ written, (Except.error e : Except AdaptationException (List String)) = .ok written) ↔
            Fits os root fs₀ made (relative :: rest)) ∧ (∀ m ∈ made, fs₁.item m.1 = some (.file m.2)) := by
        intro e hkept hwrite
        refine ⟨iff_of_false (fun ⟨_, hok⟩ => by cases hok) fun hfits => ?_, h.kept hkept⟩
        obtain ⟨loc, hreaches, hdone, hapart⟩ := hfits.reach relative List.mem_cons_self
        exact hwrite loc (h.reaches_iff.mpr ⟨hreaches, hapart⟩) hdone
      rcases hcases with ⟨loc, hreaches, hdone, hanswer, hplaced⟩ |
        ⟨loc, left, e, hreaches, hbroken, hanswer, hplaced⟩ | ⟨hrefused, ⟨e, hanswer⟩, wide, hwidened⟩
      · cases hanswer
        obtain ⟨hreaches₀, hapart⟩ := h.reaches_iff.mp hreaches
        obtain ⟨hiff, hkept, hreturned⟩ := ih (fun other hother => hplanned other (List.mem_cons_of_mem _ hother))
          (h.snoc hreaches₀.vacant hplaced hapart)
        rw [fits_cons item.content hreaches₀ hdone hapart]
        dsimp only
        generalize writeAccepted os root planned rest fs₁ = others at hiff hkept hreturned ⊢
        obtain ⟨answer', fs₂⟩ := others
        have hmade : ∀ m ∈ made, fs₂.item m.1 = some (.file m.2) := fun m hm => hkept m (List.mem_append_left _ hm)
        cases answer' with
        | error e =>
            refine ⟨Iff.trans ?_ hiff, hmade, fun written hwritten => by cases hwritten⟩
            exact iff_of_false (fun ⟨_, hok⟩ => by cases hok) (fun ⟨_, hok⟩ => by cases hok)
        | ok written =>
            refine ⟨Iff.trans ?_ hiff, hmade, fun written' hwritten => ?_⟩
            · exact iff_of_true ⟨_, rfl⟩ ⟨_, rfl⟩
            · cases hwritten
              obtain ⟨rfl, new, hgrew, hnew⟩ := hreturned written rfl
              refine ⟨rfl, (loc, item.content) :: new, ?_, .cons ⟨hreaches₀, item, hitem, rfl⟩ hnew⟩
              rwa [List.append_assoc] at hgrew
      · cases hanswer
        obtain ⟨hiff, hmade⟩ := hfails e (hplaced.item_eq hreaches.vacant) fun loc' hreaches' => by
          rw [hreaches'.unique os root hreaches, hbroken]
          exact fun h => by cases h
        exact ⟨hiff, hmade, fun written hwritten => by cases hwritten⟩
      · cases hanswer
        obtain ⟨hiff, hmade⟩ := hfails e (fun l item hl => by
            rcases hwidened l with hsame | ⟨hnone, _⟩
            · rw [← hl]
              exact hsame
            · rw [hnone] at hl
              cases hl)
          fun loc hreaches => by
            rw [hrefused loc hreaches]
            exact fun h => by cases h
        exact ⟨hiff, hmade, fun written hwritten => by cases hwritten⟩

end Several

/-! ## All or nothing -/

section AllOrNothing

variable (lib : Library) (os : OperatingSystem) (fs : FileSystem String) (root : List Segment)
  (inspection : ProjectInspection) (accepted : List String)

/-- **All or nothing**: when the call raises, every file is as it was and there is no other; when it returns, the files
of the accepted paths are there as they were shown, where nothing was before, and every other file is as it was. -/
structure AllOrNothing : Prop where
  raised : ∀ e, (applyAdaptation lib os fs root inspection accepted).1 = .error e →
    ∀ loc text, (applyAdaptation lib os fs root inspection accepted).2.item loc = some (.file text) ↔
      fs.item loc = some (.file text)
  returned : ∀ written, (applyAdaptation lib os fs root inspection accepted).1 = .ok written → written = accepted ∧
    (∀ relative ∈ accepted, ∃ file ∈ (previewAdaptation lib fs root inspection).files, file.path = relative ∧
      ∃ loc, fs.leads false [] (segmentsOf root relative) = some loc ∧ fs.item loc = none ∧
        (applyAdaptation lib os fs root inspection accepted).2.item loc = some (.file file.content)) ∧
    ∀ loc, (∀ relative ∈ accepted, fs.leads false [] (segmentsOf root relative) ≠ some loc) →
      ∀ text, (applyAdaptation lib os fs root inspection accepted).2.item loc = some (.file text) ↔
        fs.item loc = some (.file text)

/-- A check refuses the request before anything is tried. -/
def Refused : Prop :=
  inspection.mode = .atlasIncompatible ∨
    ∃ relative ∈ accepted, relative ∉ (previewAdaptation lib fs root inspection).files.map AdaptationFile.path

/-- **When an adaptation is all or nothing**: it is refused, or the first path fails and leaves no file, or no path
fails. -/
def GoesWell : Prop :=
  Refused lib fs root inspection accepted ∨
    (∀ relative ∈ accepted.head?, ∀ loc, Reaches os root fs relative loc → os.write loc = .refused) ∨
    Fits os root fs [] accepted

variable {lib os fs root inspection accepted}

theorem mem_keys_plannedFiles {preview : AdaptationPreview} {relative : String} :
    relative ∈ (plannedFiles preview).keys ↔ relative ∈ preview.files.map AdaptationFile.path := by
  rw [plannedFiles, Dict.mem_keys_ofItems, List.map_map]
  rfl

theorem unknownPaths_eq_nil {planned : Dict String AdaptationFile} :
    unknownPaths planned accepted = [] ↔ ∀ relative ∈ accepted, relative ∈ planned.keys := by
  rw [unknownPaths, ← List.length_eq_zero_iff, List.length_mergeSort, List.length_eq_zero_iff, List.dedup_eq_nil,
    List.filter_eq_nil_iff]
  simp

/-- What is done with a request: it is refused, or every path is one that was shown. -/
theorem applyAdaptation_cases (lib : Library) (os : OperatingSystem) (fs : FileSystem String) (root : List Segment)
    (inspection : ProjectInspection) (accepted : List String) :
    (Refused lib fs root inspection accepted ∧
      ∃ e, applyAdaptation lib os fs root inspection accepted = (.error e, fs)) ∨
    (¬ Refused lib fs root inspection accepted ∧
      (∀ relative ∈ accepted, ∃ item,
        (plannedFiles (previewAdaptation lib fs root inspection)).get? relative = some item) ∧
      applyAdaptation lib os fs root inspection accepted =
        writeAccepted os root (plannedFiles (previewAdaptation lib fs root inspection)) accepted fs) := by
  unfold applyAdaptation
  dsimp only
  by_cases hmode : inspection.mode = .atlasIncompatible
  · rw [if_pos hmode]
    exact .inl ⟨.inl hmode, _, rfl⟩
  · rw [if_neg hmode]
    by_cases hunknown : unknownPaths (plannedFiles (previewAdaptation lib fs root inspection)) accepted = []
    · rw [if_neg (not_not_intro hunknown)]
      have hknown := unknownPaths_eq_nil.mp hunknown
      refine .inr ⟨?_, fun relative hrelative => ?_, rfl⟩
      · rintro (hyes | ⟨relative, hrelative, hnot⟩)
        · exact hmode hyes
        · exact hnot (mem_keys_plannedFiles.mp (hknown relative hrelative))
      · refine Option.ne_none_iff_exists'.mp fun hnone => ?_
        exact Dict.get?_eq_none.mp hnone (hknown relative hrelative)
    · rw [if_pos hunknown]
      refine .inl ⟨.inr ?_, _, rfl⟩
      rw [unknownPaths_eq_nil] at hunknown
      push Not at hunknown
      obtain ⟨relative, hrelative, hnot⟩ := hunknown
      exact ⟨relative, hrelative, fun hmem => hnot (mem_keys_plannedFiles.mpr hmem)⟩

/-- Where the call returns, it has done what it should. -/
theorem AllOrNothing.of_ok (hplanned : ∀ relative ∈ accepted, ∃ item,
      (plannedFiles (previewAdaptation lib fs root inspection)).get? relative = some item)
    (heq : applyAdaptation lib os fs root inspection accepted =
      writeAccepted os root (plannedFiles (previewAdaptation lib fs root inspection)) accepted fs)
    {written : List String} (hok : (applyAdaptation lib os fs root inspection accepted).1 = .ok written) :
    AllOrNothing lib os fs root inspection accepted := by
  refine ⟨fun e he => ?_, fun written' hok' => ?_⟩
  · rw [he] at hok
    cases hok
  · rw [heq] at hok' ⊢
    obtain ⟨rfl, new, hgrew, hnew⟩ := (writeAccepted_spec hplanned (Grew.refl os fs)).2.2 written' hok'
    rw [List.nil_append] at hgrew
    refine ⟨rfl, fun relative hrelative => ?_, fun loc hloc text => ?_⟩
    · obtain ⟨m, hm, hreaches, item, hitem, hcontent⟩ := Attempts.exists_of_forall₂ hnew hrelative
      obtain ⟨file, hfile, hpair⟩ := List.mem_map.mp (Dict.mem_of_get?_ofItems hitem)
      cases hpair
      refine ⟨item, hfile, rfl, m.1, hreaches.leads, hreaches.vacant, ?_⟩
      rw [hcontent]
      exact (hgrew.files m hm).2
    · have hmade : loc ∉ new.map Prod.fst := fun hmem => by
        obtain ⟨m, hm, rfl⟩ := List.mem_map.mp hmem
        obtain ⟨relative, hrelative, hreaches, _⟩ := Attempts.exists_of_forall₂ hnew.flip hm
        exact hloc relative hrelative hreaches.leads
      rcases hgrew.others loc hmade with hsame | ⟨hnone, hdirectory, _⟩
      · rw [hsame]
      · rw [hnone, hdirectory]
        exact iff_of_false (fun h => by cases h) (fun h => by cases h)

/-- **When an adaptation is all or nothing**. -/
theorem allOrNothing_iff (lib : Library) (os : OperatingSystem) (fs : FileSystem String) (root : List Segment)
    (inspection : ProjectInspection) (accepted : List String) :
    AllOrNothing lib os fs root inspection accepted ↔ GoesWell lib os fs root inspection accepted := by
  rcases applyAdaptation_cases lib os fs root inspection accepted with ⟨hrefused, e, heq⟩ | ⟨hgoes, hplanned, heq⟩
  · refine iff_of_true ⟨fun _ _ _ _ => ?_, fun written hok => ?_⟩ (.inl hrefused)
    · rw [heq]
    · rw [heq] at hok
      cases hok
  · obtain ⟨hiff, _, _⟩ := writeAccepted_spec hplanned (Grew.refl os fs)
    rw [← heq] at hiff
    cases hanswer : (applyAdaptation lib os fs root inspection accepted).1 with
    | ok written =>
        exact iff_of_true (.of_ok hplanned heq hanswer) (.inr (.inr (hiff.mp ⟨written, hanswer⟩)))
    | error e =>
        have hunfit : ¬ Fits os root fs [] accepted := fun hfits => by
          obtain ⟨written, hok⟩ := hiff.mpr hfits
          rw [hanswer] at hok
          cases hok
        cases accepted with
        | nil =>
            rw [heq] at hanswer
            cases hanswer
        | cons first rest =>
            have hgoal : GoesWell lib os fs root inspection (first :: rest) ↔
                ∀ loc, Reaches os root fs first loc → os.write loc = .refused := by
              rw [GoesWell, or_iff_right hgoes, or_iff_left hunfit]
              simp
            rw [hgoal]
            obtain ⟨item, hitem⟩ := hplanned first List.mem_cons_self
            have hleft : ∀ loc text, fs.item loc = none →
                (applyAdaptation lib os fs root inspection (first :: rest)).2.item loc = some (.file text) →
                ¬ AllOrNothing lib os fs root inspection (first :: rest) := by
              intro loc text hnone hfile hall
              rw [(hall.raised e hanswer loc text).mp hfile] at hnone
              cases hnone
            rcases writeOne_cases os root fs hitem with ⟨loc, hreaches, hdone, hok, hplaced⟩ |
              ⟨loc, left, e', hreaches, hbroken, herror, hplaced⟩ | ⟨hrefused, ⟨e', herror⟩, wide, hwidened⟩
            · refine iff_of_false (hleft loc item.content hreaches.vacant ?_) fun h => ?_
              · have hgrew := (Grew.refl os fs).snoc hreaches.vacant hplaced fun _ hm => absurd hm List.not_mem_nil
                rw [heq, writeAccepted_of_ok hok]
                exact (writeAccepted_spec (fun other hother => hplanned other (List.mem_cons_of_mem _ hother))
                  hgrew).2.1 (loc, item.content) List.mem_cons_self
              · rw [h loc hreaches] at hdone
                cases hdone
            · refine iff_of_false (hleft loc left hreaches.vacant ?_) fun h => ?_
              · rw [heq, writeAccepted_of_error herror]
                exact hplaced.file
              · rw [h loc hreaches] at hbroken
                cases hbroken
            · refine iff_of_true ⟨fun _ _ loc text => ?_, fun written hok => ?_⟩ hrefused
              · rw [heq, writeAccepted_of_error herror]
                rcases hwidened loc with hsame | ⟨hnone, hdirectory, _⟩
                · rw [hsame]
                · rw [hnone]
                  exact iff_of_false (fun h => by rw [hdirectory] at h; cases h) (fun h => by cases h)
              · rw [hok] at hanswer
                cases hanswer

/-- A project directory with nothing in it. -/
def emptyProject : FileSystem String where
  items := [(["p".toList], .directory true)]
  nodup := by decide
  named := by decide
  placed := by decide

def asciiLibrary : Library where
  isAlnum := Char.isAlphanum
  lower := fun c => [c.toLower]
  safeDump := fun types => String.join (types.map fun type => "- " ++ type ++ "\n")

def permissive : OperatingSystem where
  refusesDirectory := fun _ => false
  write := fun _ => .done

def external : ProjectInspection where
  mode := .external
  projectId := "p"
  projectName := "p"
  types := []
  gitPresent := true

/-- **A path that is accepted twice** is refused the second time, with its file made. -/
theorem repeated_path_leaves_file :
    ¬ AllOrNothing asciiLibrary permissive emptyProject ["p".toList] external ["ENTRYPOINT.md", "ENTRYPOINT.md"] := by
  intro h
  have hfile := (h.raised (.adaptationError "Refusing to overwrite existing file: ENTRYPOINT.md") (by decide +kernel)
    ["p".toList, "ENTRYPOINT.md".toList]
    "# p\n\nProject Atlas entrypoint. Review this scaffold before committing.\n").mp (by decide +kernel)
  exact absurd hfile (by decide +kernel)

end AllOrNothing

end AtlasFlow.Reference.Adaptation
