import Mathlib
import AtlasFlow.Data.Attempts
import AtlasFlow.Data.PathText

/-!
# The file routes of the Python backend

`list_project_files` looks at paths below the root and leaves out links, ignored directories and environment files;
`get_project_file` resolves the path it is asked for and leaves out the same of what it resolves to. As the walk of
the first does not go through links, the paths it lists are their own resolutions, and the two agree (`routes_agree`).
-/

namespace AtlasFlow

namespace Reference

namespace ProjectFiles

open LinkedFiles PathText

/-- What a route raises: an `HTTPException`, or an exception that nothing catches. -/
inductive RouteError where
  | http (statusCode : Nat) (detail : String)
  | runtimeError
  | valueError
  deriving DecidableEq, Repr

structure ProjectFileView where
  path : List Char
  kind : String
  size : Nat
  deriving DecidableEq, Repr

structure ProjectFileContent where
  path : List Char
  content : String
  truncated : Bool
  deriving DecidableEq, Repr

/-- The names both routes leave out. -/
def ignored : List Segment := [".git", ".atlas-flow", "node_modules", "dist", "build", "target"].map String.toList

def environmentFiles : List Segment := [".env", ".env.local", ".envrc"].map String.toList

def unknownFile : RouteError := .http 404 "Unknown project file"

def binaryFile : RouteError := .http 415 "Binary project files are not previewed"

def couldNotRead : RouteError := .http 404 "Could not read project file"

variable (machine : Machine)

/-! ## What `pathlib` does -/

/-- A circle of links raises. -/
def notCircular : Option Location → Except RouteError Location
  | some loc => .ok loc
  | none => .error .runtimeError

/-- `(directory / text).resolve()`. -/
def resolve (directory : Location) (text : List Char) : Except RouteError Location :=
  if '\x00' ∈ text then .error .valueError
  else notCircular (machine.files.leads false [] ((pathOf text).start directory ++ (pathOf text).segments))

/-- The file that a place is or leads to. -/
def fileAt (loc : Location) : Option StoredFile :=
  match machine.files.leads true [] loc with
  | none => none
  | some l =>
    match machine.files.item l with
    | some (.file file) => some file
    | _ => none

/-- `Path.is_symlink`. -/
def isSymlink (loc : Location) : Bool := (machine.files.item loc).any Item.isLink

/-- `root.rglob("*")`: what is below a directory, through directories that can be read; links are not gone through. -/
def rglob (root : Location) : List Location :=
  machine.files.items.keys.filter fun loc =>
    decide (root <+: loc ∧ root ≠ loc) &&
      (List.range (loc.length - root.length)).all fun n =>
        decide (machine.files.item (loc.take (root.length + n)) = some (.directory true))

/-- `_looks_binary`. -/
def looksBinary (file : StoredFile) : Bool := !file.isReadable || (file.bytes.take 4096).contains 0

/-- What both routes leave out, of a place below the root. -/
def isHidden (root loc : Location) : Bool :=
  decide (loc.getLast?.any (· ∈ environmentFiles)) || (loc.drop root.length).any (· ∈ ignored)

/-! ## The routes -/

/-- What `list_project_files` makes of one path, if anything. -/
def view (root loc : Location) : Option ProjectFileView :=
  match fileAt machine loc with
  | none => none
  | some file =>
    if isSymlink machine loc || isHidden root loc then none
    else some
      { path := ['/'].intercalate (loc.drop root.length)
        kind := if looksBinary file then "binary" else "text"
        size := file.bytes.length }

variable (explorable : Except RouteError Unit) (projectRoot : List Char)

/-- `list_project_files`; `explorable` is what `_require_capability` says. -/
def listProjectFiles : Except RouteError (List ProjectFileView) := do
  explorable
  let root ← resolve machine machine.working.directory projectRoot
  let paths := (rglob machine root).mergeSort fun a b => decide (a ≤ b)
  return (paths.filterMap (view machine root)).take 500

/-- `SecurityGuard.validate_path`, whose `SecurityError` is caught by the route. -/
def validatePath (repoRoot : Location) (target : List Char) : Except RouteError Location := do
  let resolved ← resolve machine repoRoot target
  let root ← resolve machine repoRoot []
  if root <+: resolved then return resolved else throw unknownFile

variable (decode : List UInt8 → String)

/-- What is shown of a file that the route lets through; `decode` is `bytes.decode("utf-8", errors="replace")`. -/
def preview (filePath : List Char) (file : StoredFile) : Except RouteError ProjectFileContent :=
  if looksBinary file then .error binaryFile
  else if !file.isReadable then .error couldNotRead
  else .ok ⟨filePath, decode (file.bytes.take 512000), 512000 < file.bytes.length⟩

/-- The rest of `get_project_file`, from the target on. -/
def openTarget (root target : Location) (filePath : List Char) : Except RouteError ProjectFileContent :=
  match fileAt machine target with
  | none => throw unknownFile
  | some file =>
    if isSymlink machine target then throw unknownFile
    else if decide (target.getLast?.any (· ∈ environmentFiles)) then throw unknownFile
    else if ¬root <+: target then throw .valueError
    else if (target.drop root.length).any (· ∈ ignored) then throw unknownFile
    else preview decode filePath file

/-- `get_project_file`. -/
def getProjectFile (filePath : List Char) : Except RouteError ProjectFileContent := do
  explorable
  let root ← resolve machine machine.working.directory projectRoot
  let target ← validatePath machine root filePath
  openTarget machine decode root target filePath

/-! ## What is served -/

variable {machine explorable projectRoot decode} {directory r l loc : Location} {text : List Char} {file : StoredFile}

theorem resolve_ok (h : resolve machine directory text = .ok loc) : machine.files.Physical loc := by
  unfold resolve at h
  split at h
  · cases h
  · cases hleads : machine.files.leads false [] ((pathOf text).start directory ++ (pathOf text).segments) with
    | none =>
        rw [hleads] at h
        cases h
    | some l =>
        rw [hleads] at h
        cases h
        exact FileSystem.leads_physical FileSystem.physical_nil hleads

/-- The file at a place that was resolved is there itself. -/
theorem fileAt_of_physical (h : machine.files.Physical loc) (hfile : fileAt machine loc = some file) :
    machine.files.item loc = some (.file file) := by
  unfold fileAt at hfile
  split at hfile
  · cases hfile
  · next l hl =>
    have hleads := FileSystem.leads_of_strict hl
    have hself : machine.files.leads false [] loc = some loc := FileSystem.leads_of_physical h
    rw [hself] at hleads
    cases hleads
    split at hfile
    · next file' hitem =>
      cases hfile
      exact hitem
    · cases hfile

/-- A regular file inside the root, in no ignored directory and of no hidden name. -/
structure Served (machine : Machine) (r l : Location) (file : StoredFile) : Prop where
  isFile : machine.files.item l = some (.file file)
  inside : r <+: l
  notIgnored : ∀ part ∈ l.drop r.length, part ∉ ignored
  notEnvironment : ∀ name, l.getLast? = some name → name ∉ environmentFiles

theorem isHidden_eq_false : isHidden r l = false ↔
    (∀ part ∈ l.drop r.length, part ∉ ignored) ∧ ∀ name, l.getLast? = some name → name ∉ environmentFiles := by
  unfold isHidden
  rw [Bool.or_eq_false_iff, List.any_eq_false, decide_eq_false_iff_not]
  cases l.getLast? <;> simp [and_comm]

/-- What is opened is served. -/
theorem getProjectFile_ok {content : ProjectFileContent}
    (h : getProjectFile machine explorable projectRoot decode text = .ok content) : ∃ r l file,
      resolve machine machine.working.directory projectRoot = .ok r ∧ resolve machine r text = .ok l ∧
        Served machine r l file ∧ preview decode text file = .ok content := by
  unfold getProjectFile at h
  obtain ⟨_, hexplorable, h⟩ := Attempts.of_bind_ok h
  obtain ⟨r, hr, h⟩ := Attempts.of_bind_ok h
  obtain ⟨l, hl, h⟩ := Attempts.of_bind_ok h
  unfold validatePath at hl
  obtain ⟨resolved, hresolved, hl⟩ := Attempts.of_bind_ok hl
  obtain ⟨r', hr', hl⟩ := Attempts.of_bind_ok hl
  have hsame : resolved = l := by
    split at hl
    · cases hl
      rfl
    · cases hl
  subst hsame
  unfold openTarget at h
  cases hfile : fileAt machine resolved with
  | none =>
      rw [hfile] at h
      cases h
  | some file =>
      rw [hfile] at h
      dsimp only at h
      split at h
      · cases h
      · split at h
        · cases h
        · next henv =>
          split at h
          · cases h
          · next hinside =>
            split at h
            · cases h
            · next hignored =>
              refine ⟨r, resolved, file, hr, hresolved, ⟨fileAt_of_physical (resolve_ok hresolved) hfile,
                not_not.mp hinside, ?_, ?_⟩, h⟩
              · simpa using hignored
              · intro name hname
                simpa [hname] using henv

/-- A file that is served and has been resolved is previewed. -/
theorem getProjectFile_eq (hexplorable : explorable = .ok ())
    (hr : resolve machine machine.working.directory projectRoot = .ok r) (hself : resolve machine r [] = .ok r)
    (hl : resolve machine r text = .ok l) (hserved : Served machine r l file) :
    getProjectFile machine explorable projectRoot decode text = preview decode text file := by
  have hvalid : validatePath machine r text = .ok l := by
    unfold validatePath
    rw [hl, hself]
    exact if_pos hserved.inside
  have hleads : machine.files.leads true [] l = some l := FileSystem.leads_names hserved.isFile rfl
  have hfile : fileAt machine l = some file := by
    unfold fileAt
    rw [hleads]
    dsimp only
    rw [hserved.isFile]
  have hlink : isSymlink machine l = false := by
    unfold isSymlink
    rw [hserved.isFile]
    rfl
  have henv : l.getLast?.any (· ∈ environmentFiles) = false := by
    cases hlast : l.getLast? with
    | none => rfl
    | some name => simpa using hserved.notEnvironment name hlast
  have hignored : (l.drop r.length).any (· ∈ ignored) = false := by
    simpa using hserved.notIgnored
  have hopen : openTarget machine decode r l text = preview decode text file := by
    unfold openTarget
    rw [hfile]
    dsimp only
    rw [hlink, henv, hignored]
    simp [hserved.inside]
  unfold getProjectFile
  rw [hexplorable, hr]
  show (validatePath machine r text).bind _ = _
  rw [hvalid]
  exact hopen

/-! ## What is listed -/

theorem mem_rglob : loc ∈ rglob machine r → loc ∈ machine.files.items.keys ∧ r <+: loc ∧ r ≠ loc := by
  intro h
  obtain ⟨hkey, h⟩ := List.mem_filter.mp h
  rw [Bool.and_eq_true, decide_eq_true_eq] at h
  exact ⟨hkey, h.1⟩

/-- What is listed is served, and its path is where it is. -/
theorem view_some {v : ProjectFileView} (hmem : loc ∈ rglob machine r) (h : view machine r loc = some v) :
    ∃ file, Served machine r loc file ∧ v.path = ['/'].intercalate (loc.drop r.length) ∧
      v.kind = if looksBinary file then "binary" else "text" := by
  obtain ⟨hkey, hinside, hne⟩ := mem_rglob hmem
  unfold view at h
  cases hfile : fileAt machine loc with
  | none =>
      rw [hfile] at h
      cases h
  | some file =>
      rw [hfile] at h
      dsimp only at h
      split at h
      · cases h
      · next hkept =>
        cases h
        rw [Bool.or_eq_true, not_or, Bool.not_eq_true, Bool.not_eq_true, isHidden_eq_false] at hkept
        obtain ⟨hlink, hignored, henv⟩ := hkept
        have hitem : machine.files.item loc = some (.file file) := by
          have hne : loc ≠ [] := (machine.files.named loc hkey).1
          obtain ⟨item, hitem⟩ := Dict.mem_keys.mp hkey
          have hget := Dict.get?_of_mem machine.files.nodup hitem
          rw [← FileSystem.item_of_ne hne] at hget
          have hnot : item.isLink = false := by
            rw [isSymlink, hget] at hlink
            exact hlink
          have hleads : machine.files.leads true [] loc = some loc := FileSystem.leads_names hget hnot
          unfold fileAt at hfile
          rw [hleads] at hfile
          dsimp only at hfile
          split at hfile
          · next found hfound =>
            cases hfile
            exact hfound
          · cases hfile
        exact ⟨file, ⟨hitem, hinside, hignored, henv⟩, rfl, rfl⟩

/-- A path that is listed is resolved to where it is. -/
theorem resolve_listed {item : Item StoredFile} (hitem : machine.files.item loc = some item) (hlink : item.isLink = false)
    (hinside : r <+: loc) (hne : r ≠ loc) :
    resolve machine r [] = .ok r ∧ namesIn r (['/'].intercalate (loc.drop r.length)) = loc ∧
      resolve machine r (['/'].intercalate (loc.drop r.length)) = .ok loc := by
  obtain ⟨below, rfl⟩ := hinside
  have hbelow : below ≠ [] := by
    rintro rfl
    exact hne (List.append_nil r).symm
  have hkey := FileSystem.mem_keys_of_item hitem (List.append_ne_nil_of_right_ne_nil r hbelow)
  have hnames : ∀ name ∈ below, IsName name := fun name hname =>
    (machine.files.named _ hkey).2 name (List.mem_append_right r hname)
  obtain ⟨isReadable, hroot⟩ := FileSystem.isDirectory_iff.mp (FileSystem.isDirectory_of_append hitem hbelow)
  have hr : machine.files.leads false [] r = some r := FileSystem.leads_names hroot rfl
  have hloc : machine.files.leads false [] (r ++ below) = some (r ++ below) := FileSystem.leads_names hitem hlink
  rw [List.drop_left]
  refine ⟨?_, namesIn_intercalate hnames hbelow r, ?_⟩
  · have hhere : machine.files.leads false [] (r ++ [[]]) = some r := by
      rw [FileSystem.leads_snoc, hr, Option.bind_some, FileSystem.leadsBy_empty]
    unfold resolve
    rw [if_neg List.not_mem_nil]
    exact congrArg notCircular hhere
  · unfold resolve
    rw [if_neg (nul_not_mem_intercalate hnames), pathOf_intercalate hnames hbelow]
    exact congrArg notCircular hloc


theorem mem_listProjectFiles {views : List ProjectFileView} {v : ProjectFileView}
    (h : listProjectFiles machine explorable projectRoot = .ok views) (hv : v ∈ views) : explorable = .ok () ∧
      ∃ r, resolve machine machine.working.directory projectRoot = .ok r ∧
        ∃ loc ∈ rglob machine r, view machine r loc = some v := by
  unfold listProjectFiles at h
  obtain ⟨_, hexplorable, h⟩ := Attempts.of_bind_ok h
  obtain ⟨r, hr, h⟩ := Attempts.of_bind_ok h
  cases h
  obtain ⟨loc, hloc, hview⟩ := List.mem_filterMap.mp (List.mem_of_mem_take hv)
  exact ⟨hexplorable, r, hr, loc, (List.mergeSort_perm _ _).mem_iff.mp hloc, hview⟩

/-! ## The two routes -/

variable (machine explorable projectRoot decode) in
/-- The routes serve regular files inside the root that are not hidden, and what is listed is what is opened. -/
structure RoutesAgree : Prop where
  opened : ∀ filePath content, getProjectFile machine explorable projectRoot decode filePath = .ok content →
    ∃ r l file, resolve machine machine.working.directory projectRoot = .ok r ∧ resolve machine r filePath = .ok l ∧
      Served machine r l file ∧ preview decode filePath file = .ok content
  listed : ∀ views v, listProjectFiles machine explorable projectRoot = .ok views → v ∈ views →
    ∃ r l file, resolve machine machine.working.directory projectRoot = .ok r ∧ resolve machine r v.path = .ok l ∧
      Served machine r l file ∧ namesIn r v.path = l ∧ isSymlink machine (namesIn r v.path) = false
  reopened : (∀ loc file, machine.files.item loc = some (.file file) → file.isReadable = true) →
    ∀ views v, listProjectFiles machine explorable projectRoot = .ok views → v ∈ views →
    ∃ r l file, resolve machine machine.working.directory projectRoot = .ok r ∧ resolve machine r v.path = .ok l ∧
      machine.files.item l = some (.file file) ∧
      (v.kind = "text" ∧ getProjectFile machine explorable projectRoot decode v.path =
          .ok ⟨v.path, decode (file.bytes.take 512000), 512000 < file.bytes.length⟩ ∨
        v.kind = "binary" ∧ getProjectFile machine explorable projectRoot decode v.path = .error binaryFile)

/-- **Both routes serve the same files, and nothing outside or hidden**. -/
theorem routes_agree : RoutesAgree machine explorable projectRoot decode := by
  constructor
  · intro filePath content h
    exact getProjectFile_ok h
  · intro views v h hv
    obtain ⟨-, r, hr, loc, hloc, hview⟩ := mem_listProjectFiles h hv
    obtain ⟨file, hserved, hpath, -⟩ := view_some hloc hview
    obtain ⟨-, hinside, hne⟩ := mem_rglob hloc
    obtain ⟨-, hnames, hresolve⟩ := resolve_listed hserved.isFile rfl hinside hne
    rw [← hpath] at hnames hresolve
    refine ⟨r, loc, file, hr, hresolve, hserved, hnames, ?_⟩
    rw [hnames, isSymlink, hserved.isFile]
    rfl
  · intro hreadable views v h hv
    obtain ⟨hexplorable, r, hr, loc, hloc, hview⟩ := mem_listProjectFiles h hv
    obtain ⟨file, hserved, hpath, hkind⟩ := view_some hloc hview
    obtain ⟨-, hinside, hne⟩ := mem_rglob hloc
    obtain ⟨hself, -, hresolve⟩ := resolve_listed hserved.isFile rfl hinside hne
    rw [← hpath] at hresolve
    refine ⟨r, loc, file, hr, hresolve, hserved.isFile, ?_⟩
    rw [getProjectFile_eq hexplorable hr hself hresolve hserved, preview, hkind]
    cases hbinary : looksBinary file with
    | true => exact .inr ⟨rfl, rfl⟩
    | false =>
        refine .inl ⟨rfl, ?_⟩
        simp [hreadable loc file hserved.isFile]

/-! ## A project with a link and an environment file -/

/-- A project with a text, a binary file, an environment file and a link to it. -/
def sampleProject : Machine where
  files :=
    { items := [(["p".toList], .directory true), (["p".toList, "a".toList], .file ⟨true, [97]⟩),
        (["p".toList, "b".toList], .file ⟨true, [0]⟩), (["p".toList, ".env".toList], .file ⟨true, [75]⟩),
        (["p".toList, "c".toList], .link (pathOf ".env".toList))]
      nodup := by decide
      named := by decide
      placed := by decide }
  working := ⟨[], isNames_nil⟩

/-- It is no file that cannot be read. -/
def canBeRead : Item StoredFile → Bool
  | .file file => file.isReadable
  | _ => true

theorem sampleProject_isReadable (loc : Location) (file : StoredFile)
    (h : sampleProject.files.item loc = some (.file file)) : file.isReadable = true := by
  have hne : loc ≠ [] := by
    rintro rfl
    rw [FileSystem.item_root] at h
    cases h
  rw [FileSystem.item_of_ne hne] at h
  have hall : (sampleProject.files.items.all fun entry => canBeRead entry.2) = true := by decide
  exact List.all_eq_true.mp hall _ (Dict.mem_of_get? h)

/-- The text file is listed, and opened as it is listed. -/
theorem sample_is_reopened : ∃ views v, listProjectFiles sampleProject (.ok ()) "/p".toList = .ok views ∧ v ∈ views ∧
    ∃ r l file, resolve sampleProject [] "/p".toList = .ok r ∧ resolve sampleProject r v.path = .ok l ∧
      sampleProject.files.item l = some (.file file) ∧
      (v.kind = "text" ∧ getProjectFile sampleProject (.ok ()) "/p".toList (fun _ => "a") v.path =
          .ok ⟨v.path, "a", 512000 < file.bytes.length⟩ ∨
        v.kind = "binary" ∧
          getProjectFile sampleProject (.ok ()) "/p".toList (fun _ => "a") v.path = .error binaryFile) := by
  have hlist : listProjectFiles sampleProject (.ok ()) "/p".toList = .ok ((((rglob sampleProject ["p".toList]).mergeSort
      fun a b => decide (a ≤ b)).filterMap (view sampleProject ["p".toList])).take 500) := by
    have hr : resolve sampleProject sampleProject.working.directory "/p".toList = .ok ["p".toList] := by decide +kernel
    unfold listProjectFiles
    rw [hr]
    rfl
  have hmem : (⟨"a".toList, "text", 1⟩ : ProjectFileView) ∈ (((rglob sampleProject ["p".toList]).mergeSort
      fun a b => decide (a ≤ b)).filterMap (view sampleProject ["p".toList])).take 500 := by
    rw [List.take_of_length_le]
    · refine List.mem_filterMap.mpr ⟨["p".toList, "a".toList], (List.mergeSort_perm _ _).mem_iff.mpr ?_, ?_⟩
      · decide +kernel
      · decide +kernel
    · refine (List.length_filterMap_le _ _).trans ?_
      rw [(List.mergeSort_perm _ _).length_eq]
      decide +kernel
  exact ⟨_, _, hlist, hmem, routes_agree.reopened sampleProject_isReadable _ _ hlist hmem⟩

end ProjectFiles

end Reference

end AtlasFlow
