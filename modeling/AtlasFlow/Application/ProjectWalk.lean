import AtlasFlow.Application.ProjectReading
import AtlasFlow.Data.Ordinal
import AtlasFlow.Graph.Unfold

/-!
# Listing the files of the project

`ProjectService.Walk` goes through the project breadth first and remembers nothing of where it has been. A link to a
directory is a directory to it, so what it walks is a graph: it ends just where it does not come back to a directory
from within, and stays inside just where the links do (`listing_iff`).
-/

namespace AtlasFlow

open LinkedFiles PathText

/-- The root that the services were registered with, which is not blank. -/
structure ProjectRoot where
  text : List Char
  notBlank : text.all EnumText.isWhiteSpace = false

namespace ProjectPaths

/-- `Path.GetRelativePath`, by names. -/
def relativeNames : Location → Location → Location
  | [], names => names
  | root, [] => root.map fun _ => ['.', '.']
  | a :: root, b :: names =>
    if a = b then relativeNames root names else (a :: root).map (fun _ => ['.', '.']) ++ b :: names

/-- `Relative`, of a full path. -/
def relative (root names : Location) : List Char :=
  if root = names then ['.'] else ['/'].intercalate (relativeNames root names)

end ProjectPaths

namespace ProjectService

open ProjectPaths (relative)

inductive ProjectFileKind where
  | directory
  | document
  | source
  | manifest
  | other
  deriving DecidableEq, Repr

structure ProjectFile where
  path : List Char
  kind : ProjectFileKind
  sizeInBytes : Nat
  deriving DecidableEq

/-- `IgnoredDirectories`. -/
def ignoredDirectories : List Segment :=
  [".git", "node_modules", ".venv", "venv", "__pycache__", "target", "bin", "obj", "dist", ".mypy_cache",
    ".pytest_cache", ".ruff_cache"].map String.toList

/-- `Path.GetExtension`. -/
def extension (name : Segment) : List Char :=
  let after := (name.reverse.takeWhile (· ≠ '.')).reverse
  if after = [] ∨ after.length = name.length then [] else '.' :: after

/-- `Classify`. -/
def classify (name : Segment) : ProjectFileKind :=
  let ext := String.ofList (extension name)
  if ext ∈ [".md", ".txt", ".rst", ".adoc"] then .document
  else if ext ∈ [".cs", ".py", ".ts", ".tsx", ".js", ".rs", ".go", ".java"] then .source
  else if ext ∈ [".yaml", ".yml", ".json", ".toml"] then .manifest
  else .other

variable (machine : Machine)

/-! ## What the platform tells of a directory -/

/-- The names that `Directory.EnumerateFileSystemEntries` gives; none where it throws. -/
def entriesIn (loc : Location) : List Segment :=
  match machine.files.item loc with
  | some (.directory true) => machine.files.names loc
  | _ => []

/-- The directory that an entry is or leads to, if `Directory.Exists` says there is one. -/
def directoryBy (loc : Location) (name : Segment) : Option Location :=
  (machine.files.leadsBy true loc name).filter machine.files.isDirectory

/-- The length that `FileInfo` tells of an entry that is no directory. What it tells of a link is left open. -/
def lengthOf (lengthOfLink : Location → Option Nat) (loc : Location) : Option Nat :=
  match machine.files.item loc with
  | some (.file file) => some file.bytes.length
  | some (.link _) => lengthOfLink loc
  | _ => none

/-- The directory that a full path leads to. -/
def directoryAt (names : Location) : Option Location :=
  (machine.files.leads true [] names).filter machine.files.isDirectory

/-! ## The walk -/

structure Walking where
  pending : List Location
  found : List ProjectFile

variable (lengthOfLink : Location → Option Nat)

/-- What `Walk` does with one entry of the directory `path` of the project, which is at `loc`. -/
def visit (base path loc : Location) (s : Walking) (name : Segment) : Walking :=
  let entry := path ++ [name]
  match directoryAt machine (base ++ entry) with
  | some _ =>
    if name ∈ ignoredDirectories then s
    else { pending := s.pending ++ [entry], found := s.found ++ [⟨relative base (base ++ entry), .directory, 0⟩] }
  | none =>
    match lengthOf machine lengthOfLink (loc ++ [name]) with
    | none => s
    | some size => { s with found := s.found ++ [⟨relative base (base ++ entry), classify name, size⟩] }

/-- The turns of the loop. -/
def walkLoop (base : Location) : Nat → Walking → Option (List ProjectFile)
  | 0, _ => none
  | _ + 1, ⟨[], found⟩ => some found
  | n + 1, ⟨path :: pending, found⟩ =>
    match directoryAt machine (base ++ path) with
    | none => walkLoop base n ⟨pending, found⟩
    | some loc =>
      walkLoop base n ((entriesIn machine loc).foldl (visit machine lengthOfLink base path loc) ⟨pending, found⟩)

/-- The root's directory, if `Directory.Exists` says that it is one. -/
def rootDirectory (root : ProjectRoot) : Option Location :=
  if '\x00' ∈ root.text then none else directoryAt machine (ProjectPaths.rootNames machine.working root.text)

/-- `Walk`, if it ends within so many turns. -/
def walk (root : ProjectRoot) (n : Nat) : Option (List ProjectFile) :=
  match rootDirectory machine root with
  | none => some []
  | some _ =>
    (walkLoop machine lengthOfLink (ProjectPaths.rootNames machine.working root.text) n ⟨[[]], []⟩).map
      (Ordinal.sortBy ProjectFile.path)

/-! ## The graph that is walked -/

/-- An entry is listed: a directory unless its name is ignored, anything else unless it has no length. -/
def isListed (loc : Location) (name : Segment) : Bool :=
  match directoryBy machine loc name with
  | some _ => decide (name ∉ ignoredDirectories)
  | none => (lengthOf machine lengthOfLink (loc ++ [name])).isSome

/-- What is listed for an entry. -/
def entryFile (base path loc : Location) (name : Segment) : Option ProjectFile :=
  match directoryBy machine loc name with
  | some _ =>
    if name ∈ ignoredDirectories then none
    else some ⟨relative base (base ++ (path ++ [name])), .directory, 0⟩
  | none =>
    (lengthOf machine lengthOfLink (loc ++ [name])).map fun size =>
      ⟨relative base (base ++ (path ++ [name])), classify name, size⟩

/-- What is put in the queue for an entry. -/
def entryPath (path loc : Location) (name : Segment) : Option Location :=
  if (directoryBy machine loc name).isSome ∧ name ∉ ignoredDirectories then some (path ++ [name]) else none

/-- What is put in the queue for a directory of the project. -/
def subdirectories (base path : Location) : List Location :=
  match directoryAt machine (base ++ path) with
  | none => []
  | some loc => (entriesIn machine loc).filterMap (entryPath machine path loc)

/-- What is listed for a directory of the project. -/
def listed (base path : Location) : List ProjectFile :=
  match directoryAt machine (base ++ path) with
  | none => []
  | some loc => (entriesIn machine loc).filterMap (entryFile machine lengthOfLink base path loc)

section Walk

variable {machine lengthOfLink} {base path loc loc' : Location} {name : Segment} {n : Nat}

theorem directoryAt_eq_some {names : Location} : directoryAt machine names = some loc ↔
    machine.files.leads true [] names = some loc ∧ machine.files.isDirectory loc = true := by
  rw [directoryAt, Option.filter_eq_some_iff]

theorem directoryBy_eq_some : directoryBy machine loc name = some loc' ↔
    machine.files.leadsBy true loc name = some loc' ∧ machine.files.isDirectory loc' = true := by
  rw [directoryBy, Option.filter_eq_some_iff]

/-- Where an entry leads is told by where its directory is. -/
theorem directoryAt_snoc (h : directoryAt machine (base ++ path) = some loc) (name : Segment) :
    directoryAt machine (base ++ (path ++ [name])) = directoryBy machine loc name := by
  rw [directoryAt, ← List.append_assoc, FileSystem.leads_snoc, (directoryAt_eq_some.mp h).1, Option.bind_some,
    directoryBy]

theorem foldl_visit (h : directoryAt machine (base ++ path) = some loc) (names : List Segment) (s : Walking) :
    names.foldl (visit machine lengthOfLink base path loc) s =
      ⟨s.pending ++ names.filterMap (entryPath machine path loc),
        s.found ++ names.filterMap (entryFile machine lengthOfLink base path loc)⟩ := by
  induction names generalizing s with
  | nil => simp
  | cons name names ih =>
      rw [List.foldl_cons, ih, visit, directoryAt_snoc h, List.filterMap_cons, List.filterMap_cons, entryPath,
        entryFile]
      cases directoryBy machine loc name with
      | some l =>
          by_cases hname : name ∈ ignoredDirectories
          · simp [hname]
          · simp [hname]
      | none =>
          cases lengthOf machine lengthOfLink (loc ++ [name]) with
          | none => simp
          | some size => simp

/-- **The loop lists what it comes by on a walk of the graph**. -/
theorem walkLoop_eq (pending : List Location) (found : List ProjectFile) :
    walkLoop machine lengthOfLink base n ⟨pending, found⟩ =
      (Graph.visits (subdirectories machine base) n pending).map fun visited =>
        found ++ visited.flatMap (listed machine lengthOfLink base) := by
  induction n generalizing pending found with
  | zero => rfl
  | succ n ih =>
      cases pending with
      | nil => simp [walkLoop, Graph.visits]
      | cons path pending =>
          rw [walkLoop, Graph.visits]
          cases hdir : directoryAt machine (base ++ path) with
          | none =>
              dsimp only
              rw [subdirectories, hdir, List.append_nil, Option.map_map, ih]
              congr 1
              funext visited
              rw [Function.comp_apply, List.flatMap_cons, listed, hdir, List.nil_append]
          | some loc =>
              dsimp only
              rw [foldl_visit hdir, ih, subdirectories, hdir, Option.map_map]
              congr 1
              funext visited
              rw [Function.comp_apply, List.flatMap_cons, listed, hdir, List.append_assoc]

/-! ### Directories by where they are -/

variable (machine) in
/-- The walk goes from one directory to another. -/
def Opens (loc loc' : Location) : Prop :=
  ∃ name ∈ entriesIn machine loc, directoryBy machine loc name = some loc' ∧ name ∉ ignoredDirectories

theorem mem_subdirectories {path' : Location} (h : directoryAt machine (base ++ path) = some loc) :
    path' ∈ subdirectories machine base path ↔ ∃ name ∈ entriesIn machine loc,
      (directoryBy machine loc name).isSome ∧ name ∉ ignoredDirectories ∧ path' = path ++ [name] := by
  rw [subdirectories, h]
  simp only [List.mem_filterMap, entryPath]
  constructor
  · rintro ⟨name, hname, heq⟩
    split at heq
    · next hopen =>
      cases heq
      exact ⟨name, hname, hopen.1, hopen.2, rfl⟩
    · cases heq
  · rintro ⟨name, hname, hdir, hnot, rfl⟩
    exact ⟨name, hname, if_pos ⟨hdir, hnot⟩⟩

/-- What is put in the queue is a directory that is gone to. -/
theorem opens_of_mem {path' : Location} (h : directoryAt machine (base ++ path) = some loc)
    (hpath : path' ∈ subdirectories machine base path) :
    ∃ loc', directoryAt machine (base ++ path') = some loc' ∧ Opens machine loc loc' := by
  obtain ⟨name, hname, hsome, hnot, rfl⟩ := (mem_subdirectories h).mp hpath
  obtain ⟨loc', hloc'⟩ := Option.isSome_iff_exists.mp hsome
  exact ⟨loc', (directoryAt_snoc h name).trans hloc', name, hname, hloc', hnot⟩

theorem mem_of_opens (h : directoryAt machine (base ++ path) = some loc) (hopens : Opens machine loc loc') :
    ∃ path' ∈ subdirectories machine base path, directoryAt machine (base ++ path') = some loc' := by
  obtain ⟨name, hname, hdir, hnot⟩ := hopens
  refine ⟨path ++ [name], (mem_subdirectories h).mpr ⟨name, hname, by rw [hdir]; rfl, hnot, rfl⟩, ?_⟩
  rw [directoryAt_snoc h, hdir]

open Relation (ReflTransGen TransGen)

theorem reached_of_mem {path' : Location} (h : directoryAt machine (base ++ path) = some loc)
    (hreach : ReflTransGen (fun a b => b ∈ subdirectories machine base a) path path') :
    ∃ loc', directoryAt machine (base ++ path') = some loc' ∧ ReflTransGen (Opens machine) loc loc' := by
  induction hreach with
  | refl => exact ⟨loc, h, .refl⟩
  | tail _ hstep ih =>
      obtain ⟨loc₁, hloc₁, hreach⟩ := ih
      obtain ⟨loc₂, hloc₂, hopens⟩ := opens_of_mem hloc₁ hstep
      exact ⟨loc₂, hloc₂, hreach.tail hopens⟩

theorem mem_of_reached (h : directoryAt machine (base ++ path) = some loc)
    (hreach : ReflTransGen (Opens machine) loc loc') :
    ∃ path', ReflTransGen (fun a b => b ∈ subdirectories machine base a) path path' ∧
      directoryAt machine (base ++ path') = some loc' := by
  induction hreach with
  | refl => exact ⟨path, .refl, h⟩
  | tail _ hopens ih =>
      obtain ⟨path₁, hreach, hloc₁⟩ := ih
      obtain ⟨path₂, hstep, hloc₂⟩ := mem_of_opens hloc₁ hopens
      exact ⟨path₂, hreach.tail hstep, hloc₂⟩

variable (machine base) in
/-- Where the directory is that a path of the project leads to. -/
def place (path : Location) : Location := (directoryAt machine (base ++ path)).getD []

theorem place_eq (h : directoryAt machine (base ++ path) = some loc) : place machine base path = loc := by
  rw [place, h]
  rfl

/-- The walk ends in the project if and only if it ends among the places. -/
theorem acc_subdirectories_iff (h : directoryAt machine base = some loc) :
    Acc (fun b a => b ∈ subdirectories machine base a) [] ↔ Acc (fun l' l => Opens machine l l') loc := by
  have hstart : directoryAt machine (base ++ []) = some loc := by rwa [List.append_nil]
  have hmap : Acc (fun b a => b ∈ subdirectories machine base a) [] ↔
      Acc (fun l' l => Opens machine l l') (place machine base []) := by
    refine Graph.acc_iff_of_map (place machine base) (fun path => ∃ l, directoryAt machine (base ++ path) = some l)
      ?_ ?_ ?_ ⟨loc, hstart⟩
    · rintro a ⟨l, hl⟩ b hb
      obtain ⟨l', hl', -⟩ := opens_of_mem hl hb
      exact ⟨l', hl'⟩
    · rintro a ⟨l, hl⟩ b hb
      obtain ⟨l', hl', hopens⟩ := opens_of_mem hl hb
      rwa [place_eq hl, place_eq hl']
    · rintro a ⟨l, hl⟩ l' hopens
      rw [place_eq hl] at hopens
      obtain ⟨b, hb, hl'⟩ := mem_of_opens hl hopens
      exact ⟨b, hb, place_eq hl'⟩
  rwa [place_eq hstart] at hmap

variable (machine) in
theorem finite_directories : {loc | machine.files.isDirectory loc = true}.Finite := by
  refine (List.finite_toSet ([] :: machine.files.items.keys)).subset fun l hl => ?_
  by_cases hroot : l = []
  · exact List.mem_cons.mpr (.inl hroot)
  · obtain ⟨isReadable, hitem⟩ := FileSystem.isDirectory_iff.mp hl
    exact List.mem_cons.mpr (.inr (FileSystem.mem_keys_of_item hitem hroot))

variable (lengthOfLink) in
/-- The loop ends if and only if no directory is come back to from within. -/
theorem exists_walkLoop_iff (h : directoryAt machine base = some loc) :
    (∃ n files, walkLoop machine lengthOfLink base n ⟨[[]], []⟩ = some files) ↔
      ∀ loc', ReflTransGen (Opens machine) loc loc' → ¬TransGen (Opens machine) loc' loc' := by
  have hloop : (∃ n files, walkLoop machine lengthOfLink base n ⟨[[]], []⟩ = some files) ↔
      ∃ n visited, Graph.visits (subdirectories machine base) n [[]] = some visited := by
    apply exists_congr
    intro n
    rw [walkLoop_eq]
    simp only [Option.map_eq_some_iff]
    constructor
    · rintro ⟨files, visited, hvisited, -⟩
      exact ⟨visited, hvisited⟩
    · rintro ⟨visited, hvisited⟩
      exact ⟨_, visited, hvisited, rfl⟩
  rw [hloop, Graph.exists_visits_iff, List.forall_mem_singleton, acc_subdirectories_iff h,
    Graph.acc_iff_of_finite (finite_directories machine) ?_ (directoryAt_eq_some.mp h).2]
  · apply forall_congr'
    intro loc'
    rw [Relation.transGen_swap]
  · rintro l _ l' ⟨name, _, hdir, _⟩
    exact (directoryBy_eq_some.mp hdir).2

/-! ### What is listed -/

theorem relativeNames_append (base names : Location) : ProjectPaths.relativeNames base (base ++ names) = names := by
  induction base with
  | nil => cases names <;> rfl
  | cons a base ih => rw [List.cons_append, ProjectPaths.relativeNames, if_pos rfl, ih]

theorem relative_append (base : Location) {names : Location} (hne : names ≠ []) :
    relative base (base ++ names) = ['/'].intercalate names := by
  rw [relative, if_neg (by simpa using hne), relativeNames_append]

theorem entryFile_path {file : ProjectFile} (h : entryFile machine lengthOfLink base path loc name = some file) :
    file.path = ['/'].intercalate (path ++ [name]) ∧ isListed machine lengthOfLink loc name = true := by
  rw [← relative_append base (List.append_ne_nil_of_right_ne_nil path (List.cons_ne_nil name []))]
  unfold entryFile at h
  unfold isListed
  cases hdir : directoryBy machine loc name with
  | some l =>
      rw [hdir] at h
      dsimp only at h ⊢
      split at h
      · cases h
      · next hname =>
        cases h
        exact ⟨rfl, decide_eq_true hname⟩
  | none =>
      rw [hdir] at h
      dsimp only at h ⊢
      obtain ⟨size, hsize, rfl⟩ := Option.map_eq_some_iff.mp h
      exact ⟨rfl, by rw [hsize]; rfl⟩

variable (base path) in
theorem entryFile_of_isListed (h : isListed machine lengthOfLink loc name = true) :
    ∃ file, entryFile machine lengthOfLink base path loc name = some file := by
  unfold isListed at h
  unfold entryFile
  cases hdir : directoryBy machine loc name with
  | some l =>
      rw [hdir] at h
      exact ⟨_, if_neg (of_decide_eq_true h)⟩
  | none =>
      rw [hdir] at h
      obtain ⟨size, hsize⟩ := Option.isSome_iff_exists.mp h
      rw [hsize]
      exact ⟨_, rfl⟩

theorem mem_listed {file : ProjectFile} (h : directoryAt machine (base ++ path) = some loc) :
    file ∈ listed machine lengthOfLink base path ↔
      ∃ name ∈ entriesIn machine loc, entryFile machine lengthOfLink base path loc name = some file := by
  rw [listed, h]
  exact List.mem_filterMap

theorem mem_names_of_entriesIn (h : name ∈ entriesIn machine loc) : name ∈ machine.files.names loc := by
  unfold entriesIn at h
  split at h
  · exact h
  · cases h

theorem isName_of_reached {path' : Location}
    (hreach : ReflTransGen (fun a b => b ∈ subdirectories machine base a) path path')
    (hpath : ∀ name ∈ path, IsName name) : ∀ name ∈ path', IsName name := by
  induction hreach with
  | refl => exact hpath
  | @tail b c _ hstep ih =>
      cases hdir : directoryAt machine (base ++ b) with
      | none =>
          rw [subdirectories, hdir] at hstep
          cases hstep
      | some l =>
          obtain ⟨name, hname, -, -, rfl⟩ := (mem_subdirectories hdir).mp hstep
          intro name' hmem
          rcases List.mem_append.mp hmem with hmem | hmem
          · exact ih name' hmem
          · rw [List.mem_singleton.mp hmem]
            exact FileSystem.isName_of_mem_names (mem_names_of_entriesIn hname)

/-- The paths of a directory's files are its path with their names. -/
theorem listed_paths (h : directoryAt machine (base ++ path) = some loc) :
    (listed machine lengthOfLink base path).map ProjectFile.path =
      ((entriesIn machine loc).filter (isListed machine lengthOfLink loc)).map
        fun name => ['/'].intercalate (path ++ [name]) := by
  rw [listed, h]
  dsimp only
  induction entriesIn machine loc with
  | nil => rfl
  | cons name names ih =>
      rw [List.filterMap_cons]
      cases hfile : entryFile machine lengthOfLink base path loc name with
      | none =>
          have hnot : isListed machine lengthOfLink loc name ≠ true := by
            intro hlisted
            obtain ⟨file, heq⟩ := entryFile_of_isListed base path hlisted
            rw [hfile] at heq
            cases heq
          rw [List.filter_cons_of_neg hnot]
          exact ih
      | some file =>
          obtain ⟨hpath, hlisted⟩ := entryFile_path hfile
          rw [List.filter_cons_of_pos hlisted, List.map_cons, List.map_cons, hpath]
          exact congrArg _ ih

theorem entriesIn_nodup (machine : Machine) (loc : Location) : (entriesIn machine loc).Nodup := by
  unfold entriesIn
  split
  · exact machine.files.names_nodup loc
  · exact List.nodup_nil

theorem isName_append (hpath : ∀ name ∈ path, IsName name) (hname : name ∈ entriesIn machine loc) :
    ∀ name' ∈ path ++ [name], IsName name' := by
  intro name' hmem
  rcases List.mem_append.mp hmem with hmem | hmem
  · exact hpath name' hmem
  · rw [List.mem_singleton.mp hmem]
    exact FileSystem.isName_of_mem_names (mem_names_of_entriesIn hname)

/-- No path is listed twice. -/
theorem paths_nodup {visited : List Location} (hvisited : visited.Nodup)
    (hnames : ∀ path ∈ visited, ∀ name ∈ path, IsName name)
    (hplaces : ∀ path ∈ visited, ∃ l, directoryAt machine (base ++ path) = some l) :
    ((visited.flatMap (listed machine lengthOfLink base)).map ProjectFile.path).Nodup := by
  rw [List.map_flatMap, List.nodup_flatMap]
  have happend : ∀ (path : Location) (name : Segment), path ++ [name] ≠ [] := fun path name =>
    List.append_ne_nil_of_right_ne_nil path (List.cons_ne_nil name [])
  constructor
  · intro path hpath
    obtain ⟨l, hl⟩ := hplaces path hpath
    rw [listed_paths hl]
    refine List.Nodup.map_on ?_ ((entriesIn_nodup machine l).filter _)
    intro name hname name' hname' heq
    have hjoin := intercalate_inj (isName_append (hnames path hpath) (List.mem_of_mem_filter hname))
      (isName_append (hnames path hpath) (List.mem_of_mem_filter hname')) (happend path name) (happend path name') heq
    exact (List.cons.inj (List.append_cancel_left hjoin)).1
  · refine hvisited.pairwise_of_forall_ne ?_
    intro path hpath path' hpath' hne
    obtain ⟨l, hl⟩ := hplaces path hpath
    obtain ⟨l', hl'⟩ := hplaces path' hpath'
    rw [Function.onFun, listed_paths hl, listed_paths hl']
    intro text htext htext'
    obtain ⟨name, hname, rfl⟩ := List.mem_map.mp htext
    obtain ⟨name', hname', heq⟩ := List.mem_map.mp htext'
    have hjoin := intercalate_inj (isName_append (hnames path' hpath') (List.mem_of_mem_filter hname'))
      (isName_append (hnames path hpath) (List.mem_of_mem_filter hname)) (happend path' name') (happend path name) heq
    exact hne (List.append_inj' hjoin rfl).1.symm

theorem subdirectories_nodup (path : Location) : (subdirectories machine base path).Nodup := by
  unfold subdirectories
  split
  · exact List.nodup_nil
  · next l hl =>
    refine (entriesIn_nodup machine l).filterMap ?_
    intro name name' entry hentry hentry'
    rw [Option.mem_def, entryPath] at hentry hentry'
    split at hentry
    · split at hentry'
      · rw [← hentry', Option.some.injEq] at hentry
        exact (List.cons.inj (List.append_cancel_left hentry)).1
      · cases hentry'
    · cases hentry

/-- The directory that a path of the project is in. -/
def parent (path : Location) : Option Location := if path = [] then none else some path.dropLast

theorem parent_of_mem {path' : Location} (h : path' ∈ subdirectories machine base path) : parent path' = some path := by
  cases hdir : directoryAt machine (base ++ path) with
  | none =>
      rw [subdirectories, hdir] at h
      cases h
  | some l =>
      obtain ⟨name, -, -, -, rfl⟩ := (mem_subdirectories hdir).mp h
      rw [parent, if_neg (List.append_ne_nil_of_right_ne_nil path (List.cons_ne_nil name [])), List.dropLast_concat]

/-- What is visited: the directories of the project that are reached, each once. -/
theorem visited_spec {visited : List Location}
    (h : Graph.visits (subdirectories machine base) n [[]] = some visited) : visited.Nodup ∧
      ∀ path, path ∈ visited ↔ ReflTransGen (fun a b => b ∈ subdirectories machine base a) [] path := by
  constructor
  · have hnodup : ([] ++ visited).Nodup :=
      Graph.visits_nodup parent (fun _ _ => parent_of_mem) subdirectories_nodup (by simp) (by simp [parent]) h
    simpa using hnodup
  · intro path
    simp [Graph.mem_visits h]

/-! ## Staying inside -/

variable (machine lengthOfLink) in
/-- None of the directories above a place, from the root's on, has an ignored name. -/
def NotUnderIgnored (r l : Location) : Prop := ∀ name ∈ (l.drop r.length).dropLast, name ∉ ignoredDirectories

end Walk

/-- The listing ends; its paths are distinct, and each leads to a place inside the root and not under an ignored
directory. -/
def ListsInside (root : ProjectRoot) : Prop :=
  ∃ n files, walk machine lengthOfLink root n = some files ∧ (files.map ProjectFile.path).Nodup ∧
    ∀ file ∈ files, ∃ r l, rootDirectory machine root = some r ∧ pathLocation machine root.text file.path = some l ∧
      r <+: l ∧ NotUnderIgnored r l

open Relation (ReflTransGen TransGen)

/-- An entry of a directory is listed. -/
def Lists (loc : Location) (name : Segment) : Prop :=
  name ∈ entriesIn machine loc ∧ isListed machine lengthOfLink loc name = true

/-- What is asked of the links that the walk comes by. -/
structure Tame (root : ProjectRoot) : Prop where
  /-- No directory is come back to from within. -/
  acyclic : ∀ r l, rootDirectory machine root = some r → ReflTransGen (Opens machine) r l → ¬TransGen (Opens machine) l l
  /-- A link that is listed leads to a place inside and not under an ignored directory. -/
  links : ∀ r l name target, rootDirectory machine root = some r → ReflTransGen (Opens machine) r l →
    Lists machine lengthOfLink l name → machine.files.item (l ++ [name]) = some (.link target) →
    ∃ l', machine.files.leadsBy false l name = some l' ∧ r <+: l' ∧ NotUnderIgnored r l'
  /-- A directory that has an ignored name and was come to all the same has nothing but links that are listed. -/
  ignored : ∀ r l own name, rootDirectory machine root = some r → ReflTransGen (Opens machine) r l →
    (l.drop r.length).getLast? = some own → own ∈ ignoredDirectories → Lists machine lengthOfLink l name →
    ∃ target, machine.files.item (l ++ [name]) = some (.link target)

section Inside

variable {machine lengthOfLink} {root : ProjectRoot} {r l l' : Location} {name : Segment}

variable (lengthOfLink) in
theorem lists_of_opens (h : Opens machine l l') :
    ∃ name, Lists machine lengthOfLink l name ∧ machine.files.leadsBy false l name = some l' := by
  obtain ⟨name, hname, hdir, hnot⟩ := h
  refine ⟨name, ⟨hname, ?_⟩, FileSystem.leadsBy_of_strict (directoryBy_eq_some.mp hdir).1⟩
  rw [isListed, hdir]
  exact decide_eq_true hnot

/-- An entry that is no link is where its name says. -/
theorem leadsBy_of_not_link (h : name ∈ entriesIn machine l)
    (hlink : ∀ target, machine.files.item (l ++ [name]) ≠ some (.link target)) :
    machine.files.leadsBy false l name = some (l ++ [name]) :=
  FileSystem.leadsBy_name (FileSystem.isName_of_mem_names (mem_names_of_entriesIn h)).isPlain (fun h => by cases h) hlink

theorem drop_snoc (h : r <+: l) (name : Segment) : (l ++ [name]).drop r.length = l.drop r.length ++ [name] :=
  List.drop_append_of_le_length h.length_le

theorem notUnderIgnored_snoc (h : r <+: l) : NotUnderIgnored r (l ++ [name]) ↔
    NotUnderIgnored r l ∧ ∀ own, (l.drop r.length).getLast? = some own → own ∉ ignoredDirectories := by
  unfold NotUnderIgnored
  rw [drop_snoc h, List.dropLast_concat]
  rcases List.eq_nil_or_concat (l.drop r.length) with hempty | ⟨rest, last, hlast⟩
  · simp [hempty]
  · rw [hlast, List.concat_eq_append, List.dropLast_concat, List.getLast?_concat]
    simp only [List.mem_append, List.mem_singleton, Option.some.injEq]
    constructor
    · intro hall
      refine ⟨fun name hname => hall name (.inl hname), ?_⟩
      rintro own rfl
      exact hall last (.inr rfl)
    · rintro ⟨hrest, hown⟩ name (hname | rfl)
      · exact hrest name hname
      · exact hown name rfl

/-- What is listed in a directory inside is inside. -/
theorem Tame.entry (htame : Tame machine lengthOfLink root) (hr : rootDirectory machine root = some r)
    (hreach : ReflTransGen (Opens machine) r l) (hinside : r <+: l) (hnot : NotUnderIgnored r l)
    (hlists : Lists machine lengthOfLink l name) :
    ∃ l', machine.files.leadsBy false l name = some l' ∧ r <+: l' ∧ NotUnderIgnored r l' := by
  by_cases hlink : ∃ target, machine.files.item (l ++ [name]) = some (.link target)
  · obtain ⟨target, hlink⟩ := hlink
    exact htame.links r l name target hr hreach hlists hlink
  · refine ⟨l ++ [name], leadsBy_of_not_link hlists.1 (not_exists.mp hlink), hinside.trans (List.prefix_append _ _), ?_⟩
    refine (notUnderIgnored_snoc hinside).mpr ⟨hnot, fun own hown hignored => ?_⟩
    exact hlink (htame.ignored r l own name hr hreach hown hignored hlists)

/-- Every directory that is come to is inside. -/
theorem Tame.directory (htame : Tame machine lengthOfLink root) (hr : rootDirectory machine root = some r)
    (hreach : ReflTransGen (Opens machine) r l) : r <+: l ∧ NotUnderIgnored r l := by
  induction hreach with
  | refl => exact ⟨List.prefix_rfl, by simp [NotUnderIgnored]⟩
  | tail hreach hopens ih =>
      obtain ⟨name, hlists, hleads⟩ := lists_of_opens lengthOfLink hopens
      obtain ⟨l', hleads', hinside⟩ := htame.entry hr hreach ih.1 ih.2 hlists
      rw [hleads] at hleads'
      cases hleads'
      exact hinside

/-- Where a listed path leads. -/
theorem pathLocation_entry {path : Location} (hpath : ∀ name ∈ path, IsName name)
    (hdir : directoryAt machine (ProjectPaths.rootNames machine.working root.text ++ path) = some l)
    (hname : name ∈ entriesIn machine l) :
    pathLocation machine root.text (['/'].intercalate (path ++ [name])) = machine.files.leadsBy false l name := by
  have hnames := isName_append hpath hname
  have hleads := FileSystem.leads_of_strict (directoryAt_eq_some.mp hdir).1
  rw [pathLocation, location, if_neg (nul_not_mem_intercalate hnames),
    namesIn_intercalate hnames (List.append_ne_nil_of_right_ne_nil path (List.cons_ne_nil name [])), ← List.append_assoc,
    FileSystem.leads_snoc, hleads, Option.bind_some]

theorem directoryAt_of_rootDirectory (h : rootDirectory machine root = some r) :
    directoryAt machine (ProjectPaths.rootNames machine.working root.text) = some r := by
  unfold rootDirectory at h
  split at h
  · cases h
  · exact h

variable (machine root) in
/-- A directory of the project that the walk comes to, and where it is. -/
def Visits (path l : Location) : Prop :=
  ReflTransGen (fun a b => b ∈ subdirectories machine (ProjectPaths.rootNames machine.working root.text) a) [] path ∧
    directoryAt machine (ProjectPaths.rootNames machine.working root.text ++ path) = some l

theorem Visits.isName {path : Location} (h : Visits machine root path l) : ∀ name ∈ path, IsName name :=
  isName_of_reached h.1 fun _ hname => (List.not_mem_nil hname).elim

theorem visits_of_reached (hr : rootDirectory machine root = some r) (h : ReflTransGen (Opens machine) r l) :
    ∃ path, Visits machine root path l :=
  mem_of_reached (by rw [List.append_nil]; exact directoryAt_of_rootDirectory hr) h

theorem Visits.reached {path : Location} (hr : rootDirectory machine root = some r) (h : Visits machine root path l) :
    ReflTransGen (Opens machine) r l := by
  obtain ⟨l', hl', hreach⟩ := reached_of_mem (by rw [List.append_nil]; exact directoryAt_of_rootDirectory hr) h.1
  rw [h.2] at hl'
  cases hl'
  exact hreach

/-- What a listing has that ended. -/
theorem mem_walk {n : Nat} {files : List ProjectFile} (hr : rootDirectory machine root = some r)
    (h : walk machine lengthOfLink root n = some files) : (files.map ProjectFile.path).Nodup ∧
      ∀ text, text ∈ files.map ProjectFile.path ↔ ∃ path l name, Visits machine root path l ∧
        Lists machine lengthOfLink l name ∧ text = ['/'].intercalate (path ++ [name]) := by
  have hstart : directoryAt machine (ProjectPaths.rootNames machine.working root.text ++ []) = some r := by
    rw [List.append_nil]
    exact directoryAt_of_rootDirectory hr
  rw [walk, hr] at h
  dsimp only at h
  rw [walkLoop_eq, Option.map_map] at h
  obtain ⟨visited, hvisits, rfl⟩ := Option.map_eq_some_iff.mp h
  obtain ⟨hnodup, hvisited⟩ := visited_spec hvisits
  have hplaces : ∀ path ∈ visited, ∃ l, Visits machine root path l := by
    intro path hpath
    obtain ⟨l, hl, -⟩ := reached_of_mem hstart ((hvisited path).mp hpath)
    exact ⟨l, (hvisited path).mp hpath, hl⟩
  rw [Function.comp_apply, List.nil_append]
  have hperm := (Ordinal.sortBy_perm ProjectFile.path (visited.flatMap
    (listed machine lengthOfLink (ProjectPaths.rootNames machine.working root.text)))).map ProjectFile.path
  constructor
  · rw [hperm.nodup_iff]
    refine paths_nodup hnodup (fun path hpath => ?_) fun path hpath => (hplaces path hpath).imp fun _ h => h.2
    obtain ⟨l, hl⟩ := hplaces path hpath
    exact hl.isName
  · intro text
    rw [hperm.mem_iff, List.map_flatMap, List.mem_flatMap]
    constructor
    · rintro ⟨path, hpath, htext⟩
      obtain ⟨l, hl⟩ := hplaces path hpath
      rw [listed_paths hl.2] at htext
      obtain ⟨name, hname, rfl⟩ := List.mem_map.mp htext
      exact ⟨path, l, name, hl, List.mem_filter.mp hname, rfl⟩
    · rintro ⟨path, l, name, hl, hlists, rfl⟩
      refine ⟨path, (hvisited path).mpr hl.1, ?_⟩
      rw [listed_paths hl.2]
      exact List.mem_map.mpr ⟨name, List.mem_filter.mpr hlists, rfl⟩

variable (lengthOfLink) in
theorem walk_isSome_iff (hr : rootDirectory machine root = some r) :
    (∃ n files, walk machine lengthOfLink root n = some files) ↔
      ∀ l, ReflTransGen (Opens machine) r l → ¬TransGen (Opens machine) l l := by
  rw [← exists_walkLoop_iff lengthOfLink (directoryAt_of_rootDirectory hr)]
  apply exists_congr
  intro n
  rw [walk, hr]
  simp only [Option.map_eq_some_iff]
  constructor
  · rintro ⟨files, found, hfound, -⟩
    exact ⟨found, hfound⟩
  · rintro ⟨found, hfound⟩
    exact ⟨_, found, hfound, rfl⟩

/-- **A listing ends and stays inside just where the links that it comes by let it**. -/
theorem listing_iff : ListsInside machine lengthOfLink root ↔ Tame machine lengthOfLink root := by
  cases hr : rootDirectory machine root with
  | none =>
      refine iff_of_true ⟨0, [], by rw [walk, hr], List.nodup_nil, fun file hfile => by cases hfile⟩ ?_
      exact ⟨fun r l h => by simp [hr] at h, fun r l name target h => by simp [hr] at h,
        fun r l own name h => by simp [hr] at h⟩
  | some r =>
      constructor
      · rintro ⟨n, files, hwalk, -, hinside⟩
        have hacyclic := (walk_isSome_iff lengthOfLink hr).mp ⟨n, files, hwalk⟩
        obtain ⟨-, hmem⟩ := mem_walk hr hwalk
        have hentry : ∀ l name, ReflTransGen (Opens machine) r l → Lists machine lengthOfLink l name →
            ∃ l', machine.files.leadsBy false l name = some l' ∧ r <+: l' ∧ NotUnderIgnored r l' := by
          intro l name hreach hlists
          obtain ⟨path, hvisits⟩ := visits_of_reached hr hreach
          obtain ⟨file, hfile, hpath⟩ := List.mem_map.mp ((hmem _).mpr ⟨path, l, name, hvisits, hlists, rfl⟩)
          obtain ⟨r', l', hr', hl', hrl, hnot⟩ := hinside file hfile
          rw [hr] at hr'
          cases hr'
          rw [hpath, pathLocation_entry hvisits.isName hvisits.2 hlists.1] at hl'
          exact ⟨l', hl', hrl, hnot⟩
        refine ⟨fun r' l hr' => ?_, fun r' l name target hr' hreach hlists _ => ?_,
          fun r' l own name hr' hreach hown hignored hlists => ?_⟩
        · rw [hr] at hr'
          cases hr'
          exact hacyclic l
        · rw [hr] at hr'
          cases hr'
          exact hentry l name hreach hlists
        · rw [hr] at hr'
          cases hr'
          by_contra hlink
          obtain ⟨l', hl', hrl, hnot⟩ := hentry l name hreach hlists
          rw [leadsBy_of_not_link hlists.1 (not_exists.mp hlink)] at hl'
          cases hl'
          have hlength : r.length < l.length := by
            by_contra hle
            rw [List.drop_eq_nil_of_le (Nat.le_of_not_lt hle)] at hown
            cases hown
          have hbegins : r <+: l :=
            List.prefix_of_prefix_length_le hrl (List.prefix_append l [name]) hlength.le
          exact ((notUnderIgnored_snoc hbegins).mp hnot).2 own hown hignored
      · intro htame
        obtain ⟨n, files, hwalk⟩ := (walk_isSome_iff lengthOfLink hr).mpr fun l => htame.acyclic r l hr
        obtain ⟨hnodup, hmem⟩ := mem_walk hr hwalk
        refine ⟨n, files, hwalk, hnodup, fun file hfile => ?_⟩
        obtain ⟨path, l, name, hvisits, hlists, hpath⟩ := (hmem _).mp (List.mem_map_of_mem hfile)
        have hreach := hvisits.reached hr
        obtain ⟨hinside, hnot⟩ := htame.directory hr hreach
        obtain ⟨l', hl', hrl, hnot'⟩ := htame.entry hr hreach hinside hnot hlists
        refine ⟨r, l', hr, ?_, hrl, hnot'⟩
        rw [hpath, pathLocation_entry hvisits.isName hvisits.2 hlists.1, hl']

end Inside

/-! ## Links out of the project and back into it -/

/-- The directory `/p`. -/
def projectP : ProjectRoot := ⟨"/p".toList, by decide⟩

/-- A project whose directory `x` is a link to the project. -/
def linkedBack : Machine where
  files :=
    { items := [(["p".toList], .directory true), (["p".toList, "x".toList], .link (pathOf "/p".toList))]
      nodup := by decide
      named := by decide
      placed := by decide }
  working := ⟨[], isNames_nil⟩

/-- A link out of the project is listed as a directory of it, and one to the project is followed for ever. -/
theorem links_are_followed : ¬ListsInside linkedOut (fun _ => none) projectP ∧
    ∀ n, walk linkedBack (fun _ => none) projectP n = none := by
  constructor
  · rintro ⟨n, files, hwalk, -, hinside⟩
    have hr : rootDirectory linkedOut projectP = some ["p".toList] := by decide +kernel
    have hvisits : Visits linkedOut projectP [] ["p".toList] := ⟨.refl, by decide +kernel⟩
    have hlists : Lists linkedOut (fun _ => none) ["p".toList] "x".toList := ⟨by decide +kernel, by decide +kernel⟩
    obtain ⟨file, hfile, hpath⟩ := List.mem_map.mp (((mem_walk hr hwalk).2 _).mpr ⟨_, _, _, hvisits, hlists, rfl⟩)
    obtain ⟨r, l, hr', hl, hrl, -⟩ := hinside file hfile
    have hplace : pathLocation linkedOut projectP.text (['/'].intercalate ([] ++ ["x".toList])) = some ["s".toList] := by
      decide +kernel
    rw [hpath, hplace] at hl
    rw [hr] at hr'
    cases hr'
    cases hl
    revert hrl
    decide +kernel
  · intro n
    have hr : rootDirectory linkedBack projectP = some ["p".toList] := by decide +kernel
    have hback : Opens linkedBack ["p".toList] ["p".toList] :=
      ⟨"x".toList, by decide +kernel, by decide +kernel, by decide +kernel⟩
    cases hwalk : walk linkedBack (fun _ => none) projectP n with
    | none => rfl
    | some files => exact absurd (.single hback) ((walk_isSome_iff _ hr).mp ⟨n, files, hwalk⟩ _ .refl)

end ProjectService

end AtlasFlow
