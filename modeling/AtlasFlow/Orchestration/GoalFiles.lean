import Mathlib.Data.List.Perm.Basic
import AtlasFlow.Data.Attempts
import AtlasFlow.Data.Ordinal
import AtlasFlow.Orchestration.GoalLoader
import AtlasFlow.Orchestration.ProjectPaths

/-!
# The goal files of a project

What a process sees on a disk: under every full path a file, a link that leads nowhere, or a directory, with links
followed on the way. `Manifest.readFile` takes a file to a manifest or to the reason why it is none, and
`GoalLoader.load` reads every goal file of a project, once for each signature of the files. What YAML makes of a text
and what the platform says of a path it cannot read are data of the host.
-/

namespace AtlasFlow

open LinkedFiles PathText

/-! ## A disk as it shows -/

inductive Shown
  /-- A file with its text, if it may be read. -/
  | file (text : Option String)
  | dangling
  | directory (isListable : Bool)
  deriving DecidableEq

def Shown.isDirectory : Shown → Bool
  | .directory _ => true
  | _ => false

/-- What is at a location; the root is a directory. -/
def shownAt (items : Dict Location Shown) (loc : Location) : Option Shown :=
  if loc = [] then some (.directory true) else items.get? loc

/-- A disk with everything in a directory, and what is not the program's. -/
structure Host where
  items : Dict Location Shown
  nodup : items.keys.Nodup
  named : ∀ loc ∈ items.keys, loc ≠ [] ∧ ∀ name ∈ loc, IsName name
  placed : ∀ loc ∈ items.keys, (shownAt items loc.dropLast).any Shown.isDirectory = true
  working : Working
  /-- Whether names match patterns in any case. -/
  ignoresCase : Bool
  /-- The message of an exception for a path. -/
  refusal : List Char → String
  /-- The ticks of the last write, if the platform tells. -/
  lastWrite : List Char → Option Int
  /-- The root nodes of the documents in a text. -/
  yaml : String → Except String (List Yaml.Node)

namespace Host

variable (host : Host)

def shown (path : List Char) : Option Shown := shownAt host.items (namesIn [] path)

/-- `File.Exists`. -/
def fileExists (path : List Char) : Bool :=
  match host.shown path with
  | some (.file _) => true
  | _ => false

/-- `Directory.Exists`. -/
def directoryExists (path : List Char) : Bool := (host.shown path).any Shown.isDirectory

/-- `File.ReadAllText`. -/
def readAllText (path : List Char) : Except String String :=
  match host.shown path with
  | some (.file (some text)) => .ok text
  | _ => .error (host.refusal path)

/-- A name that matches `*.yaml`. -/
def isYaml (name : Segment) : Bool :=
  let ending := name.drop (name.length - 5)
  if host.ignoresCase then EnumText.equalsIgnoreCase ending ".yaml".toList else ending = ".yaml".toList

/-- The locations in a directory and in those below it, which is one of them. -/
def within (loc : Location) : List Location := loc :: host.items.keys.filter fun key => loc <+: key && key ≠ loc

/-- A directory that must not be listed. -/
def isClosed (loc : Location) : Bool := shownAt host.items loc = some (.directory false)

/-- What is no directory and has a name that matches. -/
def isYamlFile (loc : Location) : Bool :=
  !(shownAt host.items loc).any Shown.isDirectory && host.isYaml (loc.getLast?.getD [])

/-- `Directory.EnumerateFiles(directory, "*.yaml", SearchOption.AllDirectories)`, unless it throws. -/
def enumerateFiles (directory : List Char) : Option (List (List Char)) :=
  let loc := namesIn [] directory
  if (host.within loc).any host.isClosed then none
  else some (((host.within loc).filter host.isYamlFile).map fun key => directory ++ slashed (key.drop loc.length))

end Host

/-! ## Manifests -/

/-- `Path.GetFileName`. -/
def getFileName (path : List Char) : List Char := (path.splitOn '/').getLast?.getD []

/-- `Read`, from what `File.ReadAllText` gives. -/
def Manifest.ofText (yaml : String → Except String (List Yaml.Node)) (path : List Char) (text : Except String String) :
    Except String Manifest :=
  let name := String.ofList (getFileName path)
  match text with
  | .error message => .error s!"Could not read {name}: {message}"
  | .ok text =>
    match yaml text with
    | .error message => .error s!"Could not read {name}: {message}"
    | .ok documents => Manifest.read name documents.head?

/-- `Read`. -/
def Manifest.readFile (host : Host) (path : List Char) : Except String Manifest :=
  Manifest.ofText host.yaml path (host.readAllText path)

namespace GoalLoader

/-! ## Loading -/

inductive Thrown
  | argument
  /-- What `EnumerateFiles` throws. -/
  | unlisted
  | goalLoad (message : String)
  deriving DecidableEq, Repr

def goalsDirectory : List Char := ".ai/goals".toList

/-- `OrderBy(goal => goal.Phase, …).ThenBy(goal => goal.Id.Value, …)`. -/
def sorted (goals : List LoadedGoal) : List LoadedGoal :=
  Ordinal.sortBy (fun goal => goal.phase.toList) (Ordinal.sortBy (fun goal => goal.id.value.toList) goals)

theorem sorted_perm (goals : List LoadedGoal) : (sorted goals).Perm goals :=
  (Ordinal.sortBy_perm _ _).trans (Ordinal.sortBy_perm _ _)

/-- A path and the ticks of its last write, for each goal file. -/
abbrev Signature := List (List Char × Int)

structure CacheEntry where
  signature : Signature
  goals : List LoadedGoal

/-- `_cache`. -/
abbrev Cache := Dict (List Char) CacheEntry

section

variable (host : Host)

/-- `GoalFiles`. -/
def goalFiles (directory : List Char) : Except Thrown (List (List Char)) :=
  match host.enumerateFiles directory with
  | none => .error .unlisted
  | some files => .ok (Ordinal.sortBy id files)

/-- `Signature.Of`. -/
def signatureOf (root : List Char) : Except Thrown Signature :=
  let directory := combine root goalsDirectory
  if host.directoryExists directory then do
    let files ← goalFiles host directory
    return files.map fun path => (path, (host.lastWrite path).getD (-1))
  else return []

/-- `ReadOne`, of a file. -/
def readFile (path : List Char) : Except String LoadedGoal :=
  readOne (String.ofList path) (Manifest.readFile host path)

/-- `Read`. -/
def read (root : List Char) : Except Thrown (List LoadedGoal) :=
  let directory := combine root goalsDirectory
  if host.directoryExists directory then do
    let files ← goalFiles host directory
    let goals ← (files.mapM (readFile host)).mapError .goalLoad
    return sorted goals
  else .error (.goalLoad s!"Goals directory not found: {String.ofList directory}")

/-- What both take a text for that is to be the root of a project. -/
def resolve (projectRoot : List Char) : Option (List Char) :=
  if projectRoot.all EnumText.isWhiteSpace then none
  else (ProjectPaths.getFullPath host.working.directory projectRoot).toOption

/-- `Load`, with what is left in `_cache`. -/
def load (cache : Cache) (projectRoot : List Char) : Except Thrown (List LoadedGoal) × Cache :=
  match resolve host projectRoot with
  | none => (.error .argument, cache)
  | some root =>
    match signatureOf host root with
    | .error thrown => (.error thrown, cache)
    | .ok signature =>
      match (cache.get? root).filter fun cached => cached.signature = signature with
      | some cached => (.ok cached.goals, cache)
      | none =>
        match read host root with
        | .error thrown => (.error thrown, cache)
        | .ok goals => (.ok goals, cache.set root ⟨signature, goals⟩)

/-- `_cache` of a new loader, after so many calls of `Load`. -/
def cacheAfter (projectRoot : List Char) : Nat → Cache
  | 0 => []
  | n + 1 => (load host (cacheAfter projectRoot n) projectRoot).2

end

/-! ## What makes a file a goal -/

variable {host : Host} {path root projectRoot : List Char}

/-- The texts of the states. -/
def states : List String := ["PLANNED", "READY", "ACTIVE", "BLOCKED", "DONE", "CANCELLED"]

/-- A mapping with an id and a known state. -/
structure IsGoal (manifest : Manifest) : Prop where
  id : ∃ id, manifest.text "id" = some id
  state : ∃ state ∈ states, manifest.text "state" = some state

/-- A file that can be read and holds such a mapping. -/
def IsGoalFile (host : Host) (path : List Char) : Prop :=
  ∃ manifest, Manifest.readFile host path = .ok manifest ∧ IsGoal manifest

theorem parseState_ok (declared : Option String) (place : String) :
    (∃ state, parseState declared place = .ok state) ↔ ∃ state ∈ states, declared = some state := by
  unfold parseState states
  split <;> simp_all

theorem readOne_ok_iff {place : String} {manifest : Manifest} :
    (∃ goal, readOne place (.ok manifest) = .ok goal) ↔ IsGoal manifest := by
  have hsplit : IsGoal manifest ↔ (∃ id, manifest.text "id" = some id) ∧
      ∃ state ∈ states, manifest.text "state" = some state :=
    ⟨fun h => ⟨h.id, h.state⟩, fun h => ⟨h.1, h.2⟩⟩
  rw [hsplit, ← parseState_ok _ place]
  unfold readOne
  dsimp only
  cases manifest.text "id" with
  | none => simp
  | some id =>
      dsimp only
      cases parseState (manifest.text "state") place <;> simp [Except.map]

theorem readFile_ok_iff : (∃ goal, readFile host path = .ok goal) ↔ IsGoalFile host path := by
  unfold readFile IsGoalFile
  cases Manifest.readFile host path with
  | error error => simp [readOne]
  | ok manifest =>
      rw [readOne_ok_iff]
      simp

/-! ## When goals are loaded -/

/-- Every directory from the one for goals on may be listed, and every file that is listed is a goal. -/
def Loadable (host : Host) (root : List Char) : Prop :=
  ∃ files, host.enumerateFiles (combine root goalsDirectory) = some files ∧ ∀ path ∈ files, IsGoalFile host path

/-- The goals are those of the files, one for each. -/
def AreGoalsOf (host : Host) (root : List Char) (goals : List LoadedGoal) : Prop :=
  ∃ files read, host.enumerateFiles (combine root goalsDirectory) = some files ∧
    List.Forall₂ (fun path goal => readFile host path = .ok goal) files read ∧ goals.Perm read

theorem goalFiles_ok {directory : List Char} {files : List (List Char)} (h : goalFiles host directory = .ok files) :
    ∃ listed, host.enumerateFiles directory = some listed ∧ files.Perm listed := by
  unfold goalFiles at h
  cases hlisted : host.enumerateFiles directory with
  | none =>
      rw [hlisted] at h
      cases h
  | some listed =>
      rw [hlisted] at h
      cases h
      exact ⟨listed, rfl, Ordinal.sortBy_perm _ _⟩

theorem of_mapError_ok {ε ε' α : Type} {f : ε → ε'} {x : Except ε α} {a : α} (h : x.mapError f = .ok a) : x = .ok a := by
  cases x with
  | error e => cases h
  | ok b =>
      cases h
      rfl

/-- What is read is the goals of the files. -/
theorem read_ok {goals : List LoadedGoal} (h : read host root = .ok goals) : AreGoalsOf host root goals := by
  unfold read at h
  dsimp only at h
  split at h
  · obtain ⟨files, hfiles, h⟩ := Attempts.of_bind_ok h
    obtain ⟨inOrder, hread, h⟩ := Attempts.of_bind_ok h
    cases h
    obtain ⟨listed, hlisted, hperm⟩ := goalFiles_ok hfiles
    have hgoals := Attempts.forall₂_of_mapM_ok (of_mapError_ok hread)
    obtain ⟨read, hall, hread⟩ := List.perm_comp_forall₂ hperm.symm hgoals
    exact ⟨listed, read, hlisted, hall, (sorted_perm inOrder).trans hread.symm⟩
  · cases h

theorem AreGoalsOf.loadable {goals : List LoadedGoal} (h : AreGoalsOf host root goals) : Loadable host root := by
  obtain ⟨files, read, hlisted, hall, -⟩ := h
  refine ⟨files, hlisted, fun path hpath => readFile_ok_iff.mp ?_⟩
  obtain ⟨n, hn, rfl⟩ := List.getElem_of_mem hpath
  exact ⟨_, hall.get hn (hall.length_eq ▸ hn)⟩

/-- **A project's goals are read** iff it has a directory for them that is loadable. -/
theorem exists_read_ok : (∃ goals, read host root = .ok goals) ↔
    host.directoryExists (combine root goalsDirectory) = true ∧ Loadable host root := by
  constructor
  · rintro ⟨goals, h⟩
    refine ⟨?_, (read_ok h).loadable⟩
    by_contra hdir
    unfold read at h
    rw [if_neg hdir] at h
    cases h
  · rintro ⟨hdir, files, hlisted, hgoals⟩
    have hall : ∀ path ∈ Ordinal.sortBy id files, ∃ goal, readFile host path = .ok goal :=
      fun path hpath => readFile_ok_iff.mpr (hgoals path (Ordinal.mem_sortBy.mp hpath))
    obtain ⟨goals, hread⟩ := Attempts.exists_mapM_ok.mpr hall
    refine ⟨sorted goals, ?_⟩
    unfold read goalFiles
    rw [if_pos hdir, hlisted]
    show ((Ordinal.sortBy id files).mapM (readFile host)).mapError _ >>= _ = _
    rw [hread]
    rfl

/-- What `Read` can list, so can `Signature.Of`. -/
theorem signatureOf_ok {goals : List LoadedGoal} (h : read host root = .ok goals) :
    ∃ signature, signatureOf host root = .ok signature := by
  obtain ⟨hdir, files, hlisted, -⟩ := exists_read_ok.mp ⟨goals, h⟩
  unfold signatureOf goalFiles
  rw [if_pos hdir, hlisted]
  exact ⟨_, rfl⟩

/-! ## Calls of `Load`, while the disk stays as it is -/

/-- What a loader of this disk has in its cache for a project. -/
def Cached (host : Host) (cache : Cache) (root : List Char) : Prop :=
  ∀ entry, cache.get? root = some entry → read host root = .ok entry.goals

theorem load_of_cached {cache : Cache} (hroot : resolve host projectRoot = some root) (h : Cached host cache root) :
    (load host cache projectRoot).1 = (signatureOf host root >>= fun _ => read host root) ∧
      Cached host (load host cache projectRoot).2 root := by
  unfold load
  rw [hroot]
  dsimp only
  cases hsignature : signatureOf host root with
  | error thrown => exact ⟨rfl, h⟩
  | ok signature =>
      dsimp only
      cases hcached : (cache.get? root).filter fun cached => cached.signature = signature with
      | some cached =>
          obtain ⟨hget, -⟩ := Option.filter_eq_some_iff.mp hcached
          exact ⟨(h cached hget).symm, h⟩
      | none =>
          dsimp only
          cases hread : read host root with
          | error thrown => exact ⟨rfl, h⟩
          | ok goals =>
              refine ⟨rfl, fun entry hentry => ?_⟩
              rw [Dict.get?_set, if_pos rfl] at hentry
              cases hentry
              exact hread

theorem cached_cacheAfter (hroot : resolve host projectRoot = some root) (n : Nat) :
    Cached host (cacheAfter host projectRoot n) root := by
  induction n with
  | zero =>
      intro entry hentry
      cases hentry
  | succ n ih => exact (load_of_cached hroot ih).2

/-- **Every call of `Load` answers what reading the files gives.** -/
theorem load_cacheAfter_ok (hroot : resolve host projectRoot = some root) (n : Nat) {goals : List LoadedGoal} :
    (load host (cacheAfter host projectRoot n) projectRoot).1 = .ok goals ↔ read host root = .ok goals := by
  rw [(load_of_cached hroot (cached_cacheAfter hroot n)).1]
  constructor
  · intro h
    obtain ⟨_, -, h⟩ := Attempts.of_bind_ok h
    exact h
  · intro h
    obtain ⟨signature, hsignature⟩ := signatureOf_ok h
    rw [hsignature]
    exact h

end GoalLoader

end AtlasFlow
