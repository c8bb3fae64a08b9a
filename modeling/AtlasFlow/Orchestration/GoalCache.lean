import AtlasFlow.Concurrency.Promises
import AtlasFlow.Orchestration.GoalFiles

/-!
# The cache of goals, while files change

`GoalLoader.Load`, called by several threads while goal files are created, edited and deleted. A call looks at the disk
at many moments: it lists the files and asks for the time of each, and where the cache has no entry with this signature
it lists them again, reads each, and stores the goals under the signature that it took at first.

A time that a file had never comes back, so what an entry holds of a file that its signature has with a time is what the
file had while the signature was taken, or later. Of a file that the signature lacks there is no such evidence: it has
been created since, and once it is deleted the signature is right again. `load_gives_what_was` says that nothing else
goes wrong.

Of the host only what does not change is used here: how names match, what YAML makes of a text, what the platform says
of a path that it cannot read. What directory a path is in is part of the path, and a directory is there with its files.
-/

namespace AtlasFlow.GoalLoader

namespace Shared

open Concurrency (guard_eq_some)
open PathText

abbrev Path := List Char

/-- `GetLastWriteTimeUtc` of no file: the first of January of 1601. -/
def noFile : Int := 504911232000000000

/-- A goal file: its text, if it may be read, and the ticks of its last write, by which it is there. -/
structure File where
  text : Option String
  ticks : Int
  later : noFile < ticks
  deriving DecidableEq

abbrev Files := Dict Path File

/-- What a goal was read from, and when. -/
structure Source where
  path : Path
  file : File
  moment : Nat
  deriving DecidableEq

/-- An entry of the cache, with what its goals were read from. -/
structure Entry extends CacheEntry where
  sources : List Source

/-- Where a call of `Load` is. -/
inductive Phase
  /-- `Signature.Of` enumerates the files. -/
  | listing
  /-- It asks for the times of these. -/
  | stamping (todo : List Path) (signature : Signature)
  /-- `Read` enumerates the files, from a moment on. -/
  | relisting (signature : Signature) (since : Nat)
  | reading (signature : Signature) (todo : List Path) (sources : List Source) (goals : List LoadedGoal)
  | returned (goals : List LoadedGoal) (ended : Nat)
  | thrown

def Phase.isOver : Phase → Bool
  | .returned .. | .thrown => true
  | _ => false

structure Call where
  root : Path
  began : Nat
  phase : Phase

/-- The goal files at every moment up to now. -/
structure Disk where
  now : Nat := 0
  files : Nat → Files

structure State extends Disk where
  /-- `_cache`. -/
  cache : Dict Path Entry := []
  calls : Nat → Option Call := fun _ => none

inductive Event
  | call (id : Nat) (projectRoot : Path)
  /-- What the enumeration of `Signature.Of` gives. -/
  | list (id : Nat) (paths : List Path)
  /-- The time of a file, or an exception that is caught. -/
  | stamp (id : Nat) (isDenied : Bool)
  | look (id : Nat)
  | relist (id : Nat) (paths : List Path)
  | read (id : Nat)
  | store (id : Nat)
  /-- An exception of the platform. -/
  | throw (id : Nat)
  /-- A file is created or edited, or deleted. -/
  | change (path : Path) (file : Option File)
  | forget
  deriving DecidableEq

section

variable (host : Host)

/-- A path that `EnumerateFiles(directory, "*.yaml", SearchOption.AllDirectories)` gives if a file is there. -/
def isGoalFile (root path : Path) : Bool :=
  (combine root goalsDirectory ++ ['/']).isPrefixOf path && host.isYaml (getFileName path)

namespace Disk

variable (d : Disk)

def file (n : Nat) (path : Path) : Option File := (d.files n).get? path

/-- The moments from one on. -/
def moments (since : Nat) : List Nat := List.range' since (d.now + 1 - since)

/-- What an enumeration since a moment can give: goal files that were there at some moment of it, each once, and all
that were there the whole time. -/
def Lists (root : Path) (since : Nat) (paths : List Path) : Prop :=
  paths.Nodup ∧
    (∀ path ∈ paths, isGoalFile host root path = true ∧ ∃ n ∈ d.moments since, d.file n path ≠ none) ∧
    ∀ path ∈ (d.files since).keys, isGoalFile host root path = true →
      (∀ n ∈ d.moments since, d.file n path ≠ none) → path ∈ paths

instance (root : Path) (since : Nat) (paths : List Path) : Decidable (d.Lists host root since paths) :=
  inferInstanceAs (Decidable (_ ∧ _ ∧ _))

/-- The time of a file is none that it had before. -/
def IsFresh (path : Path) (file : Option File) : Prop :=
  ∀ new ∈ file, ∀ n ∈ d.moments 0, ∀ old ∈ d.file n path, old.ticks ≠ new.ticks

instance (path : Path) (file : Option File) : Decidable (d.IsFresh path file) := by
  unfold IsFresh
  infer_instance

/-- A file is written, or deleted. -/
def changeFile (path : Path) (file : Option File) : Disk where
  now := d.now + 1
  files := Function.update d.files (d.now + 1)
    (match file with
    | some file => (d.files d.now).set path file
    | none => (d.files d.now).pop path)

end Disk

def State.setCall (s : State) (id : Nat) (call : Call) : State :=
  { s with calls := Function.update s.calls id (some call) }

/-- `ReadOne`, of a file as it is. -/
def goalOfFile (path : Path) (file : File) : Except String LoadedGoal :=
  readOne (String.ofList path) (Manifest.ofText host.yaml path
    (match file.text with
    | some text => .ok text
    | none => .error (host.refusal path)))

/-- A step, if this can happen. -/
def step (s : State) : Event → Option State
  | .call id projectRoot =>
    match s.calls id with
    | some _ => none
    | none =>
      match resolve host projectRoot with
      | none => some (s.setCall id ⟨projectRoot, s.now, .thrown⟩)
      | some root => some (s.setCall id ⟨root, s.now, .listing⟩)
  | .list id paths =>
    match s.calls id with
    | some ⟨root, began, .listing⟩ =>
      if s.Lists host root began paths then
        some (s.setCall id ⟨root, began, .stamping (Ordinal.sortBy (fun path => path) paths) []⟩)
      else none
    | _ => none
  | .stamp id isDenied =>
    match s.calls id with
    | some ⟨root, began, .stamping (path :: todo) signature⟩ =>
      let ticks := if isDenied then -1 else ((s.file s.now path).map File.ticks).getD noFile
      some (s.setCall id ⟨root, began, .stamping todo (signature ++ [(path, ticks)])⟩)
    | _ => none
  | .look id =>
    match s.calls id with
    | some ⟨root, began, .stamping [] signature⟩ =>
      match (s.cache.get? root).filter fun cached => cached.signature = signature with
      | some cached => some (s.setCall id ⟨root, began, .returned cached.goals s.now⟩)
      | none => some (s.setCall id ⟨root, began, .relisting signature s.now⟩)
    | _ => none
  | .relist id paths =>
    match s.calls id with
    | some ⟨root, began, .relisting signature since⟩ =>
      if s.Lists host root since paths then
        some (s.setCall id ⟨root, began, .reading signature (Ordinal.sortBy (fun path => path) paths) [] []⟩)
      else none
    | _ => none
  | .read id =>
    match s.calls id with
    | some ⟨root, began, .reading signature (path :: todo) sources goals⟩ =>
      match s.file s.now path with
      | none => some (s.setCall id ⟨root, began, .thrown⟩)
      | some file =>
        match goalOfFile host path file with
        | .error _ => some (s.setCall id ⟨root, began, .thrown⟩)
        | .ok goal =>
          let sources := sources ++ [⟨path, file, s.now⟩]
          some (s.setCall id ⟨root, began, .reading signature todo sources (goals ++ [goal])⟩)
    | _ => none
  | .store id =>
    match s.calls id with
    | some ⟨root, began, .reading signature [] sources goals⟩ =>
      let entry := { signature, goals := sorted goals, sources }
      some { s.setCall id ⟨root, began, .returned (sorted goals) s.now⟩ with cache := s.cache.set root entry }
    | _ => none
  | .throw id =>
    match s.calls id with
    | some ⟨root, began, phase⟩ => if phase.isOver then none else some (s.setCall id ⟨root, began, .thrown⟩)
    | none => none
  | .change path file => if s.IsFresh path file then some { s with toDisk := s.changeFile path file } else none
  | .forget => some { s with cache := [] }

/-! ## What is promised -/

/-- The goals were read from files that were there, as they were, at some moment from one to another. -/
def WereThere (d : Disk) (root : Path) (began ended : Nat) (goals : List LoadedGoal) : Prop :=
  ∃ (sources : List (Path × File)) (read : List LoadedGoal),
    List.Forall₂ (fun source goal => goalOfFile host source.1 source.2 = .ok goal) sources read ∧
      goals = sorted read ∧
      ∀ source ∈ sources, isGoalFile host root source.1 = true ∧
        ∃ n, began ≤ n ∧ n ≤ ended ∧ d.file n source.1 = some source.2

/-- Every call that has returned gave goals of files as they were during the call. -/
def Good (s : State) : Prop :=
  ∀ id root began goals ended, s.calls id = some ⟨root, began, .returned goals ended⟩ →
    WereThere host s.toDisk root began ended goals

/-- The cache is changed by no step of a call but the one that ends it with its goals, and what is over stays as it is.
So a call that throws has not changed it. -/
structure KeepsCache (s : State) (e : Event) (s' : State) : Prop where
  changed : s'.cache = s.cache ∨ e = .forget ∨
    ∃ id root began goals ended, e = .store id ∧ s'.calls id = some ⟨root, began, .returned goals ended⟩
  done : ∀ id call, s.calls id = some call → call.phase.isOver = true → s'.calls id = some call

/-- An entry of the cache, or a call that reads files, has these from its project for its signature. -/
def State.Holds (s : State) (root : Path) (signature : Signature) (sources : List Source) : Prop :=
  (∃ entry, s.cache.get? root = some entry ∧ entry.signature = signature ∧ entry.sources = sources) ∨
    ∃ id began todo goals, s.calls id = some ⟨root, began, .reading signature todo sources goals⟩

/-- **What a change of a file has to meet**: of a file that was read for an entry, or is for a call, one that is deleted
is in the signature, and one that is written is there with no time but that of a file. -/
def Safe (s : State) : Event → Prop
  | .change path file => ∀ root signature sources, s.Holds root signature sources →
      (∃ source ∈ sources, source.path = path) →
      (file = none → path ∈ signature.map Prod.fst) ∧
        (file ≠ none → ∀ ticks, (path, ticks) ∈ signature → noFile < ticks)
  | _ => True

/-- What is promised holds all through a run. -/
def Keeps : State → List Event → Prop := Concurrency.Keeps (step host) (Good host) KeepsCache

/-- Every change of a run is safe. -/
def AllSafe : State → List Event → Prop := Concurrency.Always (step host) Safe

end

/-! ## The disk -/

section Disk

variable {d d' : Disk} {path other : Path} {file : Option File} {n since : Nat}

theorem Disk.mem_moments : n ∈ d.moments since ↔ since ≤ n ∧ n ≤ d.now := by
  unfold Disk.moments
  rw [List.mem_range'_1]
  omega

/-- What has been stays. -/
theorem file_changeFile_old (h : n ≤ d.now) (path : Path) (file : Option File) (other : Path) :
    (d.changeFile path file).file n other = d.file n other := by
  have hne : n ≠ d.now + 1 := Nat.ne_of_lt (Nat.lt_succ_of_le h)
  have hfiles : (d.changeFile path file).files n = d.files n := Function.update_of_ne hne ..
  unfold Disk.file
  rw [hfiles]

theorem file_changeFile_now (d : Disk) (path : Path) (file : Option File) (other : Path) :
    (d.changeFile path file).file (d.now + 1) other = if other = path then file else d.file d.now other := by
  have hfiles : (d.changeFile path file).files (d.now + 1) = match file with
      | some file => (d.files d.now).set path file
      | none => (d.files d.now).pop path := Function.update_self ..
  unfold Disk.file
  rw [hfiles]
  cases file with
  | some file =>
    dsimp only
    rw [Dict.get?_set]
    exact if_congr eq_comm rfl rfl
  | none =>
    dsimp only
    rw [Dict.get?_pop]
    exact if_congr eq_comm rfl rfl

/-- A file that has a time again that it had before has not changed in between. -/
def Fresh (d : Disk) : Prop :=
  ∀ path m n f g, m ≤ n → n ≤ d.now → d.file m path = some f → d.file n path = some g → f.ticks = g.ticks →
    ∀ k, m ≤ k → k ≤ n → d.file k path = some f

theorem Fresh.changeFile (h : Fresh d) (hfresh : d.IsFresh path file) : Fresh (d.changeFile path file) := by
  intro other m n f g hmn hn hm hg hticks k hmk hkn
  rcases Nat.lt_or_ge d.now n with hlast | hold
  · have heq : n = d.now + 1 := Nat.le_antisymm hn hlast
    subst heq
    rcases Nat.lt_or_ge d.now m with hmlast | hmold
    · have hk : k = m := by omega
      rw [hk, hm]
    · rw [file_changeFile_now] at hg
      rw [file_changeFile_old hmold] at hm
      split at hg
      next hpath =>
        -- the file is written now, so its time is a new one
        subst hpath
        exact absurd hticks (hfresh g hg m (Disk.mem_moments.mpr ⟨Nat.zero_le m, hmold⟩) f hm)
      next hpath =>
        have hsame := h other m d.now f g hmold (Nat.le_refl _) hm hg hticks
        rcases Nat.lt_or_ge d.now k with hklast | hkold
        · have hk : k = d.now + 1 := Nat.le_antisymm hkn hklast
          rw [hk, file_changeFile_now, if_neg hpath]
          exact hsame d.now hmold (Nat.le_refl _)
        · rw [file_changeFile_old hkold]
          exact hsame k hmk hkold
  · rw [file_changeFile_old (Nat.le_trans hmn hold)] at hm
    rw [file_changeFile_old hold] at hg
    rw [file_changeFile_old (Nat.le_trans hkn hold)]
    exact h other m n f g hmn hold hm hg hticks k hmk hkn

/-- A later disk remembers the same. -/
structure Remembers (d d' : Disk) : Prop where
  le : d.now ≤ d'.now
  file : ∀ n, n ≤ d.now → ∀ path, d'.file n path = d.file n path

theorem remembers_changeFile (d : Disk) (path : Path) (file : Option File) : Remembers d (d.changeFile path file) :=
  ⟨Nat.le_succ d.now, fun _ hn other => file_changeFile_old hn path file other⟩

end Disk

/-! ## What a signature tells -/

section Evidence

variable (host : Host)

/-- What is known of a signature whose files were enumerated since a moment, some of them yet without a time. -/
structure Signed (d : Disk) (root : Path) (began : Nat) (todo : List Path) (signature : Signature) : Prop where
  seen : ∀ path, path ∈ todo ∨ path ∈ signature.map Prod.fst →
    ∃ n, began ≤ n ∧ n ≤ d.now ∧ d.file n path ≠ none
  stamped : ∀ path ticks, (path, ticks) ∈ signature → noFile < ticks →
    ∃ n f, began ≤ n ∧ n ≤ d.now ∧ d.file n path = some f ∧ f.ticks = ticks
  lacking : ∀ path, isGoalFile host root path = true → path ∉ todo → path ∉ signature.map Prod.fst →
    ∃ n, began ≤ n ∧ n ≤ d.now ∧ d.file n path = none

/-- What is known of a source that is kept under a signature. Its file is in the signature with a time that it had
before it was read; or it is not there, and is a file since it was read; or it is there without a time, and has not been
written since. -/
structure Evident (d : Disk) (root : Path) (signature : Signature) (source : Source) : Prop where
  isGoalFile : isGoalFile host root source.path = true
  le : source.moment ≤ d.now
  had : d.file source.moment source.path = some source.file
  evidence : (∃ m f, m ≤ source.moment ∧ d.file m source.path = some f ∧ (source.path, f.ticks) ∈ signature) ∨
    (source.path ∉ signature.map Prod.fst ∧
      ∀ n, source.moment ≤ n → n ≤ d.now → d.file n source.path ≠ none) ∨
    ∃ ticks, ticks ≤ noFile ∧ (source.path, ticks) ∈ signature ∧
      ∀ n, source.moment ≤ n → n ≤ d.now → ∀ f, d.file n source.path = some f → f = source.file

variable {host} {d d' : Disk} {root path : Path} {began ended : Nat} {todo paths : List Path} {signature : Signature}
  {source : Source} {file : Option File}

theorem Signed.mono (h : Signed host d root began todo signature) (hd : Remembers d d') :
    Signed host d' root began todo signature where
  seen path hpath := by
    obtain ⟨n, hbegan, hn, hfile⟩ := h.seen path hpath
    exact ⟨n, hbegan, Nat.le_trans hn hd.le, hd.file n hn path ▸ hfile⟩
  stamped path ticks hmem hlater := by
    obtain ⟨n, f, hbegan, hn, hfile, hticks⟩ := h.stamped path ticks hmem hlater
    exact ⟨n, f, hbegan, Nat.le_trans hn hd.le, (hd.file n hn path).trans hfile, hticks⟩
  lacking path hgoal htodo hlisted := by
    obtain ⟨n, hbegan, hn, hfile⟩ := h.lacking path hgoal htodo hlisted
    exact ⟨n, hbegan, Nat.le_trans hn hd.le, (hd.file n hn path).trans hfile⟩

/-- An enumeration gives the files of a signature, yet without times. -/
theorem Signed.of_lists (hbegan : began ≤ d.now) (h : d.Lists host root began paths) :
    Signed host d root began (Ordinal.sortBy (fun path => path) paths) [] where
  seen path hpath := by
    rcases hpath with hpath | hpath
    · obtain ⟨n, hn, hfile⟩ := (h.2.1 path (Ordinal.mem_sortBy.mp hpath)).2
      obtain ⟨hle, hnow⟩ := Disk.mem_moments.mp hn
      exact ⟨n, hle, hnow, hfile⟩
    · exact absurd hpath List.not_mem_nil
  stamped _ _ hmem := absurd hmem List.not_mem_nil
  lacking path hgoal htodo _ := by
    have hnot : path ∉ paths := fun hmem => htodo (Ordinal.mem_sortBy.mpr hmem)
    by_contra hnone
    push Not at hnone
    have hthere : ∀ n ∈ d.moments began, d.file n path ≠ none := by
      intro n hn
      obtain ⟨hle, hnow⟩ := Disk.mem_moments.mp hn
      exact hnone n hle hnow
    have hkey : path ∈ (d.files began).keys := by
      by_contra hkey
      exact hnone began (Nat.le_refl _) hbegan (Dict.get?_eq_none.mpr hkey)
    exact hnot (h.2.2 path hkey hgoal hthere)

/-- A time that is asked for is that of the file, or of none. -/
theorem Signed.stamp (h : Signed host d root began (path :: todo) signature) (hbegan : began ≤ d.now)
    (isDenied : Bool) :
    Signed host d root began todo
      (signature ++ [(path, if isDenied then -1 else ((d.file d.now path).map File.ticks).getD noFile)]) where
  seen other hother := by
    refine h.seen other ?_
    rcases hother with hother | hother
    · exact .inl (List.mem_cons_of_mem path hother)
    · rw [List.map_append] at hother
      rcases List.mem_append.mp hother with hother | hother
      · exact .inr hother
      · exact .inl (List.mem_singleton.mp hother ▸ List.mem_cons_self)
  stamped other ticks hmem hlater := by
    rcases List.mem_append.mp hmem with hmem | hmem
    · exact h.stamped other ticks hmem hlater
    · obtain ⟨rfl, rfl⟩ := Prod.mk.inj (List.mem_singleton.mp hmem)
      cases isDenied with
      | true =>
        rw [if_pos rfl] at hlater
        exact absurd hlater (by decide)
      | false =>
        cases hfile : d.file d.now other with
        | none =>
          rw [hfile] at hlater
          exact absurd hlater (lt_irrefl noFile)
        | some f => exact ⟨d.now, f, hbegan, Nat.le_refl _, hfile, rfl⟩
  lacking other hgoal htodo hlisted := by
    rw [List.map_append, List.mem_append, not_or] at hlisted
    refine h.lacking other hgoal (fun hmem => ?_) hlisted.1
    rcases List.mem_cons.mp hmem with rfl | hmem
    · exact hlisted.2 List.mem_cons_self
    · exact htodo hmem

/-- What is read by a call that has its signature is evident. -/
theorem Signed.evident (h : Signed host d root began [] signature) (hgoal : isGoalFile host root path = true) {f : File}
    (hfile : d.file d.now path = some f) : Evident host d root signature ⟨path, f, d.now⟩ := by
  have hnow : ∀ n, d.now ≤ n → n ≤ d.now → d.file n path = some f := by
    intro n hle hge
    rw [Nat.le_antisymm hge hle, hfile]
  refine ⟨hgoal, Nat.le_refl _, hfile, ?_⟩
  by_cases hlisted : path ∈ signature.map Prod.fst
  · obtain ⟨⟨_, ticks⟩, hmem, rfl⟩ := List.mem_map.mp hlisted
    rcases lt_or_ge noFile ticks with hlater | hunknown
    · obtain ⟨m, g, _, hm, hg, hticks⟩ := h.stamped _ ticks hmem hlater
      exact .inl ⟨m, g, hm, hg, hticks ▸ hmem⟩
    · refine .inr (.inr ⟨ticks, hunknown, hmem, fun n hle hge g hg => ?_⟩)
      exact Option.some.inj (hg.symm.trans (hnow n hle hge))
  · refine .inr (.inl ⟨hlisted, fun n hle hge => ?_⟩)
    rw [hnow n hle hge]
    exact Option.some_ne_none f

/-- A safe change leaves what is known of a source. -/
theorem Evident.changeFile (h : Evident host d root signature source)
    (hsafe : source.path = path → (file = none → path ∈ signature.map Prod.fst) ∧
      (file ≠ none → ∀ ticks, (path, ticks) ∈ signature → noFile < ticks)) :
    Evident host (d.changeFile path file) root signature source where
  isGoalFile := h.isGoalFile
  le := Nat.le_succ_of_le h.le
  had := (file_changeFile_old h.le ..).trans h.had
  evidence := by
    -- at the moment after the change a file is as it was, or as it has been written
    have hcases : ∀ n, source.moment ≤ n → n ≤ d.now + 1 →
        (n ≤ d.now ∧ (d.changeFile path file).file n source.path = d.file n source.path) ∨
          (source.path = path ∧ (d.changeFile path file).file n source.path = file) ∨
          (d.changeFile path file).file n source.path = d.file d.now source.path := by
      intro n _ hn
      rcases Nat.lt_or_ge d.now n with hlast | hold
      · have heq : n = d.now + 1 := Nat.le_antisymm hn hlast
        rw [heq, file_changeFile_now]
        by_cases hpath : source.path = path
        · exact .inr (.inl ⟨hpath, if_pos hpath⟩)
        · exact .inr (.inr (if_neg hpath))
      · exact .inl ⟨hold, file_changeFile_old hold ..⟩
    rcases h.evidence with ⟨m, f, hm, hf, hmem⟩ | ⟨hlacking, hthere⟩ | ⟨ticks, hunknown, hmem, hsame⟩
    · exact .inl ⟨m, f, hm, (file_changeFile_old (Nat.le_trans hm h.le) ..).trans hf, hmem⟩
    · refine .inr (.inl ⟨hlacking, fun n hle hn => ?_⟩)
      rcases hcases n hle hn with ⟨hold, heq⟩ | ⟨hpath, heq⟩ | heq
      · rw [heq]
        exact hthere n hle hold
      · rw [heq]
        exact fun hnone => hlacking (hpath ▸ (hsafe hpath).1 hnone)
      · rw [heq]
        exact hthere d.now h.le (Nat.le_refl _)
    · refine .inr (.inr ⟨ticks, hunknown, hmem, fun n hle hn f hf => ?_⟩)
      rcases hcases n hle hn with ⟨hold, heq⟩ | ⟨hpath, heq⟩ | heq
      · exact hsame n hle hold f (heq.symm.trans hf)
      · have hwritten : file ≠ none := by
          rw [← heq, hf]
          exact Option.some_ne_none f
        exact absurd ((hsafe hpath).2 hwritten ticks (hpath ▸ hmem)) (not_lt.mpr hunknown)
      · exact hsame d.now h.le (Nat.le_refl _) f (heq.symm.trans hf)

/-- **Where a call finds its signature again**, the file of a source was as it was read at a moment of the call. -/
theorem Evident.was_there (h : Evident host d root signature source) (hsigned : Signed host d root began [] signature)
    (hfresh : Fresh d) : ∃ n, began ≤ n ∧ n ≤ d.now ∧ d.file n source.path = some source.file := by
  rcases Nat.lt_or_ge source.moment began with hbefore | hduring
  · rcases h.evidence with ⟨m, f, hm, hf, hmem⟩ | ⟨hlacking, hthere⟩ | ⟨ticks, _, hmem, hsame⟩
    · -- the file has this time still, so it has not changed since
      obtain ⟨n, g, hbegan, hn, hg, hticks⟩ := hsigned.stamped source.path f.ticks hmem f.later
      have hle : source.moment ≤ n := Nat.le_trans (Nat.le_of_lt hbefore) hbegan
      have hall := hfresh source.path m n f g (Nat.le_trans hm hle) hn hf hg hticks.symm
      have hsource : some source.file = some f := h.had.symm.trans (hall source.moment hm hle)
      exact ⟨n, hbegan, hn, hsource ▸ hall n (Nat.le_trans hm hle) (Nat.le_refl n)⟩
    · -- it is there all the time, so the call would have listed it
      obtain ⟨n, hbegan, hn, hnone⟩ := hsigned.lacking source.path h.isGoalFile List.not_mem_nil hlacking
      exact absurd hnone (hthere n (Nat.le_trans (Nat.le_of_lt hbefore) hbegan) hn)
    · -- the call has seen it, and it is still what it was
      have hlisted : source.path ∈ signature.map Prod.fst := List.mem_map_of_mem hmem
      obtain ⟨n, hbegan, hn, hseen⟩ := hsigned.seen source.path (.inr hlisted)
      obtain ⟨f, hf⟩ := Option.ne_none_iff_exists'.mp hseen
      have heq : f = source.file := hsame n (Nat.le_trans (Nat.le_of_lt hbefore) hbegan) hn f hf
      exact ⟨n, hbegan, hn, heq ▸ hf⟩
  · exact ⟨source.moment, hduring, h.le, h.had⟩

end Evidence

/-! ## Steps -/

section Steps

variable (host : Host)

/-- The goals are what is read of the sources. -/
def ReadFrom (sources : List Source) (goals : List LoadedGoal) : Prop :=
  List.Forall₂ (fun source goal => goalOfFile host source.path source.file = .ok goal) sources goals

/-- What is known of a call, by where it is. -/
def CallInv (d : Disk) (call : Call) : Prop :=
  match call.phase with
  | .listing => call.began ≤ d.now
  | .stamping todo signature => call.began ≤ d.now ∧ Signed host d call.root call.began todo signature
  | .relisting signature since =>
    call.began ≤ since ∧ since ≤ d.now ∧ Signed host d call.root call.began [] signature
  | .reading signature todo sources goals => Signed host d call.root call.began [] signature ∧
      (∀ path ∈ todo, isGoalFile host call.root path = true) ∧
      (∀ source ∈ sources, call.began ≤ source.moment ∧ Evident host d call.root signature source) ∧
      call.began ≤ d.now ∧ ReadFrom host sources goals
  | .returned goals ended => ended ≤ d.now ∧ WereThere host d call.root call.began ended goals
  | .thrown => True

structure EntryInv (d : Disk) (root : Path) (entry : Entry) : Prop where
  evident : ∀ source ∈ entry.sources, Evident host d root entry.signature source
  goals : ∃ read, ReadFrom host entry.sources read ∧ entry.goals = sorted read

structure Inv (s : State) : Prop where
  fresh : Fresh s.toDisk
  calls : ∀ id call, s.calls id = some call → CallInv host s.toDisk call
  cache : ∀ root entry, s.cache.get? root = some entry → EntryInv host s.toDisk root entry

variable {host} {s s' : State} {d d' : Disk} {id : Nat} {call : Call} {root : Path} {began ended : Nat}
  {goals : List LoadedGoal}

/-- A loader begins with any files on the disk, and with an empty cache. -/
def start (files : Files) : State := { files := fun _ => files }

theorem Inv.start (files : Files) : Inv host (start files) where
  fresh _ _ _ _ _ _ _ hm _ _ _ _ _ := hm
  calls _ _ h := absurd h.symm (Option.some_ne_none _)
  cache _ _ h := absurd h.symm (Option.some_ne_none _)

theorem WereThere.mono (h : WereThere host d root began ended goals) (hended : ended ≤ d.now)
    (hd : Remembers d d') : WereThere host d' root began ended goals := by
  obtain ⟨sources, read, hread, hgoals, hthere⟩ := h
  refine ⟨sources, read, hread, hgoals, fun source hsource => ?_⟩
  obtain ⟨hgoal, n, hbegan, hn, hfile⟩ := hthere source hsource
  exact ⟨hgoal, n, hbegan, hn, (hd.file n (Nat.le_trans hn hended) source.1).trans hfile⟩

/-- Goals that were read of sources were there if each source was. -/
theorem WereThere.of_sources {sources : List Source} {read : List LoadedGoal} (hread : ReadFrom host sources read)
    (hgoals : goals = sorted read)
    (hthere : ∀ source ∈ sources, isGoalFile host root source.path = true ∧
      ∃ n, began ≤ n ∧ n ≤ ended ∧ d.file n source.path = some source.file) :
    WereThere host d root began ended goals := by
  refine ⟨sources.map fun source => (source.path, source.file), read, ?_, hgoals, fun pair hpair => ?_⟩
  · rw [List.forall₂_map_left_iff]
    exact hread
  · obtain ⟨source, hsource, rfl⟩ := List.mem_map.mp hpair
    exact hthere source hsource

/-- A call goes on. -/
theorem Inv.setCall (h : Inv host s) (id : Nat) (hcall : CallInv host s.toDisk call) :
    Inv host (s.setCall id call) where
  fresh := h.fresh
  calls other found hfound := by
    by_cases heq : other = id
    · subst heq
      have hself : (s.setCall other call).calls other = some call := Function.update_self ..
      rw [hself] at hfound
      exact Option.some.inj hfound ▸ hcall
    · have hother : (s.setCall id call).calls other = s.calls other := Function.update_of_ne heq ..
      exact h.calls other found (hother.symm.trans hfound)
  cache := h.cache

/-- A file changes, safely. -/
theorem Inv.changeFile (h : Inv host s) {path : Path} {file : Option File} (hfresh : s.IsFresh path file)
    (hsafe : Safe s (.change path file)) : Inv host { s with toDisk := s.changeFile path file } where
  fresh := h.fresh.changeFile hfresh
  calls id call hcall := by
    have hd : Remembers s.toDisk (s.changeFile path file) := remembers_changeFile s.toDisk path file
    have hinv : CallInv host s.toDisk call := h.calls id call hcall
    obtain ⟨root, began, phase⟩ := call
    cases phase with
    | listing => exact Nat.le_trans hinv hd.le
    | stamping todo signature => exact ⟨Nat.le_trans hinv.1 hd.le, hinv.2.mono hd⟩
    | relisting signature since => exact ⟨hinv.1, Nat.le_trans hinv.2.1 hd.le, hinv.2.2.mono hd⟩
    | reading signature todo sources goals =>
      obtain ⟨hsigned, htodo, hsources, hbegan, hread⟩ := hinv
      refine ⟨hsigned.mono hd, htodo, fun source hsource => ?_, Nat.le_trans hbegan hd.le, hread⟩
      obtain ⟨hmoment, hevident⟩ := hsources source hsource
      refine ⟨hmoment, hevident.changeFile fun hpath => ?_⟩
      exact hsafe root signature sources (.inr ⟨id, began, todo, goals, hcall⟩) ⟨source, hsource, hpath⟩
    | returned goals ended => exact ⟨Nat.le_trans hinv.1 hd.le, hinv.2.mono hinv.1 hd⟩
    | thrown => trivial
  cache root entry hentry := by
    obtain ⟨hevident, hgoals⟩ := h.cache root entry hentry
    refine ⟨fun source hsource => (hevident source hsource).changeFile fun hpath => ?_, hgoals⟩
    exact hsafe root entry.signature entry.sources (.inl ⟨entry, hentry, rfl, rfl⟩) ⟨source, hsource, hpath⟩

theorem Inv.good (h : Inv host s) : Good host s := fun id _ _ _ _ hcall => (h.calls id _ hcall).2

/-- A call that is not over goes on, and the cache stays. -/
theorem Inv.advance (h : Inv host s) {old : Call} (hold : s.calls id = some old) (hnot : old.phase.isOver = false)
    (e : Event) (hcall : CallInv host s.toDisk call) :
    Inv host (s.setCall id call) ∧ KeepsCache s e (s.setCall id call) := by
  refine ⟨h.setCall id hcall, .inl rfl, fun other found hfound hover => ?_⟩
  have hne : other ≠ id := by
    rintro rfl
    rw [Option.some.inj (hold.symm.trans hfound), hover] at hnot
    cases hnot
  exact (Function.update_of_ne hne ..).trans hfound

/-- A safe step keeps the invariant, and does to the cache what it may. -/
theorem Inv.step (h : Inv host s) {e : Event} (hstep : step host s e = some s') (hsafe : Safe s e) :
    Inv host s' ∧ KeepsCache s e s' := by
  cases e with
  | call id projectRoot =>
    simp only [Shared.step] at hstep
    split at hstep
    next => cases hstep
    next hnone =>
      have hover : ∀ call other found, s.calls other = some found →
          (s.setCall id call).calls other = some found := by
        intro call other found hfound
        have hne : other ≠ id := by
          rintro rfl
          exact absurd (hnone.symm.trans hfound).symm (Option.some_ne_none found)
        exact (Function.update_of_ne hne ..).trans hfound
      split at hstep
      next =>
        obtain rfl := Option.some.inj hstep
        exact ⟨h.setCall id trivial, .inl rfl, fun other found hfound _ => hover _ other found hfound⟩
      next root _ =>
        obtain rfl := Option.some.inj hstep
        have hcall : CallInv host s.toDisk ⟨root, s.now, .listing⟩ := Nat.le_refl s.now
        exact ⟨h.setCall id hcall, .inl rfl, fun other found hfound _ => hover _ other found hfound⟩
  | list id paths =>
    simp only [Shared.step] at hstep
    split at hstep
    next root began hcall =>
      obtain ⟨hlists, rfl⟩ := guard_eq_some.mp hstep
      have hbegan : began ≤ s.now := h.calls id _ hcall
      exact h.advance hcall rfl _ ⟨hbegan, Signed.of_lists hbegan hlists⟩
    next => cases hstep
  | stamp id isDenied =>
    simp only [Shared.step] at hstep
    split at hstep
    next root began path todo signature hcall =>
      obtain rfl := Option.some.inj hstep
      obtain ⟨hbegan, hsigned⟩ := h.calls id _ hcall
      exact h.advance hcall rfl _ ⟨hbegan, hsigned.stamp hbegan isDenied⟩
    next => cases hstep
  | look id =>
    simp only [Shared.step] at hstep
    split at hstep
    next root began signature hcall =>
      obtain ⟨hbegan, hsigned⟩ := h.calls id _ hcall
      split at hstep
      next cached hcached =>
        obtain rfl := Option.some.inj hstep
        obtain ⟨hentry, hsame⟩ := Option.filter_eq_some_iff.mp hcached
        obtain ⟨hevident, read, hread, hgoals⟩ := h.cache root cached hentry
        obtain rfl : cached.signature = signature := of_decide_eq_true hsame
        have hthere : WereThere host s.toDisk root began s.now cached.goals :=
          .of_sources hread hgoals fun source hsource =>
            ⟨(hevident source hsource).isGoalFile, (hevident source hsource).was_there hsigned h.fresh⟩
        exact h.advance hcall rfl _ ⟨Nat.le_refl s.now, hthere⟩
      next =>
        obtain rfl := Option.some.inj hstep
        exact h.advance hcall rfl _ ⟨hbegan, Nat.le_refl s.now, hsigned⟩
    next => cases hstep
  | relist id paths =>
    simp only [Shared.step] at hstep
    split at hstep
    next root began signature since hcall =>
      obtain ⟨hlists, rfl⟩ := guard_eq_some.mp hstep
      obtain ⟨hbegan, hsince, hsigned⟩ := h.calls id _ hcall
      have hgoals : ∀ path ∈ Ordinal.sortBy (fun path => path) paths, isGoalFile host root path = true :=
        fun path hpath => (hlists.2.1 path (Ordinal.mem_sortBy.mp hpath)).1
      have hsources : ∀ source ∈ ([] : List Source),
          began ≤ source.moment ∧ Evident host s.toDisk root signature source :=
        fun _ hsource => absurd hsource List.not_mem_nil
      exact h.advance hcall rfl _ ⟨hsigned, hgoals, hsources, Nat.le_trans hbegan hsince, .nil⟩
    next => cases hstep
  | read id =>
    simp only [Shared.step] at hstep
    split at hstep
    next root began signature path todo sources goals hcall =>
      obtain ⟨hsigned, htodo, hsources, hbegan, hread⟩ := h.calls id _ hcall
      split at hstep
      next =>
        obtain rfl := Option.some.inj hstep
        exact h.advance hcall rfl _ trivial
      next file hfile =>
        split at hstep
        next =>
          obtain rfl := Option.some.inj hstep
          exact h.advance hcall rfl _ trivial
        next goal hgoal =>
          obtain rfl := Option.some.inj hstep
          have hevident : Evident host s.toDisk root signature ⟨path, file, s.now⟩ :=
            hsigned.evident (htodo path List.mem_cons_self) hfile
          have hall : ∀ source ∈ sources ++ [⟨path, file, s.now⟩],
              began ≤ source.moment ∧ Evident host s.toDisk root signature source := by
            intro source hsource
            rcases List.mem_append.mp hsource with hsource | hsource
            · exact hsources source hsource
            · obtain rfl := List.mem_singleton.mp hsource
              exact ⟨hbegan, hevident⟩
          have hgoals : ReadFrom host (sources ++ [⟨path, file, s.now⟩]) (goals ++ [goal]) :=
            List.rel_append hread (.cons hgoal .nil)
          have hrest : ∀ path ∈ todo, isGoalFile host root path = true :=
            fun other hother => htodo other (List.mem_cons_of_mem path hother)
          exact h.advance hcall rfl _ ⟨hsigned, hrest, hall, hbegan, hgoals⟩
    next => cases hstep
  | store id =>
    simp only [Shared.step] at hstep
    split at hstep
    next root began signature sources goals hcall =>
      obtain rfl := Option.some.inj hstep
      obtain ⟨hsigned, -, hsources, hbegan, hread⟩ := h.calls id _ hcall
      have hthere : WereThere host s.toDisk root began s.now (sorted goals) :=
        .of_sources hread rfl fun source hsource =>
          have hevident := (hsources source hsource).2
          ⟨hevident.isGoalFile, source.moment, (hsources source hsource).1, hevident.le, hevident.had⟩
      have hover : CallInv host s.toDisk ⟨root, began, .returned (sorted goals) s.now⟩ := ⟨Nat.le_refl s.now, hthere⟩
      obtain ⟨hinv, hkeeps⟩ := h.advance hcall rfl (.store id) hover
      refine ⟨⟨hinv.fresh, hinv.calls, fun other entry hentry => ?_⟩, .inr (.inr ?_), hkeeps.done⟩
      · have hset : (s.cache.set root { signature, goals := sorted goals, sources }).get? other = some entry := hentry
        rw [Dict.get?_set] at hset
        split at hset
        next hroot =>
          subst hroot
          obtain rfl := Option.some.inj hset
          exact ⟨fun source hsource => (hsources source hsource).2, goals, hread, rfl⟩
        next => exact h.cache other entry hset
      · exact ⟨id, root, began, sorted goals, s.now, rfl, Function.update_self ..⟩
    next => cases hstep
  | throw id =>
    simp only [Shared.step] at hstep
    split at hstep
    next root began phase hcall =>
      split at hstep
      next => cases hstep
      next hover =>
        obtain rfl := Option.some.inj hstep
        exact h.advance hcall (Bool.eq_false_iff.mpr hover) _ trivial
    next => cases hstep
  | change path file =>
    obtain ⟨hfresh, rfl⟩ := guard_eq_some.mp hstep
    exact ⟨h.changeFile hfresh hsafe, .inl rfl, fun _ _ hcall _ => hcall⟩
  | forget =>
    obtain rfl := Option.some.inj hstep
    have hempty : ∀ root entry, Dict.get? ([] : Dict Path Entry) root = some entry →
        EntryInv host s.toDisk root entry := fun _ entry hentry => absurd hentry.symm (Option.some_ne_none entry)
    exact ⟨⟨h.fresh, h.calls, hempty⟩, .inr (.inl rfl), fun _ _ hcall _ => hcall⟩

end Steps

/-- **Every call of `Load` that returns gives goals of files as they were during it, and none that throws has changed
the cache**, as long as each change of a file is safe. -/
theorem load_gives_what_was (host : Host) (files : Files) (es : List Event) (h : AllSafe host (start files) es) :
    Keeps host (start files) es := by
  have hkept : ∀ s e s', Inv host s → step host s e = some s' → Safe s e → Inv host s' ∧ KeepsCache s e s' :=
    fun s e s' hinv hstep hsafe => hinv.step hstep hsafe
  exact Concurrency.keeps_of_always (fun _ hinv => hinv.good) hkept (Inv.start files) h

section Sample

/-- A host where every text is the id of a goal. -/
def plainHost : Host where
  items := []
  nodup := List.nodup_nil
  named _ hmem := absurd hmem List.not_mem_nil
  placed _ hmem := absurd hmem List.not_mem_nil
  working := ⟨[], LinkedFiles.isNames_nil⟩
  ignoresCase := false
  refusal path := "Could not find file '" ++ String.ofList path ++ "'."
  lastWrite _ := none
  yaml text := .ok [Yaml.block [(Yaml.word "id", Yaml.word text), (Yaml.word "state", Yaml.word "READY")]]

def sampleRoot : Path := "/p".toList

def samplePath : Path := "/p/.ai/goals/g.yaml".toList

def sampleFile : File := ⟨some "P12-G01", noFile + 1, Int.lt_succ noFile⟩

/-- A goal file is created, and then its goal is loaded. -/
theorem load_gives_what_was_created :
    Keeps plainHost (start [])
      [.change samplePath (some sampleFile), .call 0 sampleRoot, .list 0 [samplePath], .stamp 0 false, .look 0,
        .relist 0 [samplePath], .read 0, .store 0] := by
  apply load_gives_what_was
  have hnothing : ∀ root signature sources, ¬ (start []).Holds root signature sources := by
    rintro root signature sources (⟨entry, hentry, -⟩ | ⟨id, began, todo, goals, hcall⟩)
    · exact Option.some_ne_none entry hentry.symm
    · exact Option.some_ne_none _ hcall.symm
  refine fun _ _ => ⟨fun root signature sources hholds => absurd hholds (hnothing root signature sources), ?_⟩
  exact fun _ _ => ⟨trivial, fun _ _ => ⟨trivial, fun _ _ => ⟨trivial, fun _ _ => ⟨trivial, fun _ _ => ⟨trivial,
    fun _ _ => ⟨trivial, fun _ _ => ⟨trivial, trivial⟩⟩⟩⟩⟩⟩⟩

/-- When a call that has returned began and ended, and how many goals it gave. -/
def Call.answer (call : Call) : Option (Nat × Nat × Nat) :=
  match call.phase with
  | .returned goals ended => some (call.began, ended, goals.length)
  | _ => none

/-- A goal file is created between the two times that a call lists the files, and deleted later. -/
def staleRun : List Event :=
  [.call 0 sampleRoot, .list 0 [], .look 0, .change samplePath (some sampleFile), .relist 0 [samplePath], .read 0,
    .store 0, .change samplePath none, .call 1 sampleRoot, .list 1 [], .look 1]

/-- The call after that gives the goal of a file that has been gone all along. -/
theorem deleted_goal_is_given : ¬ Keeps plainHost (start []) staleRun := by
  intro h
  have hanswer : (((Concurrency.after (step plainHost) (start []) staleRun).bind fun s => s.calls 1).bind
      Call.answer) = some (2, 2, 1) := by decide +kernel
  have hfiles : (Concurrency.after (step plainHost) (start []) staleRun).map (fun s => (s.files 2).keys) =
      some [] := by decide +kernel
  obtain ⟨call, hcall, hcallAnswer⟩ := Option.bind_eq_some_iff.mp hanswer
  obtain ⟨s, hafter, hcall⟩ := Option.bind_eq_some_iff.mp hcall
  rw [hafter] at hfiles
  have hgone : (s.files 2).keys = [] := Option.some.inj hfiles
  obtain ⟨root, began, phase⟩ := call
  cases phase with
  | returned goals ended =>
    obtain ⟨hbegan, hended, hlength⟩ : began = 2 ∧ ended = 2 ∧ goals.length = 1 := by
      simpa [Call.answer] using hcallAnswer
    subst hbegan hended
    have hgood : Good plainHost s := h.good_after hafter
    obtain ⟨sources, read, hread, rfl, hthere⟩ := hgood 1 root 2 goals 2 hcall
    have hsources : sources ≠ [] := by
      rintro rfl
      rw [List.forall₂_nil_left_iff.mp hread, (sorted_perm []).length_eq] at hlength
      exact absurd hlength (by decide)
    obtain ⟨source, hsource⟩ := List.exists_mem_of_ne_nil sources hsources
    obtain ⟨-, n, hbegan, hended, hfile⟩ := hthere source hsource
    have hn : n = 2 := Nat.le_antisymm hended hbegan
    subst hn
    have hkey : source.1 ∉ (s.files 2).keys := by
      rw [hgone]
      exact List.not_mem_nil
    exact Option.some_ne_none source.2 (hfile.symm.trans (Dict.get?_eq_none.mpr hkey))
  | _ => cases hcallAnswer

end Sample

end Shared

end AtlasFlow.GoalLoader
