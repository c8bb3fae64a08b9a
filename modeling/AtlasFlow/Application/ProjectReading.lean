import AtlasFlow.Orchestration.ProjectPaths

/-!
# Reading a file of the project

`ProjectService.Read` opens what `ProjectPaths.Resolve` lets through. The names of a path say where it leads only as
far as no link is met: `contained_iff` tells when the comparison of names is the one that was meant, of the places
that the root and the path lead to.
-/

namespace AtlasFlow

open LinkedFiles PathText

namespace ProjectService

/-- `MaxReadBytes`. -/
def maxReadBytes : Nat := 512 * 1024

structure ProjectFileContent where
  path : List Char
  content : List Char
  isTruncated : Bool

/-- What `Read` throws: a `ProjectPathException`, or what the platform threw. -/
inductive ReadError where
  | projectPath (message : List Char)
  | argument
  | unauthorizedAccess

/-- The file that a full path leads to; a text that ends in a separator names none. -/
def fileAt (machine : Machine) (full : List Char) : Option StoredFile :=
  if full.getLast? = some '/' then none
  else
    match machine.files.leads true [] (namesIn machine.working.directory full) with
    | none => none
    | some loc =>
      match machine.files.item loc with
      | some (.file file) => some file
      | _ => none

def notAFile (path : List Char) : List Char := '\'' :: path ++ "' is not a file in the open project".toList

variable (decode : List UInt8 → List Char)

/-- What is shown of the bytes of a file; `decode` is `Encoding.UTF8.GetString`. -/
def contentOf (path : List Char) (bytes : List UInt8) : ProjectFileContent :=
  ⟨path, decode (bytes.take maxReadBytes), maxReadBytes < bytes.length⟩

/-- `Read`. -/
def read (machine : Machine) (root path : List Char) : Except ReadError ProjectFileContent :=
  match ProjectPaths.resolve machine.working.directory root path with
  | .error (.escape message) => .error (.projectPath message)
  | .error .argument => .error .argument
  | .ok full =>
    match fileAt machine full with
    | none => .error (.projectPath (notAFile path))
    | some file => if file.isReadable then .ok (contentOf decode path file.bytes) else .error .unauthorizedAccess

/-! ## Where a path leads -/

section Containment

variable {machine : Machine} {root path : List Char}

variable (machine) in
/-- Where a text leads, read in a directory: its dot segments are taken out, and every link is followed. -/
def location (directory : Location) (text : List Char) : Option Location :=
  if '\x00' ∈ text then none else machine.files.leads false [] (namesIn directory text)

variable (machine root) in
def rootLocation : Option Location := location machine machine.working.directory root

variable (machine root path) in
def pathLocation : Option Location := location machine (ProjectPaths.rootNames machine.working root) path

variable (machine root path) in
/-- The path leads to the root, or below it. -/
def Inside : Prop := ∃ r l, rootLocation machine root = some r ∧ pathLocation machine root path = some l ∧ r <+: l

variable (machine root path) in
/-- `Resolve` returns just the paths that lead inside, and refuses the others as escaping; nothing is read but files
inside. -/
structure Contained : Prop where
  returns : (∃ full, ProjectPaths.resolve machine.working.directory root path = .ok full) ↔ Inside machine root path
  refuses : ¬Inside machine root path →
    ∃ message, ProjectPaths.resolve machine.working.directory root path = .error (.escape message)
  reads : ∀ content, read decode machine root path = .ok content → ∃ r l file, rootLocation machine root = some r ∧
    machine.files.item l = some (.file file) ∧ content = contentOf decode path file.bytes ∧ r <+: l

open ProjectPaths (Legible rootNames pathNames)

variable (machine root path) in
/-- Links do not take a path to the other side of the root's edge, and the root is not the root of the file system. -/
structure KeepsSides : Prop where
  legible : Legible root path
  /-- Below the root of the file system `Resolve` lets nothing through. -/
  top : rootNames machine.working root = [] →
    pathNames machine.working root path = [] ∨ machine.files.leads false [] (pathNames machine.working root path) = none
  /-- From below the root links lead to below where the root is. -/
  below : ∀ below, rootNames machine.working root ≠ [] →
    pathNames machine.working root path = rootNames machine.working root ++ below →
    ∃ r l, machine.files.leads false [] (rootNames machine.working root) = some r ∧
      machine.files.leads false r below = some l ∧ r <+: l
  /-- From elsewhere links lead to elsewhere. -/
  elsewhere : rootNames machine.working root ≠ [] →
    ¬rootNames machine.working root <+: pathNames machine.working root path →
    ∀ r l, machine.files.leads false [] (rootNames machine.working root) = some r →
      machine.files.leads false [] (pathNames machine.working root path) = some l → ¬r <+: l

theorem inside_iff (h : Legible root path) : Inside machine root path ↔
    ∃ r l, machine.files.leads false [] (rootNames machine.working root) = some r ∧
      machine.files.leads false [] (pathNames machine.working root path) = some l ∧ r <+: l := by
  unfold Inside rootLocation pathLocation location
  rw [if_neg h.root, if_neg h.relative]
  exact Iff.rfl

/-- Comparing names comes to comparing where they lead just if links keep the sides. -/
theorem below_iff_inside (h : Legible root path) :
    (ProjectPaths.Below (rootNames machine.working root) (pathNames machine.working root path) ↔ Inside machine root path) ↔
      KeepsSides machine root path := by
  rw [inside_iff h]
  constructor
  · intro hiff
    refine ⟨h, fun hroot => ?_, ?_, ?_⟩
    · by_contra hnot
      obtain ⟨hne, hleads⟩ := not_or.mp hnot
      obtain ⟨l, hl⟩ := Option.ne_none_iff_exists'.mp hleads
      exact hne ((hiff.mpr ⟨[], l, by rw [hroot, FileSystem.leads_nil], hl, List.nil_prefix⟩).2 hroot)
    · intro below hroot hpath
      obtain ⟨r, l, hr, hl, hrl⟩ := hiff.mp ⟨⟨below, hpath.symm⟩, fun heq => absurd heq hroot⟩
      rw [hpath, FileSystem.leads_append, hr] at hl
      exact ⟨r, l, hr, hl, hrl⟩
    · intro hroot hnot r l hr hl hrl
      exact hnot (hiff.mpr ⟨r, l, hr, hl, hrl⟩).1
  · rintro ⟨-, hroot, hbelow, helsewhere⟩
    constructor
    · rintro ⟨⟨below, hpath⟩, hself⟩
      by_cases hempty : rootNames machine.working root = []
      · exact ⟨[], [], by rw [hempty, FileSystem.leads_nil], by rw [hself hempty, FileSystem.leads_nil], List.prefix_rfl⟩
      · obtain ⟨r, l, hr, hl, hrl⟩ := hbelow below hempty hpath.symm
        refine ⟨r, l, hr, ?_, hrl⟩
        rw [← hpath, FileSystem.leads_append, hr]
        exact hl
    · rintro ⟨r, l, hr, hl, hrl⟩
      by_cases hempty : rootNames machine.working root = []
      · rcases hroot hempty with hself | hnone
        · exact ⟨by rw [hempty]; exact List.nil_prefix, fun _ => hself⟩
        · rw [hnone] at hl
          cases hl
      · refine ⟨?_, fun heq => absurd heq hempty⟩
        by_contra hnot
        exact helsewhere hempty hnot r l hr hl hrl

theorem fileAt_textOf {names : Location} (hnames : ∀ name ∈ names, IsName name) (isEnded : Bool) {file : StoredFile}
    (h : fileAt machine (textOf names isEnded) = some file) :
    ∃ l, machine.files.leads true [] names = some l ∧ machine.files.item l = some (.file file) := by
  unfold fileAt at h
  split at h
  · cases h
  · next hend =>
    have htext : textOf names isEnded = textOf names false := by
      cases isEnded with
      | false => rfl
      | true =>
          by_cases hempty : names = []
          · subst hempty
            rfl
          · rw [textOf_of_ne hempty, if_pos rfl] at hend
            exact absurd List.getLast?_concat hend
    rw [htext, namesIn_textOf hnames] at h
    split at h
    · cases h
    · next l hl =>
      split at h
      · next file' hitem =>
        cases h
        exact ⟨l, hl, hitem⟩
      · cases h

/-- What is read is a file's that the path leads to. -/
theorem read_ok {content : ProjectFileContent} (h : read decode machine root path = .ok content) :
    (∃ full, ProjectPaths.resolve machine.working.directory root path = .ok full) ∧
      ∃ l file, pathLocation machine root path = some l ∧ machine.files.item l = some (.file file) ∧
        content = contentOf decode path file.bytes := by
  unfold read at h
  split at h
  · cases h
  · cases h
  · next full hfull =>
    refine ⟨⟨full, hfull⟩, ?_⟩
    split at h
    · cases h
    · next file hfile =>
      split at h
      · cases h
        by_cases hlegible : Legible root path
        · obtain ⟨isEnded, hresolve⟩ := ProjectPaths.resolve_of_legible machine.working hlegible
          rw [hresolve] at hfull
          split at hfull
          · cases hfull
            obtain ⟨l, hl, hitem⟩ :=
              fileAt_textOf (ProjectPaths.pathNames_isName machine.working hlegible.root hlegible.relative) isEnded hfile
            refine ⟨l, file, ?_, hitem, rfl⟩
            unfold pathLocation location
            rw [if_neg hlegible.relative]
            exact FileSystem.leads_of_strict hl
          · cases hfull
        · rw [ProjectPaths.resolve_of_not_legible machine.working hlegible] at hfull
          cases hfull
      · cases h

/-- **`Resolve` tells inside from outside just where links keep the sides**, and then nothing outside is read. -/
theorem contained_iff : Contained decode machine root path ↔ KeepsSides machine root path := by
  by_cases hlegible : Legible root path
  · obtain ⟨isEnded, hresolve⟩ := ProjectPaths.resolve_of_legible machine.working hlegible
    rw [← below_iff_inside hlegible]
    constructor
    · rintro ⟨hreturns, -, -⟩
      rw [← hreturns, hresolve]
      split
      · next hbelow => exact iff_of_true hbelow ⟨_, rfl⟩
      · next hbelow =>
        refine iff_of_false hbelow ?_
        rintro ⟨full, hfull⟩
        cases hfull
    · intro hiff
      have hreturns : (∃ full, ProjectPaths.resolve machine.working.directory root path = .ok full) ↔
          Inside machine root path := by
        rw [← hiff, hresolve]
        split
        · next hbelow => exact iff_of_true ⟨_, rfl⟩ hbelow
        · next hbelow =>
          refine iff_of_false ?_ hbelow
          rintro ⟨full, hfull⟩
          cases hfull
      refine ⟨hreturns, fun hnot => ?_, fun content hread => ?_⟩
      · rw [hresolve, if_neg fun hbelow => hnot (hiff.mp hbelow)]
        exact ⟨_, rfl⟩
      · obtain ⟨hfull, l, file, hl, hitem, hcontent⟩ := read_ok decode hread
        obtain ⟨r, l', hr, hl', hrl⟩ := hreturns.mp hfull
        rw [hl] at hl'
        cases hl'
        exact ⟨r, l, file, hr, hitem, hcontent, hrl⟩
  · refine iff_of_false ?_ fun h => hlegible h.legible
    rintro ⟨hreturns, hrefuses, -⟩
    have hresolve := ProjectPaths.resolve_of_not_legible machine.working hlegible
    by_cases hinside : Inside machine root path
    · obtain ⟨full, hfull⟩ := hreturns.mpr hinside
      rw [hresolve] at hfull
      cases hfull
    · obtain ⟨message, hmessage⟩ := hrefuses hinside
      rw [hresolve] at hmessage
      cases hmessage

variable (machine root path) in
/-- Where there are no links, and the root is not the root of the file system, nothing can go wrong. -/
theorem keepsSides_of_no_links (hlegible : Legible root path) (hroot : rootNames machine.working root ≠ [])
    (hrootLinks : machine.files.Physical (rootNames machine.working root))
    (hpathLinks : machine.files.Physical (pathNames machine.working root path)) : KeepsSides machine root path := by
  have hr : machine.files.leads false [] (rootNames machine.working root) = some (rootNames machine.working root) :=
    FileSystem.leads_of_physical hrootLinks
  have hl : machine.files.leads false [] (pathNames machine.working root path) =
      some (pathNames machine.working root path) :=
    FileSystem.leads_of_physical hpathLinks
  rw [← below_iff_inside hlegible, inside_iff hlegible, hr, hl]
  constructor
  · rintro ⟨hbegins, -⟩
    exact ⟨_, _, rfl, rfl, hbegins⟩
  · rintro ⟨r, l, heq, heq', hrl⟩
    cases heq
    cases heq'
    exact ⟨hrl, fun hempty => absurd hempty hroot⟩

end Containment

/-! ## A link out of the project -/

/-- A project whose directory `x` is a link to a directory beside the project. -/
def linkedOut : Machine where
  files :=
    { items := [(["p".toList], .directory true), (["p".toList, "x".toList], .link (pathOf "/s".toList)),
        (["s".toList], .directory true), (["s".toList, "k".toList], .file ⟨true, [75]⟩)]
      nodup := by decide
      named := by decide
      placed := by decide }
  working := ⟨[], by decide⟩

/-- A file outside is read through the link. -/
theorem outside_is_read : ¬Contained (fun bytes => bytes.map fun byte => Char.ofNat byte.toNat) linkedOut "/p".toList
    "x/k".toList := by
  intro h
  obtain ⟨r, l, hr, hl, hrl⟩ := h.returns.mp ⟨"/p/x/k".toList, by decide +kernel⟩
  have hroot : rootLocation linkedOut "/p".toList = some ["p".toList] := by decide +kernel
  have hpath : pathLocation linkedOut "/p".toList "x/k".toList = some ["s".toList, "k".toList] := by decide +kernel
  rw [hroot] at hr
  rw [hpath] at hl
  cases hr
  cases hl
  revert hrl
  decide +kernel

end ProjectService

end AtlasFlow
