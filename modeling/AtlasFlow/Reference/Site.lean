import AtlasFlow.Data.Json
import AtlasFlow.Reference.Documents

/-!
# The documentation site

`evolution/site.py`: a site shows the documents up to a visibility. Sites of any visibility are built into
one directory, one after another; a marker in it lists the files of the last.
-/

namespace AtlasFlow.Reference.Documents

/-! ## The output directory -/

/-- What a file holds. A JSON file is kept as its value, which is what `json.loads` reads back. -/
inductive Content where
  | text (s : String)
  | json (value : Json)
  deriving DecidableEq, Repr

/-- The output directory: the files and the directories below it, by their paths in it. -/
structure Output where
  there : Bool
  files : Dict String Content
  dirs : List String
  empty_of_not_there : there = false → files = [] ∧ dirs = []

namespace Output

/-- Before the first build. -/
def absent : Output := ⟨false, [], [], fun _ => ⟨rfl, rfl⟩⟩

/-- `path.parent` and the directories above it, inside the output directory. -/
def ancestors (path : String) : List String :=
  ((List.range path.toList.length).filter fun i => path.toList[i]? = some '/').map fun i =>
    String.ofList (path.toList.take i)

/-- `output.mkdir(parents=True)`, where there is none. -/
def create (out : Output) : Output := ⟨true, out.files, out.dirs, nofun⟩

/-- One directory of `mkdir(parents=True, exist_ok=True)`. -/
def makeDir (out : Output) (dir : String) : Except SiteError Output :=
  if dir ∈ out.files.keys then .error (.osError s!"[Errno 17] File exists: '{dir}'")
  else if dir ∈ out.dirs then .ok out
  else .ok ⟨true, out.files, dir :: out.dirs, nofun⟩

/-- `target_path.write_text`, after its directory was made. -/
def writeText (out : Output) (path : String) (content : Content) : Except SiteError Output := do
  let out ← (ancestors path).foldlM makeDir out
  if path ∈ out.dirs then .error (.osError s!"[Errno 21] Is a directory: '{path}'")
  else return ⟨true, out.files.set path content, out.dirs, nofun⟩

/-- `target.unlink()`, if there is such a file. -/
def unlink (out : Output) (path : String) : Output :=
  ⟨out.there, out.files.pop path, out.dirs, fun h => by
    obtain ⟨hfiles, hdirs⟩ := out.empty_of_not_there h
    exact ⟨by rw [hfiles]; rfl, hdirs⟩⟩

end Output

/-- `_MARKER`. -/
def markerName : String := ".atlas-flow-site.json"

/-- `str(relative)`, for a text. -/
def markedFile : Json → Except SiteError String
  | .str path => .ok path
  | _ => .error (.attributeError "the marker lists something that is no text")

/-- `marker.get("files", [])`, as texts. No build writes a marker of another form. -/
def markedFiles : Content → Except SiteError (List String)
  | .json (.obj members) =>
    match (Dict.get? members "files").getD (.arr []) with
    | .arr items => items.mapM markedFile
    | _ => .error (.attributeError "the marker lists no files")
  | _ => .error (.attributeError "the marker is no JSON object")

/-- `_prepare_output`. -/
def prepareOutput (out : Output) : Except SiteError Output :=
  if !out.there then .ok out.create
  else match out.files.get? markerName with
    | none =>
      if out.files ≠ [] || out.dirs ≠ [] then
        .error (.valueError "refusing to write documentation site into non-generated directory")
      else .ok out
    | some marker => do
      let relatives ← markedFiles marker
      return (relatives.foldl Output.unlink out).unlink markerName

/-! ## Pages -/

/-- `html.escape`. -/
def escapeChar (c : Char) : List Char :=
  match c with
  | '&' => "&amp;".toList
  | '<' => "&lt;".toList
  | '>' => "&gt;".toList
  | '"' => "&quot;".toList
  | '\'' => "&#x27;".toList
  | _ => [c]

def escape (s : String) : String := String.ofList (s.toList.flatMap escapeChar)

def link (item : String × String) : String :=
  "<li><a href=\"" ++ escape item.1 ++ "\">" ++ escape item.2 ++ "</a></li>"

def pageHtml (title body : String) (navigation : List (String × String)) : String :=
  let links := "\n".intercalate (navigation.map link)
  "<!doctype html>\n<html lang=\"pt-BR\">\n" ++
    "<head><meta charset=\"utf-8\"><meta name=\"viewport\" content=\"width=device-width,initial-scale=1\">\n" ++
    "<title>" ++ escape title ++ "</title></head>\n<body><nav><ul>" ++ links ++ "</ul></nav><main><h1>" ++
    escape title ++ "</h1>\n<pre>" ++ escape body ++ "</pre></main></body></html>\n"

/-- `f"{document.relative_path.removesuffix('.md')}.html"`. -/
def pagePath (document : ParsedDocument) : String :=
  String.ofList (removeMd document.relativePath.toList) ++ ".html"

/-- The entry of a document in `search.json`. -/
def searchEntry (document : ParsedDocument) : Json :=
  .obj [("id", .str document.metadata.id), ("title", .str document.metadata.title),
    ("path", .str (pagePath document)),
    ("section", match document.metadata.section_ with
      | some name => .str name
      | none => .null),
    ("tags", .arr (document.metadata.tags.map .str))]

/-- The pages of the documents, in order. -/
def pages (documents : List ParsedDocument) : List (String × Content) :=
  let navigation := documents.map fun document => (pagePath document, document.metadata.title)
  documents.map fun document =>
    (pagePath document, .text (pageHtml document.metadata.title document.body navigation))

def searchFile (documents : List ParsedDocument) : String × Content :=
  ("search.json", .json (.arr (documents.map searchEntry)))

def indexFile (manifest : Manifest) (documents : List ParsedDocument) : String × Content :=
  let navigation := documents.map fun document => (pagePath document, document.metadata.title)
  ("index.html", .text (pageHtml s!"{manifest.title} — Documentation" "Generated documentation index" navigation))

/-! ## The build -/

structure SiteBuildResult where
  visibility : String
  pages : List String
  searchIndex : String
  deriving DecidableEq, Repr

/-- `visibility`, if it is in `_VISIBILITY_RANK`. -/
def Visibility.ofText : String → Option Visibility
  | "public" => some .public_
  | "internal" => some .internal
  | "private" => some .private_
  | _ => none

/-- `_visible`. -/
def isVisible (requested : Visibility) (document : ParsedDocument) : Bool :=
  document.metadata.visibility.rank ≤ requested.rank

/-- Everything that a build writes besides the marker. -/
def siteFiles (manifest : Manifest) (documents : List ParsedDocument) : List (String × Content) :=
  pages documents ++ [searchFile documents, indexFile manifest documents]

/-- `sorted(files)`. -/
def sortedNames (files : List (String × Content)) : List String :=
  (files.map Prod.fst).mergeSort fun a b => decide (a ≤ b)

def markerFile (files : List (String × Content)) (visibility : String) : String × Content :=
  (markerName, .json (.obj [("files", .arr ((sortedNames files).map .str)), ("visibility", .str visibility),
    ("schema_version", .num "1")]))

/-- `build_site`, into the directory `out`. -/
def buildSite (lib : Library) (project : Project) (visibility : String) (out : Output) :
    Except SiteError (SiteBuildResult × Output) := do
  match Visibility.ofText visibility with
  | none => .error (.valueError s!"unknown documentation visibility '{visibility}'")
  | some requested =>
    let manifest ← project.manifest
    let discovered ← discoverDocuments lib project manifest
    let documents := discovered.filter (isVisible requested)
    let target ← prepareOutput out
    let files := siteFiles manifest documents
    let written ← (files ++ [markerFile files visibility]).foldlM
      (fun out file => out.writeText file.1 file.2) target
    return (⟨visibility, sortedNames files, "search.json"⟩, written)

/-! ## What a build leaves -/

namespace Output

theorem makeDir_files {out out' : Output} {dir : String} (h : out.makeDir dir = .ok out') : out'.files = out.files := by
  unfold makeDir at h
  split at h
  · cases h
  · split at h <;> cases h <;> rfl

theorem makeDirs_files {out out' : Output} {dirs : List String} (h : dirs.foldlM makeDir out = .ok out') :
    out'.files = out.files := by
  induction dirs generalizing out with
  | nil =>
      cases h
      rfl
  | cons dir dirs ih =>
      rw [List.foldlM_cons] at h
      cases hdir : out.makeDir dir with
      | error e => rw [hdir] at h; cases h
      | ok next =>
          rw [hdir] at h
          rw [ih h, makeDir_files hdir]

theorem writeText_files {out out' : Output} {path : String} {content : Content}
    (h : out.writeText path content = .ok out') : out'.files = out.files.set path content := by
  unfold writeText at h
  cases hdirs : (ancestors path).foldlM makeDir out with
  | error e => rw [hdirs] at h; cases h
  | ok made =>
      simp only [hdirs, bind, Except.bind] at h
      split at h
      · cases h
      · cases h
        exact congrArg (fun files => Dict.set files path content) (makeDirs_files hdirs)

theorem writeAll_files {out out' : Output} {files : List (String × Content)}
    (h : files.foldlM (fun out file => out.writeText file.1 file.2) out = .ok out') :
    out'.files = files.foldl (fun d file => d.set file.1 file.2) out.files := by
  induction files generalizing out with
  | nil =>
      cases h
      rfl
  | cons file files ih =>
      rw [List.foldlM_cons] at h
      cases hfile : out.writeText file.1 file.2 with
      | error e => rw [hfile] at h; cases h
      | ok next =>
          rw [hfile] at h
          rw [ih h, writeText_files hfile, List.foldl_cons]

theorem unlinkAll_files (paths : List String) (out : Output) :
    (paths.foldl unlink out).files = out.files.filter fun file => file.1 ∉ paths := by
  induction paths generalizing out with
  | nil => simp
  | cons path paths ih =>
      rw [List.foldl_cons, ih]
      simp only [unlink, Dict.pop, List.filter_filter, List.mem_cons, not_or, Bool.decide_and]
      exact List.filter_congr fun file _ => Bool.and_comm _ _

/-- The directory holds nothing that its marker does not list. -/
def Tidy (out : Output) : Prop :=
  out.files = [] ∨ ∃ files visibility, out.files.get? markerName = some (markerFile files visibility).2 ∧
    ∀ path ∈ out.files.keys, path = markerName ∨ path ∈ sortedNames files

end Output

theorem markedFiles_markerFile (files : List (String × Content)) (visibility : String) :
    markedFiles (markerFile files visibility).2 = .ok (sortedNames files) := by
  have hitems : ∀ names : List String, (names.map Json.str).mapM markedFile = .ok names := by
    intro names
    induction names with
    | nil => rfl
    | cons name names ih => rw [List.map_cons, List.mapM_cons, ih]; rfl
  exact hitems (sortedNames files)

/-- What was built before is gone before anything is written. -/
theorem prepareOutput_files {out out' : Output} (htidy : out.Tidy) (h : prepareOutput out = .ok out') :
    out'.files = [] := by
  unfold prepareOutput at h
  split at h
  · next hthere =>
    cases h
    exact (out.empty_of_not_there (by simpa using hthere)).1
  · split at h
    · split at h
      · cases h
      · next hempty =>
        cases h
        simp only [ne_eq, Bool.or_eq_true, decide_eq_true_eq, not_or, not_not] at hempty
        exact hempty.1
    · next marker hmarker =>
      rcases htidy with hfiles | ⟨files, visibility, hget, hlisted⟩
      · rw [hfiles] at hmarker
        cases hmarker
      · cases hmarker.symm.trans hget
        rw [markedFiles_markerFile] at h
        cases h
        simp only [Output.unlink, Dict.pop, Output.unlinkAll_files, List.filter_filter, List.filter_eq_nil_iff]
        intro file hfile
        have hpath := hlisted file.1 (List.mem_map_of_mem hfile)
        simp only [Bool.and_eq_true, decide_eq_true_eq, not_and, not_not]
        intro hne
        exact hpath.resolve_left hne

section Build

variable {lib : Library} {project : Project} {visibility : String} {out out' : Output} {result : SiteBuildResult}

/-- The files of a site are those of its documents, whatever was in the directory. -/
theorem buildSite_files (htidy : out.Tidy) (h : buildSite lib project visibility out = .ok (result, out')) :
    ∃ requested manifest, Visibility.ofText visibility = some requested ∧ project.manifest = .ok manifest ∧
      let documents := project.sortedFiles.filterMap
        (documentOf lib project.root manifest (isVisible requested))
      let files := siteFiles manifest documents
      out'.files = Dict.ofItems (files ++ [markerFile files visibility]) ∧
        result = ⟨visibility, sortedNames files, "search.json"⟩ := by
  unfold buildSite at h
  split at h
  · cases h
  · next requested hrequested =>
    cases hmanifest : project.manifest with
    | error e => rw [hmanifest] at h; cases h
    | ok manifest =>
      cases hdiscover : discoverDocuments lib project manifest with
      | error e => rw [hmanifest] at h; simp [hdiscover, bind, Except.bind] at h
      | ok discovered =>
        cases hprepare : prepareOutput out with
        | error e => rw [hmanifest] at h; simp [hdiscover, hprepare, bind, Except.bind] at h
        | ok target =>
          rw [hmanifest] at h
          simp only [hdiscover, hprepare, bind, Except.bind, discover_filter hdiscover] at h
          split at h
          · cases h
          · next written hwritten =>
            cases h
            refine ⟨requested, manifest, hrequested, rfl, ?_, rfl⟩
            rw [Output.writeAll_files hwritten, prepareOutput_files htidy hprepare]
            rfl

/-- A build leaves nothing that its marker does not list. -/
theorem buildSite_tidy (htidy : out.Tidy) (h : buildSite lib project visibility out = .ok (result, out')) :
    out'.Tidy := by
  obtain ⟨requested, manifest, -, -, hfiles, -⟩ := buildSite_files htidy h
  refine Or.inr ⟨siteFiles manifest (project.sortedFiles.filterMap
    (documentOf lib project.root manifest (isVisible requested))), visibility, ?_, fun path hpath => ?_⟩
  · rw [hfiles, Dict.ofItems_append]
    exact Dict.get?_set_self _ _ _
  · rw [hfiles, Dict.mem_keys_ofItems, List.map_append, List.mem_append] at hpath
    rcases hpath with hfile | hmarker
    · exact Or.inr ((List.mergeSort_perm _ _).mem_iff.mpr hfile)
    · exact Or.inl (List.mem_singleton.mp hmarker)

end Build

/-! ## Two projects -/

/-- An output directory after any builds of any projects, each of which succeeded; at first it holds no file. -/
inductive Built (lib : Library) : Output → Prop
  | fresh {out : Output} (h : out.files = []) : Built lib out
  | build {out out' : Output} {project : Project} {visibility : String} {result : SiteBuildResult}
      (h : Built lib out) (hbuild : buildSite lib project visibility out = .ok (result, out')) : Built lib out'

theorem Built.tidy {lib : Library} {out : Output} (h : Built lib out) : out.Tidy := by
  induction h with
  | fresh h => exact Or.inl h
  | build _ hbuild ih => exact buildSite_tidy ih hbuild

/-- A document that a site of the requested visibility may not show. -/
def Hidden (lib : Library) (project : Project) (requested : Visibility) (file : DocumentFile) : Prop :=
  file.isDocument = true ∧ ∃ manifest document, project.manifest = .ok manifest ∧
    parseDocument lib project.root file manifest = .ok document ∧ isVisible requested document = false

/-- Two projects that differ in hidden documents alone. -/
structure DifferInHidden (lib : Library) (requested : Visibility) (project other : Project) : Prop where
  root : project.root = other.root
  manifest : project.manifest = other.manifest
  left : ∀ file ∈ project.files, file ∉ other.files → Hidden lib project requested file
  right : ∀ file ∈ other.files, file ∉ project.files → Hidden lib project requested file

section Independent

variable {lib : Library} {requested : Visibility} {project other : Project}

/-- A document that is shown is in both projects or in neither. -/
theorem DifferInHidden.same (h : DifferInHidden lib requested project other) {manifest : Manifest}
    (hmanifest : project.manifest = .ok manifest) (file : DocumentFile)
    (hshown : (documentOf lib project.root manifest (isVisible requested) file).isSome) :
    file ∈ project.files ↔ file ∈ other.files := by
  have hvisible : ¬ Hidden lib project requested file := by
    rintro ⟨hdocument, manifest', document, hmanifest', hparse, hhidden⟩
    cases hmanifest.symm.trans hmanifest'
    simp [documentOf, hdocument, hparse, Except.toOption, Option.filter, hhidden] at hshown
  constructor
  · intro hfile
    by_contra hother
    exact hvisible (h.left file hfile hother)
  · intro hfile
    by_contra hproject
    exact hvisible (h.right file hfile hproject)

/-- What is published does not depend on what is hidden, nor on what was published before: the output directory
holds the same files, and every one of them is the marker or a file of this build. -/
theorem site_shows_no_hidden {visibility : String} {out out' built built' : Output}
    {result result' : SiteBuildResult} (hrequested : Visibility.ofText visibility = some requested)
    (hsame : DifferInHidden lib requested project other) (hout : Built lib out) (hout' : Built lib out')
    (h : buildSite lib project visibility out = .ok (result, built))
    (h' : buildSite lib other visibility out' = .ok (result', built')) :
    built.files = built'.files ∧ result = result' ∧
      ∀ path ∈ built.files.keys, path = markerName ∨ path ∈ result.pages := by
  obtain ⟨requested₁, manifest, hrequested₁, hmanifest, hfiles, rfl⟩ := buildSite_files hout.tidy h
  obtain ⟨requested₂, manifest', hrequested₂, hmanifest', hfiles', rfl⟩ := buildSite_files hout'.tidy h'
  cases hrequested.symm.trans hrequested₁
  cases hrequested.symm.trans hrequested₂
  cases (hsame.manifest.symm.trans hmanifest).symm.trans hmanifest'
  have hdocuments := filterMap_sortedFiles (hsame.same hmanifest)
  rw [← hsame.root, ← hdocuments] at hfiles' ⊢
  refine ⟨hfiles.trans hfiles'.symm, rfl, fun path hpath => ?_⟩
  · rw [hfiles, Dict.mem_keys_ofItems, List.map_append, List.mem_append] at hpath
    rcases hpath with hfile | hmarker
    · exact Or.inr ((List.mergeSort_perm _ _).mem_iff.mpr hfile)
    · exact Or.inl (List.mem_singleton.mp hmarker)

end Independent

/-! ### A page and a secret -/

def plainLibrary : Library where
  safeLoad _ := .error "no front matter here"
  modelValidate _ := .error "no front matter here"
  title s := s

def openManifest : Manifest where
  publicSections := ["docs"]

def guide : DocumentFile where
  parts := ["/", "atlas", "docs", "guide.md"]
  text := .ok "# Guide\nRead this."

def plans : DocumentFile where
  parts := ["/", "atlas", "internal", "plans.md"]
  text := .ok "# Plans\nNot yet."

def openProject : Project where
  root := ["/", "atlas"]
  manifest := .ok openManifest
  files := [guide]
  distinct := by decide
  empty_of_no_dir := fun h => Bool.noConfusion h

def fullProject : Project where
  root := ["/", "atlas"]
  manifest := .ok openManifest
  files := [guide, plans]
  distinct := by decide
  empty_of_no_dir := fun h => Bool.noConfusion h

def guideDocument : ParsedDocument where
  relativePath := "docs/guide.md"
  metadata := {
    id := "DOC-DOCS-GUIDE", title := "Guide", visibility := .public_, section_ := some "docs"
    estimatedTokens := some 5 }
  body := "# Guide\nRead this."
  hasFrontMatter := false

def plansDocument : ParsedDocument where
  relativePath := "internal/plans.md"
  metadata := {
    id := "DOC-INTERNAL-PLANS", title := "Plans", section_ := some "internal", estimatedTokens := some 4 }
  body := "# Plans\nNot yet."
  hasFrontMatter := false

theorem parse_plans : parseDocument plainLibrary ["/", "atlas"] plans openManifest = .ok plansDocument := by
  decide +kernel

theorem build_open : ∃ result built,
    buildSite plainLibrary openProject "public" Output.absent = .ok (result, built) := by
  have hsorted : openProject.sortedFiles = [guide] := List.mergeSort_singleton guide
  have hdiscover : discoverDocuments plainLibrary openProject openManifest = .ok [guideDocument] := by
    rw [discoverDocuments, hsorted]
    decide +kernel
  have hmanifest : openProject.manifest = .ok openManifest := rfl
  simp only [buildSite, Visibility.ofText, hmanifest, bind, Except.bind, hdiscover]
  exact ⟨_, _, rfl⟩

theorem build_full : ∃ result built,
    buildSite plainLibrary fullProject "public" Output.absent = .ok (result, built) := by
  have hsorted : fullProject.sortedFiles = [guide, plans] := List.mergeSort_of_pairwise (by decide)
  have hdiscover : discoverDocuments plainLibrary fullProject openManifest =
      .ok [guideDocument, plansDocument] := by
    rw [discoverDocuments, hsorted]
    decide +kernel
  have hmanifest : fullProject.manifest = .ok openManifest := rfl
  simp only [buildSite, Visibility.ofText, hmanifest, bind, Except.bind, hdiscover]
  exact ⟨_, _, rfl⟩

/-- The public sites of both projects are the same. -/
theorem site_shows_no_hidden_plans : ∃ result built result' built',
    buildSite plainLibrary openProject "public" Output.absent = .ok (result, built) ∧
    buildSite plainLibrary fullProject "public" Output.absent = .ok (result', built') ∧
    built.files = built'.files := by
  obtain ⟨result, built, h⟩ := build_open
  obtain ⟨result', built', h'⟩ := build_full
  have hsame : DifferInHidden plainLibrary .public_ openProject fullProject := {
    root := rfl
    manifest := rfl
    left := fun file hfile hother => by
      cases List.mem_singleton.mp hfile
      exact absurd List.mem_cons_self hother
    right := fun file hfile hproject => by
      rcases List.mem_cons.mp hfile with rfl | hplans
      · exact absurd List.mem_cons_self hproject
      · cases List.mem_singleton.mp hplans
        exact ⟨rfl, openManifest, plansDocument, rfl, parse_plans, rfl⟩ }
  have hfresh : Built plainLibrary Output.absent := .fresh rfl
  exact ⟨result, built, result', built', h, h', (site_shows_no_hidden rfl hsame hfresh hfresh h h').1⟩

end AtlasFlow.Reference.Documents
