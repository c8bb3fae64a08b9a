import AtlasFlow.Data.Attempts
import AtlasFlow.Reference.Site

/-!
# Projects at a place

A project is a tree of files that lies somewhere: `Tree` is the project without its place, and `place` puts it
below a directory. Discovery works on absolute paths, and what a document holds is made of what is below.
-/

namespace AtlasFlow.Reference.Documents

open GoalFile (Key Value)
open Attempts

/-- The names that `discover_documents` passes over, wherever they are in a path. -/
def skippedNames : List String := ["node_modules", "build", "dist"]

/-- The same file in a directory above. -/
def DocumentFile.under (dir : List String) (file : DocumentFile) : DocumentFile :=
  { file with parts := dir ++ file.parts }

theorem under_under (root dir : List String) (file : DocumentFile) :
    (file.under dir).under root = file.under (root ++ dir) := by
  unfold DocumentFile.under
  rw [List.append_assoc]

/-- A project without its place. The files are those below the directory of the documents, by their paths
from there, and that directory has its path from the root. A name has no slash. -/
structure Tree where
  docsRoot : List String
  manifest : Except SiteError Manifest
  docsRootIsDir : Bool := true
  files : List DocumentFile
  distinct : (files.map DocumentFile.parts).Nodup
  named : ∀ file ∈ files, file.parts ≠ []
  plain : ∀ file ∈ files, ∀ part ∈ docsRoot ++ file.parts, '/' ∉ part.toList
  empty_of_no_dir : docsRootIsDir = false → files = []

theorem map_under_parts (dir : List String) (files : List DocumentFile) :
    (files.map (DocumentFile.under dir)).map DocumentFile.parts =
      (files.map DocumentFile.parts).map (dir ++ ·) := by
  rw [List.map_map, List.map_map]
  rfl

/-- The text of a path says what its parts are. -/
theorem intercalate_injective {parts other : List String} (hne : parts ≠ []) (hother : other ≠ [])
    (hplain : ∀ part ∈ parts, '/' ∉ part.toList) (hotherPlain : ∀ part ∈ other, '/' ∉ part.toList)
    (h : "/".intercalate parts = "/".intercalate other) : parts = other := by
  have hsplit : ∀ parts : List String, parts ≠ [] → (∀ part ∈ parts, '/' ∉ part.toList) →
      ("/".intercalate parts).toList.splitOn '/' = parts.map String.toList := by
    intro parts hne hplain
    rw [String.toList_intercalate]
    apply List.splitOn_intercalate
    · intro part hpart
      obtain ⟨text, htext, rfl⟩ := List.mem_map.mp hpart
      exact hplain text htext
    · simpa using hne
  have hlists := hsplit parts hne hplain
  rw [h, hsplit other hother hotherPlain] at hlists
  exact (List.map_injective_iff.mpr (fun _ _ => String.toList_injective) hlists).symm

/-- The project in the directory `root`. -/
def Tree.place (tree : Tree) (root : List String) : Project where
  root
  manifest := tree.manifest
  docsRootIsDir := tree.docsRootIsDir
  files := tree.files.map (DocumentFile.under (root ++ tree.docsRoot))
  distinct := by
    rw [map_under_parts]
    exact tree.distinct.map (List.append_right_injective _)
  empty_of_no_dir := by
    intro h
    rw [tree.empty_of_no_dir h]
    rfl

/-! ## Parsing -/

section Parse

variable {lib : Library} {root dir : List String} {file : DocumentFile} {manifest : Manifest}
  {document : ParsedDocument}

theorem relativeTo_append (root parts : List String) : relativeTo root (root ++ parts) = .ok parts := by
  rw [relativeTo, if_pos, List.drop_left]
  rw [List.isPrefixOf_iff_prefix]
  exact List.prefix_append root parts

theorem isDocument_under (root : List String) (file : DocumentFile) :
    (file.under root).isDocument = (file.isDocument && !root.any (skippedNames.contains ·)) := by
  unfold DocumentFile.isDocument DocumentFile.under skippedNames
  rw [List.any_append, Bool.not_or, Bool.not_or, Bool.not_or]
  ac_rfl

theorem getLast?_under (root : List String) (h : file.parts ≠ []) :
    (file.under root).parts.getLast? = file.parts.getLast? := by
  show (root ++ file.parts).getLast? = _
  rw [List.getLast?_append, List.getLast?_eq_getLast_of_ne_nil h]
  rfl

/-- `raw_metadata`, after what the header leaves out was filled in. -/
def completed (lib : Library) (parts : List String) (raw : Dict Key Value) (body : String) : Dict Key Value :=
  let raw := setDefaultStr raw "title" (titleFromBody lib body (parts.getLast?.getD ""))
  let raw := setDefaultStr raw "id" (documentId ("/".intercalate parts))
  let raw := setDefaultStr raw "section" (sectionOf parts)
  let tokens := toString (estimateTokens body)
  raw.setDefault (.str "estimated_tokens") (.other ⟨"int", true, tokens, tokens⟩ none)

/-- The document of a file without front matter. -/
def legacyDocument (lib : Library) (manifest : Manifest) (parts : List String) (body : String) : ParsedDocument where
  relativePath := "/".intercalate parts
  metadata := {
    id := documentId ("/".intercalate parts)
    title := titleFromBody lib body (parts.getLast?.getD "")
    visibility := legacyVisibility parts manifest
    section_ := some (sectionOf parts)
    estimatedTokens := some (estimateTokens body) }
  body
  hasFrontMatter := false

/-- What a text below the root is parsed to, by its path from there. -/
inductive Parses (lib : Library) (manifest : Manifest) (parts : List String) (text : String) : ParsedDocument → Prop
  | legacy {body : String} (hsplit : splitFrontMatter lib text = .ok (none, body))
      (htitle : titleFromBody lib body (parts.getLast?.getD "") ≠ "") :
      Parses lib manifest parts text (legacyDocument lib manifest parts body)
  | headed {raw : Dict Key Value} {body : String} {metadata : DocumentMetadata}
      (hsplit : splitFrontMatter lib text = .ok (some raw, body))
      (hvalid : lib.modelValidate (completed lib parts raw body) = .ok metadata) :
      Parses lib manifest parts text ⟨"/".intercalate parts, metadata, body, true⟩

/-- The rest of `parse_document`, once the text was read. -/
theorem parseDocument_eq (root : List String) (h : file.parts ≠ []) {text : String} (htext : file.text = .ok text) :
    parseDocument lib root (file.under root) manifest = (do
      let path := "/".intercalate (file.under root).parts
      let (raw?, body) ← splitFrontMatter lib text
      match raw? with
      | none =>
        if titleFromBody lib body (file.parts.getLast?.getD "") = "" then
          .error (.validationError "title: String should have at least 1 character")
        else return legacyDocument lib manifest file.parts body
      | some raw =>
        match lib.modelValidate (completed lib file.parts raw body) with
        | .error exc => .error (.documentParseError s!"{path}: invalid document metadata: {exc}")
        | .ok metadata => return ⟨"/".intercalate file.parts, metadata, body, true⟩) := by
  have hplaced : relativeTo root (file.under root).parts = .ok file.parts := relativeTo_append root file.parts
  have htext : (file.under root).text = .ok text := htext
  unfold parseDocument
  rw [getLast?_under root h, hplaced, htext]
  rfl

theorem parseDocument_ok_iff (root : List String) (h : file.parts ≠ []) :
    parseDocument lib root (file.under root) manifest = .ok document ↔
      ∃ text, file.text = .ok text ∧ Parses lib manifest file.parts text document := by
  cases htext : file.text with
  | error e =>
      have herror : (file.under root).text = .error e := htext
      constructor
      · intro hok
        unfold parseDocument at hok
        rw [herror] at hok
        cases hok
      · rintro ⟨text, hok, _⟩
        cases hok
  | ok text =>
      rw [parseDocument_eq root h htext]
      constructor
      · intro hok
        refine ⟨text, rfl, ?_⟩
        obtain ⟨split, hsplit, hok⟩ := of_bind_ok hok
        obtain ⟨raw?, body⟩ := split
        cases raw? with
        | none =>
            dsimp only at hok
            split at hok
            · cases hok
            · next htitle =>
              cases hok
              exact .legacy hsplit htitle
        | some raw =>
            cases hvalid : lib.modelValidate (completed lib file.parts raw body) with
            | error exc =>
                simp only [hvalid] at hok
                cases hok
            | ok metadata =>
                simp only [hvalid] at hok
                cases hok
                exact .headed hsplit hvalid
      · rintro ⟨_, hok, hparses⟩
        cases hok
        cases hparses with
        | legacy hsplit htitle =>
            rw [hsplit]
            exact if_neg htitle
        | headed hsplit hvalid =>
            rw [hsplit]
            simp only [bind, Except.bind, hvalid]
            rfl

/-- A document is what its file holds, and nothing above its project. What is raised names the file. -/
theorem parseDocument_place (lib : Library) (root other : List String) (h : file.parts ≠ []) (manifest : Manifest) :
    (parseDocument lib root (file.under root) manifest).toOption =
      (parseDocument lib other (file.under other) manifest).toOption := by
  apply Option.ext
  intro d
  rw [toOption_eq_some, toOption_eq_some, parseDocument_ok_iff root h, parseDocument_ok_iff other h]

end Parse

/-! ## What a site does not show -/

/-- The project without one of its files. -/
def Project.without (project : Project) (file : DocumentFile) : Project where
  root := project.root
  manifest := project.manifest
  docsRootIsDir := project.docsRootIsDir
  files := project.files.filter (· ≠ file)
  distinct := (List.filter_sublist.map _).nodup project.distinct
  empty_of_no_dir := by
    intro h
    rw [project.empty_of_no_dir h]
    rfl

/-- Nothing of a file is in any public or internal site: the site is the same without it, whatever was built into
either directory before. -/
def Unseen (lib : Library) (project : Project) (file : DocumentFile) : Prop :=
  ∀ visibility requested out out' result result' built built', Visibility.ofText visibility = some requested →
    requested ≠ .private_ → Built lib out → Built lib out' →
    buildSite lib project visibility out = .ok (result, built) →
    buildSite lib (project.without file) visibility out' = .ok (result', built') →
    built.files = built'.files ∧ result = result'

/-- A private document is in no public and in no internal site. -/
theorem unseen_of_private {lib : Library} {project : Project} {file : DocumentFile}
    (h : ∀ manifest document, project.manifest = .ok manifest →
      parseDocument lib project.root file manifest = .ok document → document.metadata.visibility = .private_) :
    Unseen lib project file := by
  intro visibility requested out out' result result' built built' hrequested hne hout hout' hbuild hbuild'
  obtain ⟨requested₁, manifest, hrequested₁, hmanifest, hfiles, rfl⟩ := buildSite_files hout.tidy hbuild
  obtain ⟨requested₂, manifest', hrequested₂, hmanifest', hfiles', rfl⟩ := buildSite_files hout'.tidy hbuild'
  cases hrequested.symm.trans hrequested₁
  cases hrequested.symm.trans hrequested₂
  have hsame : manifest = manifest' := Except.ok.inj (hmanifest.symm.trans hmanifest')
  subst hsame
  have hdocuments : project.sortedFiles.filterMap (documentOf lib project.root manifest (isVisible requested)) =
      (project.without file).sortedFiles.filterMap (documentOf lib project.root manifest (isVisible requested)) := by
    apply filterMap_sortedFiles
    intro other hshown
    show other ∈ project.files ↔ other ∈ project.files.filter (· ≠ file)
    rw [List.mem_filter]
    constructor
    · intro hother
      refine ⟨hother, ?_⟩
      rw [decide_eq_true_eq]
      rintro rfl
      obtain ⟨document, hdocument⟩ := Option.isSome_iff_exists.mp hshown
      unfold documentOf at hdocument
      split at hdocument
      · obtain ⟨hparse, hvisible⟩ := Option.filter_eq_some_iff.mp hdocument
        have hprivate := h manifest document hmanifest (toOption_eq_some.mp hparse)
        unfold isVisible at hvisible
        rw [hprivate, decide_eq_true_eq] at hvisible
        cases requested with
        | private_ => exact hne rfl
        | public_ => exact absurd hvisible (by decide)
        | internal => exact absurd hvisible (by decide)
      · cases hdocument
    · exact And.left
  have hroot : (project.without file).root = project.root := rfl
  rw [hroot, ← hdocuments] at hfiles' ⊢
  exact ⟨hfiles.trans hfiles'.symm, rfl⟩

end AtlasFlow.Reference.Documents
