import Mathlib.Data.List.Lex
import Mathlib.Data.String.Basic
import AtlasFlow.Reference.GoalFile
import AtlasFlow.Data.Attempts

/-!
# Project documents

`evolution/documents.py`: the markdown files of a project, and the metadata of each, from its front matter
or, for a file without any, from its place and its text.
-/

namespace AtlasFlow.Reference.Documents

open GoalFile (Key Value isSpace strip)

inductive SiteError where
  | documentParseError (message : String)
  | validationError (message : String)
  | valueError (message : String)
  | osError (message : String)
  | attributeError (message : String)
  deriving DecidableEq, Repr

inductive Visibility where
  | public_
  | internal
  | private_
  deriving DecidableEq, Repr

/-- `_VISIBILITY_RANK`. -/
def Visibility.rank : Visibility → Nat
  | .public_ => 0
  | .internal => 1
  | .private_ => 2

/-- Of `DocumentMetadata` what discovery sets and a site shows. -/
structure DocumentMetadata where
  id : String
  title : String
  visibility : Visibility := .internal
  section_ : Option String
  estimatedTokens : Option Nat
  tags : List String := []
  deriving DecidableEq, Repr

/-- Of `ProjectManifest` what documents and their site read. -/
structure Manifest where
  title : String := "Project documentation"
  defaultVisibility : Visibility := .internal
  publicSections : List String := []
  internalSections : List String := []
  privateSections : List String := []
  deriving DecidableEq, Repr

structure ParsedDocument where
  relativePath : String
  metadata : DocumentMetadata
  body : String
  hasFrontMatter : Bool
  deriving DecidableEq, Repr

/-- PyYAML, pydantic and `str.title`. -/
structure Library where
  safeLoad : String → Except String Value
  modelValidate : Dict Key Value → Except String DocumentMetadata
  title : String → String

/-! ## Front matter -/

/-- What may follow a match of `\s*\n`, the longest match first. -/
def lineEnds : List Char → List (List Char)
  | [] => []
  | c :: cs => (if isSpace c then lineEnds cs else []) ++ if c = '\n' then [cs] else []

/-- The header and the body, where the text goes on after the first fence. The header is as short as possible. -/
def splitHeader (cs : List Char) : Option (List Char × List Char) :=
  match (if "\n---".toList.isPrefixOf cs then (lineEnds (cs.drop 4)).head? else none), cs with
  | some body, _ => some ([], body)
  | none, [] => none
  | none, c :: cs => (splitHeader cs).map fun (header, body) => (c :: header, body)

/-- `_FRONT_MATTER.match(text)`. -/
def matchFrontMatter (cs : List Char) : Option (List Char × List Char) :=
  if "---".toList.isPrefixOf cs then (lineEnds (cs.drop 3)).findSome? splitHeader else none

/-- `yaml.safe_load(header) or {}`. -/
def orEmpty (value : Value) : Value := if value.truthy then value else .dict []

def splitFrontMatter (lib : Library) (text : String) : Except SiteError (Option (Dict Key Value) × String) :=
  match matchFrontMatter text.toList with
  | none => .ok (none, text)
  | some (header, body) =>
    match (lib.safeLoad (String.ofList header)).map orEmpty with
    | .error exc => .error (.documentParseError s!"invalid YAML front matter: {exc}")
    | .ok (.dict header) => .ok (some header, String.ofList body)
    | .ok _ => .error (.documentParseError "front matter must be a YAML mapping")

/-! ## Metadata of a file without front matter -/

/-- The characters that end a line for `str.splitlines`. -/
def isLineBreak (c : Char) : Bool :=
  let n := c.toNat
  (10 ≤ n && n ≤ 13) || (28 ≤ n && n ≤ 30) || n = 0x85 || n = 0x2028 || n = 0x2029

/-- `text.splitlines()`; `line` is the line begun, reversed. -/
def splitLines : List Char → List Char → List (List Char)
  | line, [] => if line = [] then [] else [line.reverse]
  | line, '\r' :: '\n' :: cs => line.reverse :: splitLines [] cs
  | line, c :: cs => if isLineBreak c then line.reverse :: splitLines [] cs else splitLines (c :: line) cs

/-- `path.stem`: a dot that comes first or last begins no suffix. -/
def stem (name : List Char) : List Char :=
  let suffix := name.reverse.takeWhile (· ≠ '.')
  let i := name.length - suffix.length - 1
  if suffix.length < name.length ∧ 0 < i ∧ i < name.length - 1 then name.take i else name

/-- `path.stem.replace("_", " ").replace("-", " ")`. -/
def spaced (cs : List Char) : List Char := cs.map fun c => if c = '_' ∨ c = '-' then ' ' else c

def titleFromBody (lib : Library) (body : String) (name : String) : String :=
  match (splitLines [] body.toList).find? fun line => "# ".toList.isPrefixOf line with
  | some line => String.ofList (strip (line.drop 2))
  | none => lib.title (String.ofList (strip (spaced (stem name.toList))))

/-- `relative_path.removesuffix(".md")`. -/
def removeMd (cs : List Char) : List Char :=
  if ".md".toList.isSuffixOf cs then cs.take (cs.length - 3) else cs

/-- `re.sub(r"[^A-Za-z0-9]+", "-", text)`; `dashed` after a run that was replaced. -/
def slug : Bool → List Char → List Char
  | _, [] => []
  | dashed, c :: cs =>
    if c.isAlphanum then c :: slug false cs else if dashed then slug true cs else '-' :: slug true cs

def documentId (relativePath : String) : String :=
  let cs := slug false (removeMd relativePath.toList)
  let stripped := ((cs.dropWhile (· = '-')).reverse.dropWhile (· = '-')).reverse
  "DOC-" ++ (String.ofList stripped).toUpper

/-- `_section`, of the parts of a relative path. -/
def sectionOf : List String → String
  | [] => "root"
  | part :: _ => part

def legacyVisibility (parts : List String) (manifest : Manifest) : Visibility :=
  let name := sectionOf parts
  if name ∈ manifest.publicSections then .public_
  else if name ∈ manifest.privateSections then .private_
  else if name ∈ manifest.internalSections then .internal
  else manifest.defaultVisibility

/-- `max(1, (len(body) + 3) // 4)`. -/
def estimateTokens (body : String) : Nat := max 1 ((body.length + 3) / 4)

/-! ## Discovery -/

/-- A file that `rglob("*.md")` finds: its path, part by part, and what reading it gives. -/
structure DocumentFile where
  parts : List String
  isSymlink : Bool := false
  text : Except String String
  deriving DecidableEq, Repr

/-- A project as the site builder finds it. `manifest` is what `load_manifest` gives, `files` what is found
below the directory of the documents, in any order. -/
structure Project where
  root : List String
  manifest : Except SiteError Manifest
  docsRootIsDir : Bool := true
  files : List DocumentFile
  distinct : (files.map DocumentFile.parts).Nodup
  empty_of_no_dir : docsRootIsDir = false → files = []

/-- `path.relative_to(root)`. -/
def relativeTo (root parts : List String) : Except SiteError (List String) :=
  if root.isPrefixOf parts then .ok (parts.drop root.length)
  else .error (.valueError "the path is not in the subpath of the root")

/-- `raw_metadata.setdefault(key, value)`, of a text. -/
def setDefaultStr (data : Dict Key Value) (key value : String) : Dict Key Value :=
  data.setDefault (.str key) (.str value)

def parseDocument (lib : Library) (root : List String) (file : DocumentFile) (manifest : Manifest) :
    Except SiteError ParsedDocument := do
  let path := "/".intercalate file.parts
  let text ← match file.text with
    | .ok text => .ok text
    | .error exc => .error (SiteError.documentParseError s!"{path}: cannot read document: {exc}")
  let parts ← relativeTo root file.parts
  let relativePath := "/".intercalate parts
  let (rawMetadata, body) ← splitFrontMatter lib text
  let title := titleFromBody lib body (file.parts.getLast?.getD "")
  match rawMetadata with
  | none =>
    if title = "" then .error (.validationError "title: String should have at least 1 character")
    else return {
      relativePath := relativePath
      metadata := {
        id := documentId relativePath
        title := title
        visibility := legacyVisibility parts manifest
        section_ := some (sectionOf parts)
        estimatedTokens := some (estimateTokens body) }
      body := body
      hasFrontMatter := false }
  | some raw =>
    let raw := setDefaultStr raw "title" title
    let raw := setDefaultStr raw "id" (documentId relativePath)
    let raw := setDefaultStr raw "section" (sectionOf parts)
    let tokens := toString (estimateTokens body)
    let raw := raw.setDefault (.str "estimated_tokens") (.other ⟨"int", true, tokens, tokens⟩ none)
    match lib.modelValidate raw with
    | .error exc => .error (.documentParseError s!"{path}: invalid document metadata: {exc}")
    | .ok metadata => return ⟨relativePath, metadata, body, true⟩

/-- The files that the loop of `discover_documents` does not pass over. -/
def DocumentFile.isDocument (file : DocumentFile) : Bool :=
  !(file.isSymlink || file.parts.any fun part => ["node_modules", "build", "dist"].contains part)

/-- `sorted(docs_root.rglob("*.md"))`: paths are compared part by part. -/
def Project.sortedFiles (project : Project) : List DocumentFile :=
  project.files.mergeSort fun a b => decide (a.parts ≤ b.parts)

def discoverDocuments (lib : Library) (project : Project) (manifest : Manifest) :
    Except SiteError (List ParsedDocument) :=
  if !project.docsRootIsDir then .ok []
  else (project.sortedFiles.filter DocumentFile.isDocument).mapM fun file =>
    parseDocument lib project.root file manifest

/-! ## What discovery finds -/

section Discover

variable {lib : Library} {project other : Project} {manifest : Manifest} {documents : List ParsedDocument}
  {p : ParsedDocument → Bool}

/-- The document that a file holds, if it holds one that is asked for. -/
def documentOf (lib : Library) (root : List String) (manifest : Manifest) (p : ParsedDocument → Bool)
    (file : DocumentFile) : Option ParsedDocument :=
  if file.isDocument then (parseDocument lib root file manifest).toOption.filter p else none

theorem discover_filter (h : discoverDocuments lib project manifest = .ok documents) :
    documents.filter p = project.sortedFiles.filterMap (documentOf lib project.root manifest p) := by
  unfold discoverDocuments at h
  split at h
  · next hdir =>
    cases h
    rw [Project.sortedFiles, project.empty_of_no_dir (by simpa using hdir), List.mergeSort_nil]
    rfl
  · rw [Attempts.mapM_ok_filterMap h, List.filter_filterMap, List.filterMap_filter]
    rfl

theorem Project.sortedFiles_pairwise (project : Project) :
    project.sortedFiles.Pairwise fun a b => a.parts ≤ b.parts := by
  have htrans : ∀ a b c : DocumentFile, decide (a.parts ≤ b.parts) = true → decide (b.parts ≤ c.parts) = true →
      decide (a.parts ≤ c.parts) = true :=
    fun a b c hab hbc => decide_eq_true (le_trans (of_decide_eq_true hab) (of_decide_eq_true hbc))
  have htotal : ∀ a b : DocumentFile, (decide (a.parts ≤ b.parts) || decide (b.parts ≤ a.parts)) = true := by
    intro a b
    rw [Bool.or_eq_true, decide_eq_true_eq, decide_eq_true_eq]
    exact le_total a.parts b.parts
  have hsorted := List.pairwise_mergeSort htrans htotal project.files
  exact hsorted.imp fun hle => of_decide_eq_true hle

theorem Project.mem_sortedFiles {file : DocumentFile} : file ∈ project.sortedFiles ↔ file ∈ project.files :=
  (List.mergeSort_perm _ _).mem_iff

theorem Project.sortedFiles_nodup (project : Project) : project.sortedFiles.Nodup :=
  (List.mergeSort_perm _ _).nodup_iff.mpr (List.Nodup.of_map _ project.distinct)

/-- Two projects with the same files of some kind have them in the same order. -/
theorem filter_sortedFiles {q : DocumentFile → Bool}
    (hsame : ∀ file, q file = true → (file ∈ project.files ↔ file ∈ other.files)) :
    project.sortedFiles.filter q = other.sortedFiles.filter q := by
  have hmem : ∀ file, file ∈ project.sortedFiles.filter q ↔ file ∈ other.sortedFiles.filter q := by
    intro file
    simp only [List.mem_filter, Project.mem_sortedFiles]
    exact and_congr_left fun hq => hsame file hq
  have hperm : (project.sortedFiles.filter q).Perm (other.sortedFiles.filter q) :=
    (List.perm_ext_iff_of_nodup (project.sortedFiles_nodup.filter q) (other.sortedFiles_nodup.filter q)).mpr hmem
  refine hperm.eq_of_pairwise (fun a b ha hb hab hba => ?_) (project.sortedFiles_pairwise.filter q)
    (other.sortedFiles_pairwise.filter q)
  have ha' : a ∈ project.files := Project.mem_sortedFiles.mp (List.mem_of_mem_filter ha)
  have hb' : b ∈ project.files := Project.mem_sortedFiles.mp (List.mem_of_mem_filter ((hmem b).mpr hb))
  exact List.inj_on_of_nodup_map project.distinct ha' hb' (le_antisymm hab hba)

theorem filterMap_sortedFiles {f : DocumentFile → Option ParsedDocument}
    (hsame : ∀ file, (f file).isSome → (file ∈ project.files ↔ file ∈ other.files)) :
    project.sortedFiles.filterMap f = other.sortedFiles.filterMap f := by
  have hdrop : ∀ files : List DocumentFile,
      files.filterMap f = (files.filter fun file => (f file).isSome).filterMap f := by
    intro files
    rw [List.filterMap_filter]
    refine List.filterMap_congr fun file _ => ?_
    cases f file <;> rfl
  rw [hdrop, hdrop other.sortedFiles, filter_sortedFiles hsame]

end Discover

end AtlasFlow.Reference.Documents
