import AtlasFlow.Reference.Registry
import AtlasFlow.Reference.Trees

/-!
# From files to the index

`parse_document` with all the metadata that the index reads, `discover_documents` over it, and the project that
`load_project_index` then loads. What a site shows of a document is a part of it.
-/

namespace AtlasFlow.Reference.Indexing

open Documents (SiteError DocumentFile Tree relativeTo splitFrontMatter titleFromBody documentId sectionOf
  legacyVisibility estimateTokens completed skippedNames)
open Attempts
open GoalFile (Key Value)
open Registry

/-- PyYAML, pydantic and `str.title`. -/
structure IndexLibrary where
  safeLoad : String → Except String Value
  modelValidate : Dict Key Value → Except String DocumentMetadata
  title : String → String

/-- The same library for what a site reads. -/
def IndexLibrary.toLibrary (lib : IndexLibrary) : Documents.Library where
  safeLoad := lib.safeLoad
  modelValidate raw := (lib.modelValidate raw).map DocumentMetadata.toDocumentMetadata
  title := lib.title

theorem documentId_ne (relativePath : String) : documentId relativePath ≠ "" := by
  unfold documentId
  intro h
  have hlength := congrArg String.length h
  rw [String.length_append] at hlength
  change 4 + _ = 0 at hlength
  omega

def legacyMetadata (lib : IndexLibrary) (manifest : Documents.Manifest) (parts : List String) (body : String) :
    DocumentMetadata where
  id := documentId ("/".intercalate parts)
  title := titleFromBody lib.toLibrary body (parts.getLast?.getD "")
  visibility := legacyVisibility parts manifest
  section_ := some (sectionOf parts)
  estimatedTokens := some (estimateTokens body)
  id_ne := documentId_ne _

/-- `parse_document`. -/
def parseDocument (lib : IndexLibrary) (root : List String) (file : DocumentFile) (manifest : Documents.Manifest) :
    Except SiteError ParsedDocument := do
  let path := "/".intercalate file.parts
  let text ← match file.text with
    | .ok text => .ok text
    | .error exc => .error (SiteError.documentParseError s!"{path}: cannot read document: {exc}")
  let parts ← relativeTo root file.parts
  let (rawMetadata, body) ← splitFrontMatter lib.toLibrary text
  match rawMetadata with
  | none =>
    if titleFromBody lib.toLibrary body (parts.getLast?.getD "") = "" then
      .error (.validationError "title: String should have at least 1 character")
    else return ⟨"/".intercalate parts, legacyMetadata lib manifest parts body, body⟩
  | some raw =>
    match lib.modelValidate (completed lib.toLibrary parts raw body) with
    | .error exc => .error (.documentParseError s!"{path}: invalid document metadata: {exc}")
    | .ok metadata => return ⟨"/".intercalate parts, metadata, body⟩

def discoverDocuments (lib : IndexLibrary) (project : Documents.Project) (manifest : Documents.Manifest) :
    Except SiteError (List ParsedDocument) :=
  if !project.docsRootIsDir then .ok []
  else (project.sortedFiles.filter DocumentFile.isDocument).mapM fun file =>
    parseDocument lib project.root file manifest

/-! ## What a site reads of it -/

/-- What a site shows of a document. -/
def shown (document : ParsedDocument) : String × Documents.DocumentMetadata × String :=
  (document.relativePath, document.metadata.toDocumentMetadata, document.body)

def shownOf (document : Documents.ParsedDocument) : String × Documents.DocumentMetadata × String :=
  (document.relativePath, document.metadata, document.body)

section Parse

variable {lib : IndexLibrary} {root : List String} {file : DocumentFile} {manifest : Documents.Manifest}

theorem parseDocument_shown (h : file.parts ≠ []) :
    (parseDocument lib root (file.under root) manifest).map shown =
      (Documents.parseDocument lib.toLibrary root (file.under root) manifest).map shownOf := by
  have hplaced : relativeTo root (file.under root).parts = .ok file.parts :=
    Documents.relativeTo_append root file.parts
  have htext : (file.under root).text = file.text := rfl
  unfold parseDocument Documents.parseDocument
  rw [hplaced, htext, Documents.getLast?_under root h]
  cases file.text with
  | error e => rfl
  | ok text =>
      cases hsplit : splitFrontMatter lib.toLibrary text with
      | error e =>
          simp only [hsplit, bind, Except.bind]
          rfl
      | ok split =>
          obtain ⟨raw?, body⟩ := split
          simp only [hsplit, bind, Except.bind]
          cases raw? with
          | none =>
              dsimp only
              by_cases htitle : titleFromBody lib.toLibrary body (file.parts.getLast?.getD "") = ""
              · rw [if_pos htitle, if_pos htitle]
                rfl
              · rw [if_neg htitle, if_neg htitle]
                rfl
          | some raw =>
              have hvalid : lib.toLibrary.modelValidate (completed lib.toLibrary file.parts raw body) =
                  (lib.modelValidate (completed lib.toLibrary file.parts raw body)).map
                    DocumentMetadata.toDocumentMetadata := rfl
              unfold completed at hvalid ⊢
              dsimp only at hvalid ⊢
              rw [hvalid]
              cases lib.modelValidate _ with
              | error exc => rfl
              | ok metadata => rfl

/-- Where the parts of a document come from. -/
theorem of_parseDocument {document : ParsedDocument}
    (h : parseDocument lib root (file.under root) manifest = .ok document) :
    ∃ text, file.text = .ok text ∧ document.relativePath = "/".intercalate file.parts ∧
      ((∃ body, splitFrontMatter lib.toLibrary text = .ok (none, body) ∧
          document.metadata = legacyMetadata lib manifest file.parts body) ∨
        ∃ raw body, splitFrontMatter lib.toLibrary text = .ok (some raw, body) ∧
          lib.modelValidate (completed lib.toLibrary file.parts raw body) = .ok document.metadata) := by
  have hplaced : relativeTo root (file.under root).parts = .ok file.parts :=
    Documents.relativeTo_append root file.parts
  have hfile : (file.under root).text = file.text := rfl
  unfold parseDocument at h
  rw [hplaced, hfile] at h
  cases htext : file.text with
  | error e =>
      rw [htext] at h
      cases h
  | ok text =>
      rw [htext] at h
      obtain ⟨_, hread, h⟩ := of_bind_ok h
      cases hread
      obtain ⟨_, hparts, h⟩ := of_bind_ok h
      cases hparts
      obtain ⟨⟨raw?, body⟩, hsplit, h⟩ := of_bind_ok h
      refine ⟨text, rfl, ?_⟩
      cases raw? with
      | none =>
          dsimp only at h
          split at h
          · cases h
          · cases h
            exact ⟨rfl, .inl ⟨body, hsplit, rfl⟩⟩
      | some raw =>
          dsimp only at h
          split at h
          · cases h
          · next hvalid =>
            cases h
            exact ⟨rfl, .inr ⟨raw, body, hsplit, hvalid⟩⟩

/-- A document of the index is what its file holds, and nothing above its project. -/
theorem parseDocument_place (lib : IndexLibrary) (root other : List String) (h : file.parts ≠ [])
    (manifest : Documents.Manifest) :
    (parseDocument lib root (file.under root) manifest).toOption =
      (parseDocument lib other (file.under other) manifest).toOption := by
  have hplaced : ∀ dir, relativeTo dir (file.under dir).parts = .ok file.parts := by
    intro dir
    exact Documents.relativeTo_append dir file.parts
  have htext : ∀ dir, (file.under dir).text = file.text := fun _ => rfl
  unfold parseDocument
  rw [hplaced, hplaced, htext, htext]
  cases file.text with
  | error e => rfl
  | ok text =>
      cases hsplit : splitFrontMatter lib.toLibrary text with
      | error e => simp only [hsplit, bind, Except.bind]
      | ok split =>
          obtain ⟨raw?, body⟩ := split
          simp only [hsplit, bind, Except.bind]
          cases raw? with
          | none => rfl
          | some raw =>
              dsimp only
              cases lib.modelValidate _ with
              | error exc => rfl
              | ok metadata => rfl

end Parse

end AtlasFlow.Reference.Indexing
