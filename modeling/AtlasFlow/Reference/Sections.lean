import AtlasFlow.Reference.Trees

/-!
# Sections and who may see them

The manifest lists the directories of the documents that are public, internal and private. What
`parse_document` looks up there is the first directory of the path from the root of the project, which is the
directory of the documents itself unless that is the root, and it looks it up for files without front matter
only: a header that says nothing about visibility is internal.
-/

namespace AtlasFlow.Reference.Documents

open GoalFile (Key Value)

/-- The text has front matter. -/
def Headed (lib : Library) (text : String) : Prop :=
  ∃ raw body, splitFrontMatter lib text = .ok (some raw, body)

/-- Its header, if it has one, does not say who may see the document. -/
def Undeclared (lib : Library) (text : String) : Prop :=
  ∀ raw body, splitFrontMatter lib text = .ok (some raw, body) → raw.get? (.str "visibility") = none

/-- What `DocumentMetadata` makes of a header without a visibility: its default. -/
def DefaultsToInternal (lib : Library) : Prop :=
  ∀ raw metadata, Dict.get? raw (.str "visibility") = none → lib.modelValidate raw = .ok metadata →
    metadata.visibility = .internal

def Unlisted (manifest : Manifest) (dir : String) : Prop :=
  dir ∉ manifest.publicSections ∧ dir ∉ manifest.internalSections ∧ dir ∉ manifest.privateSections

/-- The directory of the documents in which a file lies, by its path from there; none if it lies in no other. -/
def directoryOf : List String → Option String
  | dir :: _ :: _ => some dir
  | _ => none

/-- What the lists of the manifest are to say about a document in the directory `dir` of the documents. -/
structure SectionKept (lib : Library) (project : Project) (manifest : Manifest) (file : DocumentFile)
    (document : ParsedDocument) (dir : String) : Prop where
  private_ : dir ∈ manifest.privateSections →
    document.metadata.visibility = .private_ ∧ Unseen lib project file
  unlisted : Unlisted manifest dir → document.metadata.visibility = manifest.defaultVisibility

/-- When they do, with `anchor` what is looked up instead of `dir`. -/
structure Respected (manifest : Manifest) (hasHeader : Prop) (anchor dir : String) : Prop where
  private_ : dir ∈ manifest.privateSections → ¬ hasHeader ∧ anchor ∉ manifest.publicSections ∧
    (anchor ∈ manifest.privateSections ∨
      anchor ∉ manifest.internalSections ∧ manifest.defaultVisibility = .private_)
  headed : hasHeader → Unlisted manifest dir → manifest.defaultVisibility = .internal
  legacy : ¬ hasHeader → Unlisted manifest dir →
    (anchor ∈ manifest.publicSections → manifest.defaultVisibility = .public_) ∧
    (anchor ∉ manifest.publicSections → anchor ∈ manifest.privateSections →
      manifest.defaultVisibility = .private_) ∧
    (anchor ∉ manifest.publicSections → anchor ∉ manifest.privateSections → anchor ∈ manifest.internalSections →
      manifest.defaultVisibility = .internal)

/-! ## The visibility of a document -/

section Visibility

variable {lib : Library} {manifest : Manifest} {parts : List String} {text : String} {document : ParsedDocument}

theorem legacyVisibility_private : legacyVisibility parts manifest = .private_ ↔
    sectionOf parts ∉ manifest.publicSections ∧ (sectionOf parts ∈ manifest.privateSections ∨
      sectionOf parts ∉ manifest.internalSections ∧ manifest.defaultVisibility = .private_) := by
  unfold legacyVisibility
  dsimp only
  by_cases hpublic : sectionOf parts ∈ manifest.publicSections
  · simp [hpublic]
  · by_cases hprivate : sectionOf parts ∈ manifest.privateSections
    · simp [hpublic, hprivate]
    · by_cases hinternal : sectionOf parts ∈ manifest.internalSections
      · simp [hpublic, hprivate, hinternal]
      · simp [hpublic, hprivate, hinternal]

theorem legacyVisibility_default : legacyVisibility parts manifest = manifest.defaultVisibility ↔
    (sectionOf parts ∈ manifest.publicSections → manifest.defaultVisibility = .public_) ∧
    (sectionOf parts ∉ manifest.publicSections → sectionOf parts ∈ manifest.privateSections →
      manifest.defaultVisibility = .private_) ∧
    (sectionOf parts ∉ manifest.publicSections → sectionOf parts ∉ manifest.privateSections →
      sectionOf parts ∈ manifest.internalSections → manifest.defaultVisibility = .internal) := by
  unfold legacyVisibility
  dsimp only
  by_cases hpublic : sectionOf parts ∈ manifest.publicSections
  · simp [hpublic, eq_comm]
  · by_cases hprivate : sectionOf parts ∈ manifest.privateSections
    · simp [hpublic, hprivate, eq_comm]
    · by_cases hinternal : sectionOf parts ∈ manifest.internalSections
      · simp [hpublic, hprivate, hinternal, eq_comm]
      · simp [hpublic, hprivate, hinternal]

/-- Nothing that is filled in is a visibility. -/
theorem get?_completed (raw : Dict Key Value) (body : String) :
    (completed lib parts raw body).get? (.str "visibility") = raw.get? (.str "visibility") := by
  unfold completed setDefaultStr
  dsimp only
  rw [Dict.get?_setDefault_of_ne _ _ (by decide), Dict.get?_setDefault_of_ne _ _ (by decide),
    Dict.get?_setDefault_of_ne _ _ (by decide), Dict.get?_setDefault_of_ne _ _ (by decide)]

theorem Parses.not_headed (h : Parses lib manifest parts text document) (hheaded : ¬ Headed lib text) :
    document.metadata.visibility = legacyVisibility parts manifest := by
  cases h with
  | legacy => rfl
  | headed hsplit => exact absurd ⟨_, _, hsplit⟩ hheaded

/-- A header that says nothing makes a document internal, wherever it lies. -/
theorem Parses.internal (h : Parses lib manifest parts text document) (hlib : DefaultsToInternal lib)
    (hundeclared : Undeclared lib text) (hheaded : Headed lib text) : document.metadata.visibility = .internal := by
  obtain ⟨raw, body, hraw⟩ := hheaded
  cases h with
  | legacy hsplit =>
      rw [hsplit] at hraw
      cases hraw
  | headed hsplit hvalid =>
      apply hlib _ _ _ hvalid
      rw [get?_completed]
      exact hundeclared _ _ hsplit

end Visibility

/-! ## Documents in a section -/

section Section

variable {lib : Library} {tree : Tree} {root : List String} {manifest : Manifest} {file : DocumentFile}
  {text dir : String} {document : ParsedDocument}

theorem parses_place (hfile : file ∈ tree.files) (htext : file.text = .ok text)
    (hparse : parseDocument lib root (file.under (root ++ tree.docsRoot)) manifest = .ok document) :
    Parses lib manifest (tree.docsRoot ++ file.parts) text document := by
  have hne : (file.under tree.docsRoot).parts ≠ [] := by
    show tree.docsRoot ++ file.parts ≠ []
    simp [tree.named file hfile]
  rw [← under_under, parseDocument_ok_iff root hne] at hparse
  obtain ⟨text', htext', hparses⟩ := hparse
  cases htext.symm.trans htext'
  exact hparses

theorem unseen_of_document (hmanifest : tree.manifest = .ok manifest)
    (hparse : parseDocument lib root (file.under (root ++ tree.docsRoot)) manifest = .ok document)
    (hprivate : document.metadata.visibility = .private_) :
    Unseen lib (tree.place root) (file.under (root ++ tree.docsRoot)) := by
  apply unseen_of_private
  intro manifest' document' hmanifest' hparse'
  cases hmanifest.symm.trans hmanifest'
  cases hparse.symm.trans hparse'
  exact hprivate

theorem sectionKept_iff_respected (hlib : DefaultsToInternal lib) (hmanifest : tree.manifest = .ok manifest)
    (hfile : file ∈ tree.files) (htext : file.text = .ok text) (hundeclared : Undeclared lib text)
    (hparse : parseDocument lib root (file.under (root ++ tree.docsRoot)) manifest = .ok document) :
    SectionKept lib (tree.place root) manifest (file.under (root ++ tree.docsRoot)) document dir ↔
      Respected manifest (Headed lib text) (sectionOf (tree.docsRoot ++ file.parts)) dir := by
  have hparses := parses_place hfile htext hparse
  by_cases hheaded : Headed lib text
  · have hinternal := hparses.internal hlib hundeclared hheaded
    constructor
    · intro h
      constructor
      · intro hprivate
        have hvisibility := (h.private_ hprivate).1
        rw [hinternal] at hvisibility
        cases hvisibility
      · intro _ hunlisted
        rw [← h.unlisted hunlisted, hinternal]
      · exact absurd hheaded
    · intro h
      constructor
      · intro hprivate
        exact absurd hheaded (h.private_ hprivate).1
      · intro hunlisted
        rw [hinternal, h.headed hheaded hunlisted]
  · have hlegacy := hparses.not_headed hheaded
    constructor
    · intro h
      constructor
      · intro hprivate
        have hvisibility := (h.private_ hprivate).1
        rw [hlegacy, legacyVisibility_private] at hvisibility
        exact ⟨hheaded, hvisibility⟩
      · exact fun hyes => absurd hyes hheaded
      · intro _ hunlisted
        have hvisibility := h.unlisted hunlisted
        rwa [hlegacy, legacyVisibility_default] at hvisibility
    · intro h
      constructor
      · intro hprivate
        have hvisibility : document.metadata.visibility = .private_ := by
          rw [hlegacy, legacyVisibility_private]
          exact (h.private_ hprivate).2
        exact ⟨hvisibility, unseen_of_document hmanifest hparse hvisibility⟩
      · intro hunlisted
        rw [hlegacy, legacyVisibility_default]
        exact h.legacy hheaded hunlisted

/-- The lists of the manifest hold for a document that says nothing of its own exactly when what is looked up
instead of its directory leads to the same, and when the header leads there that it has or has not. -/
theorem sectionKept_iff (hlib : DefaultsToInternal lib) (hmanifest : tree.manifest = .ok manifest)
    (hfile : file ∈ tree.files) (htext : file.text = .ok text) (hundeclared : Undeclared lib text)
    (hparse : parseDocument lib root (file.under (root ++ tree.docsRoot)) manifest = .ok document) :
    (∀ dir ∈ directoryOf file.parts,
      SectionKept lib (tree.place root) manifest (file.under (root ++ tree.docsRoot)) document dir) ↔
      ∀ dir ∈ directoryOf file.parts,
        Respected manifest (Headed lib text) (sectionOf (tree.docsRoot ++ file.parts)) dir := by
  constructor
  · intro h dir hdir
    exact (sectionKept_iff_respected hlib hmanifest hfile htext hundeclared hparse).mp (h dir hdir)
  · intro h dir hdir
    exact (sectionKept_iff_respected hlib hmanifest hfile htext hundeclared hparse).mpr (h dir hdir)

end Section

/-! ### A private directory of `docs` -/

def secretManifest : Manifest where
  privateSections := ["secret"]

def secretFile : DocumentFile where
  parts := ["secret", "plans.md"]
  text := .ok "# Plans\nNot yet."

def secretTree : Tree where
  docsRoot := ["docs"]
  manifest := .ok secretManifest
  files := [secretFile]
  distinct := by decide
  named := by decide
  plain := by decide
  empty_of_no_dir := fun h => Bool.noConfusion h

def secretDocument : ParsedDocument where
  relativePath := "docs/secret/plans.md"
  metadata := {
    id := "DOC-DOCS-SECRET-PLANS", title := "Plans", section_ := some "docs", estimatedTokens := some 4 }
  body := "# Plans\nNot yet."
  hasFrontMatter := false

theorem plainLibrary_defaults : DefaultsToInternal plainLibrary := by
  intro raw metadata _ hvalid
  cases hvalid

theorem secret_undeclared : Undeclared plainLibrary "# Plans\nNot yet." := by
  have hsplit : splitFrontMatter plainLibrary "# Plans\nNot yet." = .ok (none, "# Plans\nNot yet.") := by
    rfl
  intro raw body h
  rw [hsplit] at h
  cases h

theorem parse_secret :
    parseDocument plainLibrary ["/", "atlas"] (secretFile.under (["/", "atlas"] ++ secretTree.docsRoot))
      secretManifest = .ok secretDocument := by
  decide +kernel

theorem sectionKept_iff_secret :
    (∀ dir ∈ directoryOf secretFile.parts, SectionKept plainLibrary (secretTree.place ["/", "atlas"]) secretManifest
        (secretFile.under (["/", "atlas"] ++ secretTree.docsRoot)) secretDocument dir) ↔
      ∀ dir ∈ directoryOf secretFile.parts, Respected secretManifest (Headed plainLibrary "# Plans\nNot yet.")
        (sectionOf (secretTree.docsRoot ++ secretFile.parts)) dir :=
  sectionKept_iff plainLibrary_defaults rfl List.mem_cons_self rfl secret_undeclared parse_secret

/-- `docs/secret` is private, and a document in it is internal. -/
theorem secret_not_kept :
    parseDocument plainLibrary ["/", "atlas"] (secretFile.under (["/", "atlas"] ++ secretTree.docsRoot))
      secretManifest = .ok secretDocument ∧
    ¬ ∀ dir ∈ directoryOf secretFile.parts, SectionKept plainLibrary (secretTree.place ["/", "atlas"])
      secretManifest (secretFile.under (["/", "atlas"] ++ secretTree.docsRoot)) secretDocument dir := by
  refine ⟨parse_secret, fun h => ?_⟩
  have hvisibility := ((h "secret" rfl).private_ (by decide)).1
  exact absurd hvisibility (by decide)

end AtlasFlow.Reference.Documents
