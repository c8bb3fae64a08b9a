import AtlasFlow.Reference.Indexing

/-!
# Where a project lies

The same project in two directories is to have the same index and the same sites. `discover_documents` passes
over every path with a part `node_modules`, `build` or `dist`, and the paths are absolute: a project below a
directory of such a name has no documents at all.
-/

namespace AtlasFlow.Reference.Indexing

open Attempts
open Documents (SiteError DocumentFile Tree Project Output skippedNames isDocument_under relativeTo
  buildSite)
open Registry

/-! ## A project at a place, as it is indexed -/

/-- A project without its place, and what its index keeps of the manifest. -/
structure IndexedTree extends Tree where
  projectManifest : ProjectManifest := {}

section Discover

variable {lib : IndexLibrary} {tree : Tree} {root other : List String} {manifest : Documents.Manifest}

/-- Each part of a path that is passed over is one of the root's or one from there on. -/
def Skipped (root : List String) : Bool := root.any (skippedNames.contains ·)

/-- The file, by its path from the root of the project. -/
def fromRoot (tree : Tree) (file : DocumentFile) : DocumentFile := file.under tree.docsRoot

/-- `sorted(docs_root.rglob("*.md"))`, by the paths from the root. -/
def sortedTree (tree : Tree) : List DocumentFile := (tree.place []).sortedFiles

theorem append_le_append_left (root a b : List String) : root ++ a ≤ root ++ b ↔ a ≤ b := by
  rw [← not_lt, ← not_lt]
  apply not_congr
  induction root with
  | nil => rfl
  | cons x root ih =>
      rw [← ih, List.cons_append, List.cons_append, List.cons_lt_cons_iff]
      simp

/-- The files come in the order that they have below the root. -/
theorem sortedFiles_place (tree : Tree) (root : List String) :
    (tree.place root).sortedFiles = (sortedTree tree).map (DocumentFile.under root) := by
  have hfiles : (tree.place root).files = (tree.place []).files.map (DocumentFile.under root) := by
    show tree.files.map (DocumentFile.under (root ++ tree.docsRoot)) =
      (tree.files.map (DocumentFile.under ([] ++ tree.docsRoot))).map (DocumentFile.under root)
    rw [List.map_map]
    apply List.map_congr_left
    intro file _
    exact (Documents.under_under root tree.docsRoot file).symm
  unfold sortedTree Project.sortedFiles
  rw [hfiles, List.map_mergeSort]
  intro a _ b _
  rw [decide_eq_decide]
  exact (append_le_append_left root a.parts b.parts).symm

theorem mem_sortedTree {file : DocumentFile} :
    file ∈ sortedTree tree ↔ ∃ below ∈ tree.files, below.under tree.docsRoot = file := by
  unfold sortedTree
  rw [Project.mem_sortedFiles]
  exact List.mem_map

theorem ne_nil_of_mem {file : DocumentFile} (h : file ∈ sortedTree tree) : file.parts ≠ [] := by
  obtain ⟨below, hbelow, rfl⟩ := mem_sortedTree.mp h
  show tree.docsRoot ++ below.parts ≠ []
  simp [tree.named below hbelow]

/-- The documents of a project, by what of its place counts: whether it is passed over as a whole. -/
theorem documents_place (tree : Tree) (root : List String) :
    (tree.place root).sortedFiles.filter DocumentFile.isDocument =
      if Skipped root then [] else ((sortedTree tree).filter DocumentFile.isDocument).map (DocumentFile.under root) := by
  rw [sortedFiles_place, List.filter_map]
  by_cases hskipped : Skipped root = true
  · rw [if_pos hskipped, List.map_eq_nil_iff, List.filter_eq_nil_iff]
    intro file _
    show ¬ (file.under root).isDocument = true
    unfold Skipped at hskipped
    rw [isDocument_under, hskipped]
    simp
  · rw [if_neg hskipped]
    congr 1
    apply List.filter_congr
    intro file _
    show (file.under root).isDocument = file.isDocument
    unfold Skipped at hskipped
    rw [Bool.not_eq_true] at hskipped
    rw [isDocument_under, hskipped]
    simp

/-- What a file is parsed to does not depend on where its project lies. -/
def Placeless {β : Type} (parse : List String → DocumentFile → Except SiteError β) : Prop :=
  ∀ (root other : List String) (file : DocumentFile), file.parts ≠ [] →
    (parse root (file.under root)).toOption = (parse other (file.under other)).toOption

theorem discover_place {β : Type} {parse : List String → DocumentFile → Except SiteError β} (hparse : Placeless parse)
    (tree : Tree) (hskipped : Skipped root = Skipped other) :
    (((tree.place root).sortedFiles.filter DocumentFile.isDocument).mapM (parse root)).toOption =
      (((tree.place other).sortedFiles.filter DocumentFile.isDocument).mapM (parse other)).toOption := by
  rw [documents_place, documents_place, hskipped]
  split
  · rfl
  · rw [List.mapM_map, List.mapM_map]
    apply mapM_toOption
    intro file hfile
    exact hparse root other file (ne_nil_of_mem (List.mem_of_mem_filter hfile))

/-- Without any document it does not matter whether a project is passed over. -/
theorem documents_nil (h : ∀ file ∈ tree.files, (file.under tree.docsRoot).isDocument = false) (root : List String) :
    (tree.place root).sortedFiles.filter DocumentFile.isDocument = [] := by
  have hnone : (sortedTree tree).filter DocumentFile.isDocument = [] := by
    rw [List.filter_eq_nil_iff]
    intro file hfile
    obtain ⟨below, hbelow, rfl⟩ := mem_sortedTree.mp hfile
    rw [h below hbelow]
    exact Bool.false_ne_true
  rw [documents_place, hnone]
  split
  · rfl
  · rfl

/-- A place does not matter to discovery: the root is passed over in both, or there is nothing to find. -/
def Unmoved (tree : Tree) (root other : List String) : Prop :=
  Skipped root = Skipped other ∨ ∀ file ∈ tree.files, (file.under tree.docsRoot).isDocument = false

theorem Unmoved.discover {β : Type} {parse : List String → DocumentFile → Except SiteError β}
    (h : Unmoved tree root other) (hparse : Placeless parse) :
    (((tree.place root).sortedFiles.filter DocumentFile.isDocument).mapM (parse root)).toOption =
      (((tree.place other).sortedFiles.filter DocumentFile.isDocument).mapM (parse other)).toOption := by
  rcases h with hskipped | hnone
  · exact discover_place hparse tree hskipped
  · rw [documents_nil hnone, documents_nil hnone]
    rfl

theorem Unmoved.documents (h : Unmoved tree root other) (lib : IndexLibrary) (manifest : Documents.Manifest) :
    (discoverDocuments lib (tree.place root) manifest).toOption =
      (discoverDocuments lib (tree.place other) manifest).toOption := by
  unfold discoverDocuments
  show (if !tree.docsRootIsDir then _ else _ : Except SiteError (List ParsedDocument)).toOption =
    (if !tree.docsRootIsDir then _ else _ : Except SiteError (List ParsedDocument)).toOption
  split
  · rfl
  · have hparse : Placeless fun root file => parseDocument lib root file manifest :=
      fun root other _ hne => parseDocument_place lib root other hne manifest
    exact h.discover hparse

theorem Unmoved.shownDocuments (h : Unmoved tree root other) (lib : Documents.Library) (manifest : Documents.Manifest) :
    (Documents.discoverDocuments lib (tree.place root) manifest).toOption =
      (Documents.discoverDocuments lib (tree.place other) manifest).toOption := by
  unfold Documents.discoverDocuments
  show (if !tree.docsRootIsDir then _ else _ : Except SiteError (List Documents.ParsedDocument)).toOption =
    (if !tree.docsRootIsDir then _ else _ : Except SiteError (List Documents.ParsedDocument)).toOption
  split
  · rfl
  · have hparse : Placeless fun root file => Documents.parseDocument lib root file manifest :=
      fun root other _ hne => Documents.parseDocument_place lib root other hne manifest
    exact h.discover hparse

end Discover

/-! ## The index and the site -/

section Index

variable {lib : IndexLibrary} {root other : List String} {manifest : Documents.Manifest}

theorem relativePath_of_parse {file : DocumentFile} {document : ParsedDocument}
    (h : parseDocument lib root (file.under root) manifest = .ok document) :
    document.relativePath = "/".intercalate file.parts := by
  obtain ⟨text, _, hpath, _⟩ := of_parseDocument h
  exact hpath

/-- The documents that are found are those of the files, in their order. -/
theorem relativePaths_of_discover {tree : Tree} {documents : List ParsedDocument}
    (h : discoverDocuments lib (tree.place root) manifest = .ok documents) :
    (documents.map ParsedDocument.relativePath).Sublist
      ((sortedTree tree).map fun file => "/".intercalate file.parts) := by
  unfold discoverDocuments at h
  split at h
  · cases h
    exact List.nil_sublist _
  · rw [documents_place] at h
    split at h
    · cases h
      exact List.nil_sublist _
    · rw [List.mapM_map] at h
      have hpaths : documents.map ParsedDocument.relativePath =
          ((sortedTree tree).filter DocumentFile.isDocument).map fun file => "/".intercalate file.parts :=
        map_of_mapM h fun _ _ hparse => relativePath_of_parse hparse
      rw [hpaths]
      exact List.filter_sublist.map _

/-- No two files have the same text for a path. -/
theorem nodup_sortedTree (tree : Tree) : ((sortedTree tree).map fun file => "/".intercalate file.parts).Nodup := by
  apply List.Nodup.map_on
  · intro a ha b hb heq
    obtain ⟨below, hbelow, rfl⟩ := mem_sortedTree.mp ha
    obtain ⟨below', hbelow', rfl⟩ := mem_sortedTree.mp hb
    have hparts : tree.docsRoot ++ below.parts = tree.docsRoot ++ below'.parts :=
      Documents.intercalate_injective (ne_nil_of_mem ha) (ne_nil_of_mem hb) (tree.plain below hbelow)
        (tree.plain below' hbelow') heq
    have hsame : below = below' :=
      List.inj_on_of_nodup_map tree.distinct hbelow hbelow' (List.append_cancel_left hparts)
    rw [hsame]
  · exact (tree.place []).sortedFiles_nodup

/-- The project in a directory, as `load_project_index` finds it there. -/
def IndexedTree.indexed (tree : IndexedTree) (lib : IndexLibrary) (root : List String) : Registry.Project where
  manifest := tree.manifest.map fun _ => tree.projectManifest
  documents := do discoverDocuments lib (tree.place root) (← tree.manifest)
  distinct := by
    intro documents h
    obtain ⟨manifest, _, h⟩ := of_bind_ok h
    exact (relativePaths_of_discover h).nodup (nodup_sortedTree tree.toTree)

/-- A project has the same documents, the same index and the same sites in both directories, unless it raises in
both. -/
structure SameIndex (lib : IndexLibrary) (tree : IndexedTree) (root other : List String) : Prop where
  documents : ∀ manifest, tree.manifest = .ok manifest →
    (discoverDocuments lib (tree.place root) manifest).toOption =
      (discoverDocuments lib (tree.place other) manifest).toOption
  index : (loadProjectIndex (tree.indexed lib root)).toOption = (loadProjectIndex (tree.indexed lib other)).toOption
  site : ∀ (visibility : String) (out : Output),
    (buildSite lib.toLibrary (tree.place root) visibility out).toOption =
      (buildSite lib.toLibrary (tree.place other) visibility out).toOption

theorem bind_toOption {α β ε : Type} {x y : Except ε α} {f : α → Except ε β} (h : x.toOption = y.toOption) :
    (x >>= f).toOption = (y >>= f).toOption := by
  cases x with
  | error e =>
      cases y with
      | error e' => rfl
      | ok b => cases h
  | ok a =>
      cases y with
      | error e => cases h
      | ok b =>
          cases h
          rfl

theorem sameIndex_of_unmoved {tree : IndexedTree}
    (h : ∀ manifest, tree.manifest = .ok manifest → Unmoved tree.toTree root other) :
    SameIndex lib tree root other := by
  constructor
  · intro manifest hmanifest
    exact (h manifest hmanifest).documents lib manifest
  · cases hmanifest : tree.manifest with
    | error e =>
        have herror : ∀ dir, (tree.indexed lib dir).manifest = .error e := by
          intro dir
          show tree.manifest.map _ = _
          rw [hmanifest]
          rfl
        unfold loadProjectIndex
        rw [herror, herror]
        rfl
    | ok manifest =>
        have hok : ∀ dir, (tree.indexed lib dir).manifest = .ok tree.projectManifest := by
          intro dir
          show tree.manifest.map _ = _
          rw [hmanifest]
          rfl
        have hdocuments : ∀ dir, (tree.indexed lib dir).documents =
            discoverDocuments lib (tree.place dir) manifest := by
          intro dir
          show (do discoverDocuments lib (tree.place dir) (← tree.manifest)) = _
          rw [hmanifest]
          rfl
        unfold loadProjectIndex
        rw [hok, hok, hdocuments, hdocuments]
        exact bind_toOption ((h manifest hmanifest).documents lib manifest)
  · intro visibility out
    unfold buildSite
    split
    · rfl
    · next requested _ =>
      show (do let manifest ← tree.manifest; _ : Except SiteError _).toOption =
        (do let manifest ← tree.manifest; _ : Except SiteError _).toOption
      cases hmanifest : tree.manifest with
      | error e => rfl
      | ok manifest => exact bind_toOption ((h manifest hmanifest).shownDocuments lib.toLibrary manifest)

theorem unmoved_of_documents {tree : Tree}
    (h : (discoverDocuments lib (tree.place root) manifest).toOption =
      (discoverDocuments lib (tree.place other) manifest).toOption) : Unmoved tree root other := by
  -- where the project is passed over there are no documents, and where it is not each file gives one or raises
  have hnone : ∀ {dir dir'}, Skipped dir = true → Skipped dir' = false →
      (discoverDocuments lib (tree.place dir) manifest).toOption =
        (discoverDocuments lib (tree.place dir') manifest).toOption →
      ∀ file ∈ tree.files, (file.under tree.docsRoot).isDocument = false := by
    intro dir dir' hskipped hfound hsame file hfile
    have hdir : tree.docsRootIsDir = true := by
      by_contra hdir
      rw [tree.empty_of_no_dir (Bool.not_eq_true _ ▸ hdir)] at hfile
      cases hfile
    have hopen : ∀ dir, discoverDocuments lib (tree.place dir) manifest =
        ((tree.place dir).sortedFiles.filter DocumentFile.isDocument).mapM fun file =>
          parseDocument lib dir file manifest := by
      intro dir
      unfold discoverDocuments
      show (if !tree.docsRootIsDir then _ else _) = _
      rw [hdir]
      rfl
    rw [hopen, hopen, documents_place, documents_place, hskipped, hfound, if_pos rfl, if_neg Bool.false_ne_true] at hsame
    have hempty := toOption_eq_some.mp hsame.symm
    rw [List.mapM_map] at hempty
    by_contra hdocument
    have hmem : file.under tree.docsRoot ∈ (sortedTree tree).filter DocumentFile.isDocument :=
      List.mem_filter.mpr ⟨mem_sortedTree.mpr ⟨file, hfile, rfl⟩, Bool.not_eq_false _ ▸ hdocument⟩
    obtain ⟨d, hd, _⟩ := (mem_of_mapM_ok hempty).1 _ hmem
    cases hd
  cases hroot : Skipped root with
  | true =>
      cases hother : Skipped other with
      | true => exact .inl (hroot.trans hother.symm)
      | false => exact .inr (hnone hroot hother h)
  | false =>
      cases hother : Skipped other with
      | true => exact .inr (hnone hother hroot h.symm)
      | false => exact .inl (hroot.trans hother.symm)

/-- A project has the same index in two directories exactly when both have a part that is passed over or neither
has, or there is no document to find. -/
theorem sameIndex_iff (lib : IndexLibrary) (tree : IndexedTree) (root other : List String) :
    SameIndex lib tree root other ↔ ∀ manifest, tree.manifest = .ok manifest → Unmoved tree.toTree root other := by
  constructor
  · intro h manifest hmanifest
    exact unmoved_of_documents (h.documents manifest hmanifest)
  · exact sameIndex_of_unmoved

end Index

/-! ### A project below a directory `build` -/

def guideTree : IndexedTree where
  docsRoot := ["docs"]
  manifest := .ok {}
  files := [{ parts := ["guide.md"], text := .ok "# Guide\nRead this." }]
  distinct := by decide
  named := by decide
  plain := by decide
  empty_of_no_dir := fun h => Bool.noConfusion h

def plainIndexLibrary : IndexLibrary where
  safeLoad _ := .error "no front matter here"
  modelValidate _ := .error "no front matter here"
  title s := s

/-- There it has no documents, and elsewhere it has one. -/
theorem guide_not_same :
    ¬ SameIndex plainIndexLibrary guideTree ["/", "home", "atlas"] ["/", "home", "build", "atlas"] := by
  intro h
  have hunmoved := unmoved_of_documents (h.documents {} rfl)
  rcases hunmoved with hskipped | hnone
  · exact absurd hskipped (by decide)
  · exact absurd (hnone _ List.mem_cons_self) (by decide)

end AtlasFlow.Reference.Indexing
