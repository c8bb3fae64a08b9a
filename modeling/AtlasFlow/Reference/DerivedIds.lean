import Mathlib
import AtlasFlow.Reference.FrontMatter
import AtlasFlow.Reference.Location

/-!
# Derived ids

A document that declares no id gets one from its path. What is left of the path there are its words, the runs of
letters and digits, in capitals: two paths with the same words give the same id.
-/

namespace AtlasFlow.Reference.Indexing

open Attempts
open Documents (SiteError DocumentFile Tree Project slug removeMd documentId splitFrontMatter completed
  relativeTo titleFromBody)
open GoalFile (Key Value)
open Registry

/-! ## The words of a path -/

def gather (word : List Char) (words : List (List Char)) : List (List Char) :=
  if word = [] then words else word :: words

/-- The word that a text goes on with, which may be empty, and the words after it. -/
def wordsFrom : List Char → List Char × List (List Char)
  | [] => ([], [])
  | c :: cs =>
    if c.isAlphanum then (c :: (wordsFrom cs).1, (wordsFrom cs).2)
    else ([], gather (wordsFrom cs).1 (wordsFrom cs).2)

/-- The longest runs of ASCII letters and digits. -/
def wordsOf (cs : List Char) : List (List Char) := gather (wordsFrom cs).1 (wordsFrom cs).2

/-- The words of a path without its suffix, in capitals. -/
def pathWords (relativePath : String) : List (List Char) :=
  (wordsOf (removeMd relativePath.toList)).map (List.map Char.toUpper)

def dashed (words : List (List Char)) : List Char := ['-'].intercalate words

/-- `text.strip("-")`. -/
def stripDashes (cs : List Char) : List Char :=
  ((cs.dropWhile (· = '-')).reverse.dropWhile (· = '-')).reverse

section Words

variable {c : Char} {cs word : List Char} {words : List (List Char)}

theorem wordsOf_cons_other (h : c.isAlphanum = false) (cs : List Char) : wordsOf (c :: cs) = wordsOf cs := by
  rw [wordsOf, wordsFrom, if_neg (Bool.eq_false_iff.mp h)]
  rfl

theorem wordsOf_cons (h : c.isAlphanum = true) (cs : List Char) :
    wordsOf (c :: cs) = (c :: (wordsFrom cs).1) :: (wordsFrom cs).2 := by
  rw [wordsOf, wordsFrom, if_pos h]
  rfl

theorem dashed_cons (h : words ≠ []) (word : List Char) : dashed (word :: words) = word ++ '-' :: dashed words := by
  rw [dashed, List.intercalate_cons_of_ne_nil h]
  simp [dashed]

theorem dashed_singleton (word : List Char) : dashed [word] = word := List.intercalate_singleton

/-- A character that is put before the first word. -/
theorem dashed_cons_cons (c : Char) (word : List Char) (words : List (List Char)) :
    dashed ((c :: word) :: words) = c :: dashed (word :: words) := by
  cases words with
  | nil => rw [dashed_singleton, dashed_singleton]
  | cons => rw [dashed_cons (List.cons_ne_nil _ _), dashed_cons (List.cons_ne_nil _ _), List.cons_append]

theorem mem_gather (h : word ∈ gather cs words) : word ∈ words ∨ word = cs ∧ cs ≠ [] := by
  unfold gather at h
  split at h
  · exact .inl h
  · next hne =>
    rcases List.mem_cons.mp h with rfl | hmem
    · exact .inr ⟨rfl, hne⟩
    · exact .inl hmem

/-- Every word has a character, and each is a letter or a digit. -/
def IsWord (word : List Char) : Prop := word ≠ [] ∧ ∀ c ∈ word, c.isAlphanum = true

theorem isWord_of_mem_gather (hcs : ∀ c ∈ cs, c.isAlphanum = true) (hwords : ∀ word ∈ words, IsWord word) :
    ∀ word ∈ gather cs words, IsWord word := by
  intro word hword
  rcases mem_gather hword with hmem | ⟨rfl, hne⟩
  · exact hwords word hmem
  · exact ⟨hne, hcs⟩

theorem isWord_of_mem_wordsFrom (cs : List Char) :
    (∀ c ∈ (wordsFrom cs).1, c.isAlphanum = true) ∧ ∀ word ∈ (wordsFrom cs).2, IsWord word := by
  induction cs with
  | nil => simp [wordsFrom]
  | cons c cs ih =>
      rw [wordsFrom]
      split
      · next hc => exact ⟨List.forall_mem_cons.mpr ⟨hc, ih.1⟩, ih.2⟩
      · exact ⟨fun c hmem => absurd hmem List.not_mem_nil, isWord_of_mem_gather ih.1 ih.2⟩

theorem isWord_of_mem_wordsOf (cs : List Char) : ∀ word ∈ wordsOf cs, IsWord word :=
  isWord_of_mem_gather (isWord_of_mem_wordsFrom cs).1 (isWord_of_mem_wordsFrom cs).2

/-- What `slug` makes of a text: its words with dashes between them, and maybe a dash after the last. -/
def Slugged (cs : List Char) (words : List (List Char)) : Prop :=
  cs = dashed words ∨ words ≠ [] ∧ cs = dashed words ++ ['-']

theorem Slugged.cons (h : Slugged cs (word :: words)) (c : Char) : Slugged (c :: cs) ((c :: word) :: words) := by
  rcases h with rfl | ⟨_, rfl⟩
  · exact .inl (dashed_cons_cons c word words).symm
  · exact .inr ⟨List.cons_ne_nil _ _, by rw [dashed_cons_cons, List.cons_append]⟩

theorem Slugged.cons_dash (h : Slugged cs words) (c : Char) : Slugged (c :: '-' :: cs) ([c] :: words) := by
  by_cases hne : words = []
  · subst hne
    rcases h with rfl | ⟨hne, _⟩
    · exact .inr ⟨List.cons_ne_nil _ _, rfl⟩
    · exact absurd rfl hne
  · rcases h with rfl | ⟨_, rfl⟩
    · exact .inl (by rw [dashed_cons hne]; rfl)
    · exact .inr ⟨List.cons_ne_nil _ _, by rw [dashed_cons hne]; rfl⟩

/-- What comes after a dash, and what may come in between where none did. -/
theorem slug_spec (cs : List Char) :
    Slugged (slug true cs) (wordsOf cs) ∧
      (slug false cs = slug true cs ∧ ((wordsFrom cs).1 = [] → cs = []) ∨
        slug false cs = '-' :: slug true cs ∧ (wordsFrom cs).1 = []) := by
  induction cs with
  | nil => exact ⟨.inl rfl, .inl ⟨rfl, fun _ => rfl⟩⟩
  | cons c cs ih =>
      obtain ⟨htrue, hfalse⟩ := ih
      by_cases hc : c.isAlphanum = true
      · have hslug : ∀ b, slug b (c :: cs) = c :: slug false cs := by
          intro b
          rw [slug, if_pos hc]
        refine ⟨?_, .inl ⟨by rw [hslug, hslug], fun hnil => ?_⟩⟩
        · rw [hslug, wordsOf_cons hc]
          rcases hfalse with ⟨hsame, hempty⟩ | ⟨hdash, hempty⟩
          · by_cases hword : (wordsFrom cs).1 = []
            · rw [hempty hword]
              exact .inl rfl
            · rw [wordsOf, gather, if_neg hword] at htrue
              rw [hsame]
              exact htrue.cons c
          · rw [wordsOf, gather, if_pos hempty] at htrue
            rw [hdash, hempty]
            exact htrue.cons_dash c
        · rw [wordsFrom, if_pos hc] at hnil
          cases hnil
      · have hother := Bool.eq_false_iff.mpr hc
        have htrue' : slug true (c :: cs) = slug true cs := by
          rw [slug, if_neg hc]
          rfl
        have hfalse' : slug false (c :: cs) = '-' :: slug true cs := by
          rw [slug, if_neg hc]
          rfl
        refine ⟨?_, .inr ⟨?_, ?_⟩⟩
        · rw [htrue', wordsOf_cons_other hother]
          exact htrue
        · rw [htrue', hfalse']
        · rw [wordsFrom, if_neg hc]

/-! ### Ids -/

theorem ne_dash_of_isAlphanum (h : c.isAlphanum = true) : c ≠ '-' := by
  rintro rfl
  exact absurd h (by decide)

theorem exists_head_dashed (h : ∀ word ∈ words, IsWord word) (hne : words ≠ []) :
    ∃ c cs, dashed words = c :: cs ∧ c ≠ '-' := by
  obtain ⟨word, words, rfl⟩ := List.exists_cons_of_ne_nil hne
  obtain ⟨hword, _⟩ := List.forall_mem_cons.mp h
  obtain ⟨c, cs, rfl⟩ := List.exists_cons_of_ne_nil hword.1
  exact ⟨c, _, dashed_cons_cons c cs words, ne_dash_of_isAlphanum (hword.2 c List.mem_cons_self)⟩

theorem exists_last_dashed (h : ∀ word ∈ words, IsWord word) (hne : words ≠ []) :
    ∃ cs c, dashed words = cs ++ [c] ∧ c ≠ '-' := by
  induction words with
  | nil => exact absurd rfl hne
  | cons word words ih =>
      obtain ⟨hword, hwords⟩ := List.forall_mem_cons.mp h
      by_cases hnil : words = []
      · subst hnil
        obtain ⟨c, hc⟩ := Option.ne_none_iff_exists'.mp (mt List.getLast?_eq_none_iff.mp hword.1)
        obtain ⟨cs, rfl⟩ := List.getLast?_eq_some_iff.mp hc
        exact ⟨cs, c, dashed_singleton _, ne_dash_of_isAlphanum (hword.2 c (by simp))⟩
      · obtain ⟨cs, c, hlast, hc⟩ := ih hwords hnil
        refine ⟨word ++ '-' :: cs, c, ?_, hc⟩
        rw [dashed_cons hnil, hlast]
        simp

theorem stripDashes_cons (cs : List Char) : stripDashes ('-' :: cs) = stripDashes cs := rfl

theorem stripDashes_of_slugged (h : Slugged cs words) (hwords : ∀ word ∈ words, IsWord word) :
    stripDashes cs = dashed words := by
  by_cases hne : words = []
  · subst hne
    rcases h with rfl | ⟨hne, _⟩
    · rfl
    · exact absurd rfl hne
  · obtain ⟨c, start, hhead, hc⟩ := exists_head_dashed hwords hne
    obtain ⟨rest, d, hlast, hd⟩ := exists_last_dashed hwords hne
    have hdrop : ∀ after, (dashed words ++ after).dropWhile (· = '-') = dashed words ++ after := by
      intro after
      rw [hhead, List.cons_append, List.dropWhile_cons_of_neg (by simpa using hc)]
    have hreverse : (dashed words).reverse.dropWhile (· = '-') = (dashed words).reverse := by
      rw [hlast, List.reverse_append, List.reverse_singleton, List.singleton_append,
        List.dropWhile_cons_of_neg (by simpa using hd)]
    rcases h with rfl | ⟨_, rfl⟩
    · have hnil := hdrop []
      rw [List.append_nil] at hnil
      rw [stripDashes, hnil, hreverse, List.reverse_reverse]
    · rw [stripDashes, hdrop, List.reverse_append, List.reverse_singleton, List.singleton_append,
        List.dropWhile_cons_of_pos (by decide), hreverse, List.reverse_reverse]

theorem stripDashes_slug (cs : List Char) : stripDashes (slug false cs) = dashed (wordsOf cs) := by
  obtain ⟨hslugged, hfalse⟩ := slug_spec cs
  have hstrip := stripDashes_of_slugged hslugged (isWord_of_mem_wordsOf cs)
  rcases hfalse with ⟨hsame, _⟩ | ⟨hdash, _⟩
  · rw [hsame, hstrip]
  · rw [hdash, stripDashes_cons, hstrip]

theorem map_toUpper_dashed (words : List (List Char)) :
    (dashed words).map Char.toUpper = dashed (words.map (List.map Char.toUpper)) := by
  induction words with
  | nil => rfl
  | cons word words ih =>
      by_cases hne : words = []
      · subst hne
        rw [dashed_singleton, List.map_singleton, dashed_singleton]
      · rw [dashed_cons hne, List.map_append, List.map_cons, ih, List.map_cons, dashed_cons (by simpa using hne)]
        rfl

/-- A derived id is made of the words of the path. -/
theorem documentId_eq (relativePath : String) :
    documentId relativePath = "DOC-" ++ String.ofList (dashed (pathWords relativePath)) := by
  have hstrip := stripDashes_slug (removeMd relativePath.toList)
  unfold documentId
  dsimp only
  rw [stripDashes] at hstrip
  rw [hstrip, String.toUpper, String.map_eq_internal, String.toList_ofList, map_toUpper_dashed]
  rfl

theorem isAlphanum_toUpper (h : c.isAlphanum = true) : c.toUpper.isAlphanum = true := by
  unfold Char.toUpper
  split
  · next hlower =>
    simp only [Char.isAlphanum, Char.isAlpha, Char.isUpper, Bool.or_eq_true, decide_eq_true_eq]
    refine .inl (.inl ?_)
    grind
  · exact h

theorem isWord_of_mem_pathWords (path : String) : ∀ word ∈ pathWords path, IsWord word := by
  intro word hword
  obtain ⟨lower, hlower, rfl⟩ := List.mem_map.mp hword
  obtain ⟨hne, halphanum⟩ := isWord_of_mem_wordsOf _ lower hlower
  refine ⟨by simpa using hne, fun c hc => ?_⟩
  obtain ⟨d, hd, rfl⟩ := List.mem_map.mp hc
  exact isAlphanum_toUpper (halphanum d hd)

theorem dashed_injective {others : List (List Char)} (h : ∀ word ∈ words, IsWord word)
    (hothers : ∀ word ∈ others, IsWord word) (heq : dashed words = dashed others) : words = others := by
  have hsplit : ∀ {words : List (List Char)}, (∀ word ∈ words, IsWord word) → words ≠ [] →
      (dashed words).splitOn '-' = words := by
    intro words hwords hne
    apply List.splitOn_intercalate _ _ hne
    intro word hword hdash
    exact ne_dash_of_isAlphanum ((hwords word hword).2 '-' hdash) rfl
  have hnil : ∀ {words : List (List Char)}, (∀ word ∈ words, IsWord word) → dashed words = dashed [] → words = [] := by
    intro words hwords heq
    by_contra hne
    obtain ⟨c, cs, hhead, _⟩ := exists_head_dashed hwords hne
    rw [hhead] at heq
    cases heq
  by_cases hwords : words = []
  · subst hwords
    exact (hnil hothers heq.symm).symm
  · by_cases hother : others = []
    · subst hother
      exact hnil h heq
    · rw [← hsplit h hwords, heq, hsplit hothers hother]

/-- Two paths give the same id exactly when they have the same words. -/
theorem documentId_eq_iff {path other : String} :
    documentId path = documentId other ↔ pathWords path = pathWords other := by
  rw [documentId_eq, documentId_eq]
  constructor
  · intro h
    apply dashed_injective (isWord_of_mem_pathWords path) (isWord_of_mem_pathWords other)
    have hlists := congrArg String.toList h
    rw [String.toList_append, String.toList_append, List.append_cancel_left_eq] at hlists
    simpa using hlists
  · intro h
    rw [h]

theorem mem_dashed (h : c ∈ dashed words) : c = '-' ∨ ∃ word ∈ words, c ∈ word := by
  induction words with
  | nil => cases h
  | cons word words ih =>
      by_cases hne : words = []
      · subst hne
        rw [dashed_singleton] at h
        exact .inr ⟨word, List.mem_cons_self, h⟩
      · rw [dashed_cons hne, List.mem_append, List.mem_cons] at h
        rcases h with hword | hdash | hrest
        · exact .inr ⟨word, List.mem_cons_self, hword⟩
        · exact .inl hdash
        · rcases ih hrest with hdash | ⟨other, hother, hc⟩
          · exact .inl hdash
          · exact .inr ⟨other, List.mem_cons_of_mem _ hother, hc⟩

theorem dot_not_mem_documentId (path : String) : '.' ∉ (documentId path).toList := by
  have hwords : '.' ∉ dashed (pathWords path) := by
    intro hdot
    rcases mem_dashed hdot with hdash | ⟨word, hword, hmem⟩
    · exact absurd hdash (by decide)
    · have halphanum := (isWord_of_mem_pathWords path word hword).2 '.' hmem
      exact absurd halphanum (by decide)
  rw [documentId_eq, String.toList_append, String.toList_ofList]
  simp [hwords]

end Words

/-! ## The check for duplicates -/

structure ValidationIssue where
  severity : String
  code : String
  message : String
  path : Option String := none
  deriving DecidableEq, Repr

/-- The loop of `validate_project` over the registry; `seen` are the paths of the ids so far. -/
def duplicateIssues : Dict String String → List RegistryEntry → List ValidationIssue
  | _, [] => []
  | seen, entry :: registry =>
    (match seen.get? entry.id with
      | some previous => [{
          severity := "error"
          code := "duplicate-document-id"
          message := s!"Document ID '{entry.id}' is used by both {previous} and {entry.path}."
          path := some entry.path }]
      | none => []) ++ duplicateIssues (seen.set entry.id entry.path) registry

theorem duplicateIssues_eq_nil {seen : Dict String String} {registry : List RegistryEntry}
    (h : (registry.map RegistryEntry.id).Nodup) (hseen : ∀ entry ∈ registry, entry.id ∉ seen.keys) :
    duplicateIssues seen registry = [] := by
  induction registry generalizing seen with
  | nil => rfl
  | cons entry registry ih =>
      rw [List.map_cons, List.nodup_cons] at h
      obtain ⟨hentry, hrest⟩ := List.forall_mem_cons.mp hseen
      rw [duplicateIssues, Dict.get?_eq_none.mpr hentry, List.nil_append]
      refine ih h.2 fun other hother => ?_
      rw [Dict.mem_keys_set, not_or]
      refine ⟨?_, hrest other hother⟩
      intro hsame
      exact h.1 (List.mem_map.mpr ⟨other, hother, hsame⟩)

/-! ## Documents with distinct ids -/

section Distinct

variable {documents : List ParsedDocument} {document : ParsedDocument}

theorem filter_eq_singleton {α β : Type} [DecidableEq β] {f : α → β} {xs : List α} (h : (xs.map f).Nodup) {x : α}
    (hx : x ∈ xs) : xs.filter (fun y => f y = f x) = [x] := by
  induction xs with
  | nil => cases hx
  | cons y xs ih =>
      rw [List.map_cons, List.nodup_cons] at h
      rcases List.mem_cons.mp hx with rfl | hmem
      · rw [List.filter_cons_of_pos (by simp), List.filter_eq_nil_iff.mpr]
        intro other hother hsame
        rw [decide_eq_true_eq] at hsame
        exact h.1 (List.mem_map.mpr ⟨other, hother, hsame⟩)
      · have hne : f y ≠ f x := by
          intro hsame
          exact h.1 (List.mem_map.mpr ⟨x, hmem, hsame.symm⟩)
        rw [List.filter_cons_of_neg (by simpa using hne), ih h.2 hmem]

/-- The nodes of a graph are those of the documents and references. -/
theorem nodes_buildGraph {graph : KnowledgeGraph} (h : buildGraph documents = .ok graph) :
    ∃ dangling : List String, graph.nodes.Perm
      (documents.map documentNode ++ dangling.map fun target => { id := target, type := "reference" }) := by
  obtain ⟨edges, _, h⟩ := of_bind_ok h
  cases h
  exact ⟨_, List.mergeSort_perm _ _⟩

/-- The nodes of one document. -/
def nodesOf (graph : KnowledgeGraph) (id : String) : List GraphNode :=
  graph.nodes.filter fun node => node.type = "document" ∧ node.id = id

theorem nodesOf_buildGraph {graph : KnowledgeGraph} (h : buildGraph documents = .ok graph)
    (hnodup : (documents.map fun d => d.metadata.id).Nodup) (hdocument : document ∈ documents) :
    nodesOf graph document.metadata.id = [documentNode document] := by
  obtain ⟨dangling, hperm⟩ := nodes_buildGraph h
  have hnodes := hperm.filter fun node => decide (node.type = "document" ∧ node.id = document.metadata.id)
  rw [List.filter_append, List.filter_map, List.filter_map] at hnodes
  have hreferences : dangling.filter ((fun node : GraphNode =>
      decide (node.type = "document" ∧ node.id = document.metadata.id)) ∘
        fun target => { id := target, type := "reference" }) = [] := by
    rw [List.filter_eq_nil_iff]
    intro target _ hmatch
    rw [Function.comp_apply, decide_eq_true_eq] at hmatch
    have htype : "reference" = "document" := hmatch.1
    exact absurd htype (by decide)
  have hdocuments : documents.filter ((fun node : GraphNode =>
      decide (node.type = "document" ∧ node.id = document.metadata.id)) ∘ documentNode) = [document] := by
    rw [← filter_eq_singleton hnodup hdocument]
    apply List.filter_congr
    intro other _
    rw [Function.comp_apply, decide_eq_decide]
    simp [documentNode]
  rw [hreferences, hdocuments] at hnodes
  exact hnodes.eq_singleton

/-- What is known by one id or path only is found there. -/
theorem registryLookup_unique {registry : List RegistryEntry} {entry : RegistryEntry} {reference : String}
    (hentry : entry ∈ registry) (hknown : entry.id = reference ∨ entry.path = reference)
    (hunique : ∀ other ∈ registry, other.id = reference ∨ other.path = reference → other = entry) :
    (registryLookup registry).get? reference = some entry := by
  cases hfound : (registryLookup registry).get? reference with
  | none =>
      rw [registryLookup_eq, Dict.get?_eq_none, Dict.mem_keys_ofItems, List.mem_map] at hfound
      refine absurd ?_ hfound
      rcases hknown with hid | hpath
      · exact ⟨(entry.id, entry), List.mem_flatMap.mpr ⟨entry, hentry, by simp⟩, hid⟩
      · exact ⟨(entry.path, entry), List.mem_flatMap.mpr ⟨entry, hentry, by simp⟩, hpath⟩
  | some other =>
      rw [registryLookup_eq] at hfound
      obtain ⟨item, hitem, hmem⟩ := List.mem_flatMap.mp (Dict.mem_of_get?_ofItems hfound)
      simp only [List.mem_cons, Prod.mk.injEq, List.not_mem_nil, or_false] at hmem
      rcases hmem with ⟨hid, rfl⟩ | ⟨hpath, rfl⟩
      · rw [hunique other hitem (.inl hid.symm)]
      · rw [hunique other hitem (.inr hpath.symm)]

theorem registryLookup_document (hids : (documents.map fun d => d.metadata.id).Nodup)
    (hpaths : (documents.map ParsedDocument.relativePath).Nodup)
    (hapart : ∀ d ∈ documents, ∀ other ∈ documents, d.metadata.id ≠ other.relativePath)
    (hdocument : document ∈ documents) :
    (registryLookup (buildRegistry documents)).get? document.metadata.id = some (entryOf document) ∧
      (registryLookup (buildRegistry documents)).get? document.relativePath = some (entryOf document) := by
  have hentry : entryOf document ∈ buildRegistry documents := mem_buildRegistry.mpr ⟨document, hdocument, rfl⟩
  constructor
  · apply registryLookup_unique hentry (.inl rfl)
    intro entry hother hknown
    obtain ⟨other, hmem, rfl⟩ := mem_buildRegistry.mp hother
    rcases hknown with hid | hpath
    · rw [List.inj_on_of_nodup_map hids hmem hdocument hid]
    · exact absurd hpath.symm (hapart document hdocument other hmem)
  · apply registryLookup_unique hentry (.inr rfl)
    intro entry hother hknown
    obtain ⟨other, hmem, rfl⟩ := mem_buildRegistry.mp hother
    rcases hknown with hid | hpath
    · exact absurd hid (hapart other hmem document hdocument)
    · rw [List.inj_on_of_nodup_map hpaths hmem hdocument hpath]

end Distinct

/-! ## Trees in which no document declares an id -/

/-- The path of a file from the root of its project. -/
def pathOf (tree : Tree) (file : DocumentFile) : String := "/".intercalate (tree.docsRoot ++ file.parts)

/-- What `rglob("*.md")` finds. -/
def IsMarkdown (tree : Tree) : Prop :=
  ∀ file ∈ tree.files, ∃ name ∈ file.parts.getLast?, ".md".toList.isSuffixOf name.toList = true

/-- What `DocumentMetadata` does with an id. -/
def KeepsId (lib : IndexLibrary) : Prop :=
  ∀ raw metadata id, Dict.get? raw (.str "id") = some (.str id) → lib.modelValidate raw = .ok metadata → metadata.id = id

/-- No header of the tree has an id. -/
def DeclaresNoId (lib : IndexLibrary) (tree : Tree) : Prop :=
  ∀ file ∈ tree.files, ∀ text, file.text = .ok text → ∀ raw body,
    splitFrontMatter lib.toLibrary text = .ok (some raw, body) → raw.get? (.str "id") = none

section Derived

variable {lib : IndexLibrary} {tree : Tree} {root : List String} {manifest : Documents.Manifest} {file : DocumentFile}
  {document : ParsedDocument} {documents : List ParsedDocument}

/-- `parse_document`, of a file of the tree. -/
def parseAt (lib : IndexLibrary) (tree : Tree) (root : List String) (manifest : Documents.Manifest) (file : DocumentFile) :
    Except SiteError ParsedDocument :=
  parseDocument lib root (file.under (root ++ tree.docsRoot)) manifest

/-- Each file has an id of its own, and the index knows it by that. -/
structure UniqueIds (lib : IndexLibrary) (tree : Tree) (root : List String) (manifest : Documents.Manifest) : Prop where
  distinct : ∀ file ∈ tree.files, ∀ other ∈ tree.files, file ≠ other → ∀ document document',
    parseAt lib tree root manifest file = .ok document → parseAt lib tree root manifest other = .ok document' →
    document.metadata.id ≠ document'.metadata.id
  checked : ∀ documents, discoverDocuments lib (tree.place root) manifest = .ok documents →
    duplicateIssues [] (buildRegistry documents) = []
  nodes : ∀ documents graph, discoverDocuments lib (tree.place root) manifest = .ok documents →
    buildGraph documents = .ok graph → ∀ document ∈ documents,
      nodesOf graph document.metadata.id = [documentNode document]
  lookup : ∀ documents, discoverDocuments lib (tree.place root) manifest = .ok documents →
    ∀ document ∈ documents,
      (registryLookup (buildRegistry documents)).get? document.metadata.id = some (entryOf document) ∧
      (registryLookup (buildRegistry documents)).get? document.relativePath = some (entryOf document)

/-- No two files that can be parsed have paths with the same words. -/
def DistinctWords (lib : IndexLibrary) (tree : Tree) (root : List String) (manifest : Documents.Manifest) : Prop :=
  ∀ file ∈ tree.files, ∀ other ∈ tree.files, file ≠ other →
    (∃ document, parseAt lib tree root manifest file = .ok document) →
    (∃ document, parseAt lib tree root manifest other = .ok document) →
    pathWords (pathOf tree file) ≠ pathWords (pathOf tree other)

/-- `raw_metadata.setdefault("id", ...)` of a header without one. -/
theorem get?_completed_id {raw : Dict Key Value} (h : raw.get? (.str "id") = none) (parts : List String)
    (body : String) :
    (completed lib.toLibrary parts raw body).get? (.str "id") = some (.str (documentId ("/".intercalate parts))) := by
  unfold completed Documents.setDefaultStr
  dsimp only
  rw [Dict.get?_setDefault_of_ne _ _ (by decide), Dict.get?_setDefault_of_ne _ _ (by decide),
    Dict.get?_setDefault_self]
  rw [Dict.get?_setDefault_of_ne _ _ (by decide), h]

theorem id_of_parseAt (hlib : KeepsId lib) (hnone : DeclaresNoId lib tree) (hfile : file ∈ tree.files)
    (h : parseAt lib tree root manifest file = .ok document) : document.metadata.id = documentId (pathOf tree file) := by
  rw [parseAt, ← Documents.under_under] at h
  obtain ⟨text, htext, _, hmetadata⟩ := of_parseDocument h
  rcases hmetadata with ⟨body, _, hmetadata⟩ | ⟨raw, body, hsplit, hvalid⟩
  · rw [hmetadata]
    rfl
  · exact hlib _ _ _ (get?_completed_id (hnone file hfile text htext raw body hsplit) _ body) hvalid

theorem relativePath_of_parseAt (h : parseAt lib tree root manifest file = .ok document) :
    document.relativePath = pathOf tree file := by
  rw [parseAt, ← Documents.under_under] at h
  exact relativePath_of_parse h

/-- Discovery parses some files of the tree, each once. -/
theorem of_discover (h : discoverDocuments lib (tree.place root) manifest = .ok documents) :
    ∃ placed : List DocumentFile, placed.Nodup ∧
      (∀ found ∈ placed, ∃ file ∈ tree.files, file.under (root ++ tree.docsRoot) = found) ∧
      (placed.mapM fun found => parseDocument lib root found manifest) = .ok documents := by
  unfold discoverDocuments at h
  split at h
  · cases h
    exact ⟨[], List.nodup_nil, fun file hfile => absurd hfile List.not_mem_nil, rfl⟩
  · refine ⟨_, (tree.place root).sortedFiles_nodup.filter _, ?_, h⟩
    intro found hfound
    exact List.mem_map.mp (Project.mem_sortedFiles.mp (List.mem_of_mem_filter hfound))

theorem exists_file_of_discover (h : discoverDocuments lib (tree.place root) manifest = .ok documents)
    (hdocument : document ∈ documents) : ∃ file ∈ tree.files, parseAt lib tree root manifest file = .ok document := by
  obtain ⟨placed, _, hplaced, hparse⟩ := of_discover h
  obtain ⟨found, hfound, hok⟩ := (mem_of_mapM_ok hparse).2 document hdocument
  obtain ⟨file, hfile, rfl⟩ := hplaced found hfound
  exact ⟨file, hfile, hok⟩

/-- Distinct ids of files are distinct ids of documents. -/
theorem nodup_ids (hdistinct : ∀ file ∈ tree.files, ∀ other ∈ tree.files, file ≠ other → ∀ document document',
      parseAt lib tree root manifest file = .ok document → parseAt lib tree root manifest other = .ok document' →
      document.metadata.id ≠ document'.metadata.id)
    (h : discoverDocuments lib (tree.place root) manifest = .ok documents) :
    (documents.map fun d => d.metadata.id).Nodup := by
  obtain ⟨placed, hnodup, hplaced, hparse⟩ := of_discover h
  apply nodup_map_of_mapM hnodup hparse
  intro found hfound found' hfound' hne
  obtain ⟨file, hfile, rfl⟩ := hplaced found hfound
  obtain ⟨other, hother, rfl⟩ := hplaced found' hfound'
  exact hdistinct file hfile other hother fun hsame => hne (congrArg _ hsame)

/-- No path is an id: it has a dot. -/
theorem documentId_ne_path (hmarkdown : IsMarkdown tree) (hfile : file ∈ tree.files) (path : String) :
    documentId path ≠ pathOf tree file := by
  intro hsame
  apply dot_not_mem_documentId path
  obtain ⟨name, hname, hsuffix⟩ := hmarkdown file hfile
  have hdot : '.' ∈ name.toList := (List.isSuffixOf_iff_suffix.mp hsuffix).subset (by simp)
  obtain ⟨dirs, hparts⟩ := List.getLast?_eq_some_iff.mp hname
  rw [hsame, pathOf, hparts, ← List.append_assoc]
  generalize tree.docsRoot ++ dirs = above
  induction above with
  | nil => simpa using hdot
  | cons part above ih =>
      rw [List.cons_append, String.intercalate_cons_of_ne_nil (List.append_ne_nil_of_right_ne_nil _ (List.cons_ne_nil _ _)),
        String.toList_append]
      exact List.mem_append_right _ ih

/-- Derived ids are unique exactly when no two paths have the same words. -/
theorem derivedIds_iff (hlib : KeepsId lib) (hmarkdown : IsMarkdown tree) (hnone : DeclaresNoId lib tree) :
    UniqueIds lib tree root manifest ↔ DistinctWords lib tree root manifest := by
  constructor
  · intro h file hfile other hother hne hparse hparse'
    obtain ⟨document, hdocument⟩ := hparse
    obtain ⟨document', hdocument'⟩ := hparse'
    have hids := h.distinct file hfile other hother hne document document' hdocument hdocument'
    rw [id_of_parseAt hlib hnone hfile hdocument, id_of_parseAt hlib hnone hother hdocument'] at hids
    exact fun hwords => hids (documentId_eq_iff.mpr hwords)
  · intro h
    have hdistinct : ∀ file ∈ tree.files, ∀ other ∈ tree.files, file ≠ other → ∀ document document',
        parseAt lib tree root manifest file = .ok document → parseAt lib tree root manifest other = .ok document' →
        document.metadata.id ≠ document'.metadata.id := by
      intro file hfile other hother hne document document' hdocument hdocument'
      rw [id_of_parseAt hlib hnone hfile hdocument, id_of_parseAt hlib hnone hother hdocument']
      have hwords := h file hfile other hother hne ⟨document, hdocument⟩ ⟨document', hdocument'⟩
      exact fun hids => hwords (documentId_eq_iff.mp hids)
    refine ⟨hdistinct, ?_, ?_, ?_⟩
    · intro documents hdocuments
      apply duplicateIssues_eq_nil
      · exact (map_buildRegistry_perm RegistryEntry.id documents).nodup_iff.mpr (nodup_ids hdistinct hdocuments)
      · intro entry _ hmem
        cases hmem
    · intro documents graph hdocuments hgraph document hdocument
      exact nodesOf_buildGraph hgraph (nodup_ids hdistinct hdocuments) hdocument
    · intro documents hdocuments document hdocument
      apply registryLookup_document (nodup_ids hdistinct hdocuments) _ _ hdocument
      · exact (relativePaths_of_discover hdocuments).nodup (nodup_sortedTree tree)
      · intro d hd other hother
        obtain ⟨file, hfile, hparse⟩ := exists_file_of_discover hdocuments hd
        obtain ⟨file', hfile', hparse'⟩ := exists_file_of_discover hdocuments hother
        rw [id_of_parseAt hlib hnone hfile hparse, relativePath_of_parseAt hparse']
        exact documentId_ne_path hmarkdown hfile' _

end Derived

/-! ### Two spellings of one name -/

def pairsIndexLibrary : IndexLibrary where
  safeLoad header := .ok (Documents.loadPairs header)
  modelValidate raw :=
    if h : Documents.textOf raw "id" = "" then .error "id: String should have at least 1 character"
    else .ok {
      id := Documents.textOf raw "id"
      title := Documents.textOf raw "title"
      visibility := Documents.visibilityOf raw
      section_ := some (Documents.textOf raw "section")
      estimatedTokens := Documents.tokensOf raw
      id_ne := h }
  title s := s

theorem pairsIndexLibrary_keepsId : KeepsId pairsIndexLibrary := by
  intro raw metadata id hid hvalid
  have htext : Documents.textOf raw "id" = id := by
    rw [Documents.textOf, hid]
  unfold pairsIndexLibrary at hvalid
  dsimp only at hvalid
  split at hvalid
  · cases hvalid
  · cases hvalid
    exact htext

/-- `docs/a-b.md`, with a header, and `docs/a_b.md`. -/
def spelledTree : Tree where
  docsRoot := ["docs"]
  manifest := .ok {}
  files := [{ parts := ["a-b.md"], text := .ok "---\nvisibility: public\n---\n# With a dash" },
    { parts := ["a_b.md"], text := .ok "# With a low line" }]
  distinct := by decide
  named := by decide
  plain := by decide
  empty_of_no_dir := fun h => Bool.noConfusion h

theorem spelled_isMarkdown : IsMarkdown spelledTree := by
  intro file hfile
  rcases List.mem_pair.mp hfile with rfl | rfl
  · exact ⟨"a-b.md", rfl, rfl⟩
  · exact ⟨"a_b.md", rfl, rfl⟩

theorem spelled_declaresNoId : DeclaresNoId pairsIndexLibrary spelledTree := by
  have hheader : splitFrontMatter pairsIndexLibrary.toLibrary "---\nvisibility: public\n---\n# With a dash" =
      .ok (some [(.str "visibility", .str "public")], "# With a dash") := by
    rfl
  have hplain : splitFrontMatter pairsIndexLibrary.toLibrary "# With a low line" = .ok (none, "# With a low line") := by
    rfl
  intro file hfile text htext raw body hsplit
  rcases List.mem_pair.mp hfile with rfl | rfl
  · cases htext
    cases hheader.symm.trans hsplit
    rfl
  · cases htext
    cases hplain.symm.trans hsplit

theorem derivedIds_iff_spelled :
    UniqueIds pairsIndexLibrary spelledTree ["/", "atlas"] {} ↔
      DistinctWords pairsIndexLibrary spelledTree ["/", "atlas"] {} :=
  derivedIds_iff pairsIndexLibrary_keepsId spelled_isMarkdown spelled_declaresNoId

/-- Both files have the id `DOC-DOCS-A-B`. -/
theorem spelled_not_unique :
    IsMarkdown spelledTree ∧ DeclaresNoId pairsIndexLibrary spelledTree ∧
      ¬ UniqueIds pairsIndexLibrary spelledTree ["/", "atlas"] {} := by
  refine ⟨spelled_isMarkdown, spelled_declaresNoId, fun h => ?_⟩
  have hparse : ∀ file ∈ spelledTree.files, ∃ document,
      parseAt pairsIndexLibrary spelledTree ["/", "atlas"] {} file = .ok document ∧
        document.metadata.id = documentId (pathOf spelledTree file) := by
    intro file hfile
    rcases List.mem_pair.mp hfile with rfl | rfl
    · exact ⟨_, rfl, rfl⟩
    · exact ⟨_, rfl, rfl⟩
  obtain ⟨dash, hdash, hdashId⟩ := hparse _ List.mem_cons_self
  obtain ⟨low, hlow, hlowId⟩ := hparse _ (List.mem_cons_of_mem _ List.mem_cons_self)
  have hids : dash.metadata.id = low.metadata.id := by
    rw [hdashId, hlowId]
    decide +kernel
  exact h.distinct _ List.mem_cons_self _ (List.mem_cons_of_mem _ List.mem_cons_self) (by decide) dash low hdash hlow hids

end AtlasFlow.Reference.Indexing
