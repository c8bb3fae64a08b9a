import Mathlib.Data.List.Dedup
import Mathlib.Data.List.Infix
import AtlasFlow.Reference.Registry

/-!
# Impact analysis

`analyze_impact` of `evolution/context.py`: which documents a change touches. The changed documents are to be
read, and their neighbours in the graph and the documents that mention a changed path may need an update. Both
are collected in dictionaries whose keys are a path and a relation, and in the end the keys of what is to be
read are taken out of what may need an update. A changed document is there under another relation, so it stays:
`complete_iff` says when that shows.
-/

namespace AtlasFlow.Reference.Impact

open Documents (SiteError)
open Registry

structure ImpactItem where
  path : String
  reason : String
  relation : String
  deriving DecidableEq, Repr

structure ImpactReport where
  changed : List String
  risk : String
  read : List ImpactItem
  possibleUpdates : List ImpactItem
  warnings : List String
  deriving DecidableEq, Repr

/-- The key of an item in either dictionary. -/
def ImpactItem.key (item : ImpactItem) : String × String := (item.path, item.relation)

/-- `items[(item.path, item.relation)] = item`, for one item after another. -/
def assign (d : Dict (String × String) ImpactItem) (items : List ImpactItem) : Dict (String × String) ImpactItem :=
  items.foldl (fun d item => d.set item.key item) d

/-- `sorted(items.values(), key=lambda item: item.path)`. -/
def sortedValues (d : Dict (String × String) ImpactItem) : List ImpactItem :=
  d.values.mergeSort fun a b => decide (a.path ≤ b.path)

/-- `Path(path).stem`. -/
def pathStem (path : String) : List Char :=
  let parts := (path.toList.splitOn '/').filter fun part => part ≠ [] ∧ part ≠ ['.']
  Documents.stem (parts.getLast?.getD [])

section Analysis

-- `str.lower`
variable (lower : List Char → List Char)

/-- What the loop over the documents looks for. -/
def mentions (changedPath : String) (document : ParsedDocument) : Bool :=
  let stem := lower (pathStem changedPath)
  changedPath.toList <:+: document.body.toList || (stem ≠ [] && stem <:+: lower document.body.toList)

def mentionItems (documents : List ParsedDocument) (changedPath : String) : List ImpactItem :=
  (documents.filter (mentions lower changedPath)).map fun document =>
    ⟨document.relativePath, s!"mentions {changedPath}", "text"⟩

/-- What the loop over the edges assigns. -/
def neighborItems (docById : Dict String RegistryEntry) (edges : List GraphEdge) (changedId : String) :
    List ImpactItem :=
  edges.filterMap fun edge =>
    if edge.source = changedId ∨ edge.target = changedId then
      (docById.get? (if edge.source = changedId then edge.target else edge.source)).map fun neighbor =>
        ⟨neighbor.path, s!"graph relation: {edge.relation}", edge.relation⟩
    else none

/-- `read` and `possible`. -/
structure Found where
  read : Dict (String × String) ImpactItem
  possible : Dict (String × String) ImpactItem

def docById (registry : List RegistryEntry) : Dict String RegistryEntry :=
  Dict.ofItems (registry.map fun entry => (entry.id, entry))

def pathToId (registry : List RegistryEntry) : Dict String String :=
  Dict.ofItems (registry.map fun entry => (entry.path, entry.id))

/-- One turn of the loop over the changed paths. An id that is not empty is true, and `doc_by_id` has it. -/
def visit (index : ProjectIndex) (found : Found) (changedPath : String) : Found :=
  let found : Found :=
    match (pathToId index.registry).get? changedPath with
    | none => found
    | some changedId =>
      if changedId = "" then found
      else
        { read := assign found.read <| ((docById index.registry).get? changedId).toList.map fun entry =>
            ⟨entry.path, "changed document", "direct"⟩
          possible := assign found.possible (neighborItems (docById index.registry) index.graph.edges changedId) }
  { found with possible := assign found.possible (mentionItems lower index.documents changedPath) }

/-- `possible.pop(key, None)`, for the keys of what is to be read. -/
def Found.popRead (found : Found) : Dict (String × String) ImpactItem :=
  found.read.keys.foldl Dict.pop found.possible

def riskOf (changed : List String) : String :=
  if changed.length > 10 then "high" else if changed ≠ [] then "medium" else "low"

/-- `changed_files(root)` stands for no paths. -/
def changedPaths (changedFiles : List String) (paths : Option (List String)) : List String :=
  let paths := match paths with
    | none | some [] => changedFiles
    | some paths => paths
  paths.dedup.mergeSort fun a b => decide (a ≤ b)

def analyzeImpact (project : Registry.Project) (changedFiles : List String) (paths : Option (List String)) :
    Except SiteError ImpactReport := do
  let index ← loadProjectIndex project
  let changed := changedPaths changedFiles paths
  let found := changed.foldl (visit lower index) ⟨[], []⟩
  return {
    changed
    risk := riskOf changed
    read := sortedValues found.read
    possibleUpdates := sortedValues found.popRead
    warnings := if changed = [] then ["No changed paths detected."] else [] }

end Analysis

/-! ## What the dictionaries hold -/

section Dictionaries

variable {d : Dict (String × String) ImpactItem} {items : List ImpactItem} {key : String × String}

/-- A dictionary in which every item stands under its own key. -/
structure Keyed (d : Dict (String × String) ImpactItem) : Prop where
  own : ∀ entry ∈ d, entry.2.key = entry.1
  nodup : d.keys.Nodup

theorem keyed_nil : Keyed [] := ⟨fun _ h => (List.not_mem_nil h).elim, List.nodup_nil⟩

theorem Keyed.set (h : Keyed d) (item : ImpactItem) : Keyed (d.set item.key item) := by
  have hnodup := Dict.keys_set_nodup h.nodup item.key item
  refine ⟨fun entry hentry => ?_, hnodup⟩
  have hget := Dict.get?_of_mem hnodup (k := entry.1) (v := entry.2) hentry
  rw [Dict.get?_set] at hget
  split at hget
  · next hkey =>
    cases hget
    exact hkey
  · exact h.own entry (Dict.mem_of_get? hget)

theorem Keyed.assign (h : Keyed d) (items : List ImpactItem) : Keyed (assign d items) := by
  induction items generalizing d with
  | nil => exact h
  | cons item items ih => exact ih (h.set item)

theorem mem_keys_assign : key ∈ (assign d items).keys ↔ key ∈ d.keys ∨ ∃ item ∈ items, item.key = key := by
  induction items generalizing d with
  | nil => simp [assign]
  | cons item items ih =>
      rw [show assign d (item :: items) = assign (d.set item.key item) items from rfl, ih, Dict.mem_keys_set,
        List.exists_mem_cons_iff]
      grind

theorem Keyed.map_key (h : Keyed d) : d.values.map ImpactItem.key = d.keys := by
  rw [Dict.values, List.map_map]
  exact List.map_congr_left h.own

theorem sortedValues_perm (h : Keyed d) : ((sortedValues d).map ImpactItem.key).Perm d.keys := by
  rw [← h.map_key]
  exact (List.mergeSort_perm _ _).map _

theorem mem_sortedValues (h : Keyed d) {path relation : String} :
    (∃ item ∈ sortedValues d, item.path = path ∧ item.relation = relation) ↔ (path, relation) ∈ d.keys := by
  rw [← (sortedValues_perm h).mem_iff, List.mem_map]
  simp [ImpactItem.key]

/-- Taking out keys that are not there changes nothing. -/
theorem foldl_pop {ks : List (String × String)} (h : ∀ k ∈ ks, k ∉ d.keys) : ks.foldl Dict.pop d = d := by
  induction ks with
  | nil => rfl
  | cons k ks ih =>
      have hpop : d.pop k = d := by
        refine List.filter_eq_self.mpr fun entry hentry => decide_eq_true fun heq => ?_
        exact h k List.mem_cons_self (heq ▸ List.mem_map_of_mem hentry)
      rw [List.foldl_cons, hpop]
      exact ih fun k' hk' => h k' (List.mem_cons_of_mem k hk')

end Dictionaries

/-! ## What the loop collects -/

/-- `edge` leads from one document to the other, or back. -/
def Joins (edge : GraphEdge) (c d : ParsedDocument) : Prop :=
  edge.source = c.metadata.id ∧ edge.target = d.metadata.id ∨
    edge.target = c.metadata.id ∧ edge.source = d.metadata.id

section Collect

variable {lower : List Char → List Char} {index : ProjectIndex}

theorem pathToId_get? (hindex : Loaded index) {path id : String} :
    (pathToId index.registry).get? path = some id ↔
      ∃ d ∈ index.documents, d.relativePath = path ∧ d.metadata.id = id := by
  have hpaths : ((index.registry.map fun entry => (entry.path, entry.id)).map Prod.fst).Nodup := by
    rw [List.map_map, hindex.registry]
    exact (map_buildRegistry_perm RegistryEntry.path index.documents).nodup_iff.mpr hindex.distinct
  constructor
  · intro h
    obtain ⟨entry, hentry, heq⟩ := List.mem_map.mp (Dict.mem_of_get?_ofItems h)
    rw [hindex.registry, mem_buildRegistry] at hentry
    obtain ⟨d, hd, rfl⟩ := hentry
    cases heq
    exact ⟨d, hd, rfl, rfl⟩
  · rintro ⟨d, hd, rfl, rfl⟩
    refine Dict.get?_ofItems hpaths (List.mem_map.mpr ⟨entryOf d, ?_, rfl⟩)
    rw [hindex.registry, mem_buildRegistry]
    exact ⟨d, hd, rfl⟩

theorem docById_get? (hindex : Loaded index) (hids : (index.documents.map fun d => d.metadata.id).Nodup)
    {id : String} {entry : RegistryEntry} :
    (docById index.registry).get? id = some entry ↔
      ∃ d ∈ index.documents, d.metadata.id = id ∧ entryOf d = entry := by
  have hkeys : ((index.registry.map fun entry => (entry.id, entry)).map Prod.fst).Nodup := by
    rw [List.map_map, hindex.registry]
    exact (map_buildRegistry_perm RegistryEntry.id index.documents).nodup_iff.mpr hids
  constructor
  · intro h
    obtain ⟨entry', hentry, heq⟩ := List.mem_map.mp (Dict.mem_of_get?_ofItems h)
    rw [hindex.registry, mem_buildRegistry] at hentry
    obtain ⟨d, hd, rfl⟩ := hentry
    cases heq
    exact ⟨d, hd, rfl, rfl⟩
  · rintro ⟨d, hd, rfl, rfl⟩
    refine Dict.get?_ofItems hkeys (List.mem_map.mpr ⟨entryOf d, ?_, rfl⟩)
    rw [hindex.registry, mem_buildRegistry]
    exact ⟨d, hd, rfl⟩

/-- The keys under which a changed path puts documents among what may need an update. -/
def Touches (lower : List Char → List Char) (index : ProjectIndex) (path : String) (key : String × String) : Prop :=
  (∃ c ∈ index.documents, c.relativePath = path ∧ ∃ d ∈ index.documents, ∃ edge ∈ index.graph.edges,
    Joins edge c d ∧ key = (d.relativePath, edge.relation)) ∨
  ∃ d ∈ index.documents, mentions lower path d = true ∧ key = (d.relativePath, "text")

theorem mem_neighborItems (hindex : Loaded index) (hids : (index.documents.map fun d => d.metadata.id).Nodup)
    (c : ParsedDocument) {key : String × String} :
    (∃ item ∈ neighborItems (docById index.registry) index.graph.edges c.metadata.id, item.key = key) ↔
      ∃ d ∈ index.documents, ∃ edge ∈ index.graph.edges,
        Joins edge c d ∧ key = (d.relativePath, edge.relation) := by
  constructor
  · rintro ⟨item, hitem, rfl⟩
    obtain ⟨edge, hedge, hsome⟩ := List.mem_filterMap.mp hitem
    split at hsome
    · next hat =>
      obtain ⟨neighbor, hget, rfl⟩ := Option.map_eq_some_iff.mp hsome
      obtain ⟨d, hd, hid, rfl⟩ := (docById_get? hindex hids).mp hget
      refine ⟨d, hd, edge, hedge, ?_, rfl⟩
      split at hid
      · next hsource => exact .inl ⟨hsource, hid.symm⟩
      · next hsource => exact .inr ⟨hat.resolve_left hsource, hid.symm⟩
    · cases hsome
  · rintro ⟨d, hd, edge, hedge, hjoins, rfl⟩
    have hget := (docById_get? hindex hids).mpr ⟨d, hd, rfl, rfl⟩
    have hother : (if edge.source = c.metadata.id then edge.target else edge.source) = d.metadata.id := by
      unfold Joins at hjoins
      split <;> grind
    have hat : edge.source = c.metadata.id ∨ edge.target = c.metadata.id := hjoins.imp And.left And.left
    refine ⟨⟨d.relativePath, s!"graph relation: {edge.relation}", edge.relation⟩, ?_, rfl⟩
    refine List.mem_filterMap.mpr ⟨edge, hedge, ?_⟩
    rw [if_pos hat, hother, hget]
    rfl

theorem mem_mentionItems {path : String} {key : String × String} :
    (∃ item ∈ mentionItems lower index.documents path, item.key = key) ↔
      ∃ d ∈ index.documents, mentions lower path d = true ∧ key = (d.relativePath, "text") := by
  constructor
  · rintro ⟨item, hitem, rfl⟩
    obtain ⟨d, hd, rfl⟩ := List.mem_map.mp hitem
    obtain ⟨hd, hmentions⟩ := List.mem_filter.mp hd
    exact ⟨d, hd, hmentions, rfl⟩
  · rintro ⟨d, hd, hmentions, rfl⟩
    exact ⟨_, List.mem_map.mpr ⟨d, List.mem_filter.mpr ⟨hd, hmentions⟩, rfl⟩, rfl⟩

/-- What the loop has collected after some changed paths. -/
structure Collected (lower : List Char → List Char) (index : ProjectIndex) (seen : List String)
    (found : Found) : Prop where
  keyedRead : Keyed found.read
  keyedPossible : Keyed found.possible
  read : ∀ key, key ∈ found.read.keys ↔
    ∃ d ∈ index.documents, d.relativePath ∈ seen ∧ key = (d.relativePath, "direct")
  possible : ∀ key, key ∈ found.possible.keys ↔ ∃ path ∈ seen, Touches lower index path key

theorem collected_nil : Collected lower index [] ⟨[], []⟩ where
  keyedRead := keyed_nil
  keyedPossible := keyed_nil
  read := by simp [Dict.keys]
  possible := by simp [Dict.keys]

/-- A document is found under its path. -/
theorem eq_of_path (hindex : Loaded index) {c d : ParsedDocument} (hc : c ∈ index.documents)
    (hd : d ∈ index.documents) (h : c.relativePath = d.relativePath) : c = d :=
  List.inj_on_of_nodup_map hindex.distinct hc hd h

theorem exists_mem_snoc {α : Type} {p : α → Prop} {xs : List α} {x : α} :
    (∃ y ∈ xs ++ [x], p y) ↔ (∃ y ∈ xs, p y) ∨ p x := by
  simp only [List.mem_append, List.mem_singleton, or_and_right, exists_or, exists_eq_left]

theorem Collected.visit (hindex : Loaded index) (hids : (index.documents.map fun d => d.metadata.id).Nodup)
    {seen : List String} {found : Found} (h : Collected lower index seen found) (path : String) :
    Collected lower index (seen ++ [path]) (visit lower index found path) := by
  unfold Impact.visit
  cases hget : (pathToId index.registry).get? path with
  | none =>
      have hnone : ∀ d ∈ index.documents, d.relativePath ≠ path := by
        intro d hd hpath
        rw [(pathToId_get? hindex).mpr ⟨d, hd, hpath, rfl⟩] at hget
        cases hget
      refine ⟨h.keyedRead, h.keyedPossible.assign _, fun key => ?_, fun key => ?_⟩
      · rw [h.read key]
        grind
      · have htouches : Touches lower index path key ↔
            ∃ d ∈ index.documents, mentions lower path d = true ∧ key = (d.relativePath, "text") :=
          or_iff_right fun ⟨d, hd, hpath, _⟩ => hnone d hd hpath
        rw [mem_keys_assign, h.possible key, mem_mentionItems, exists_mem_snoc, htouches]
  | some id =>
      obtain ⟨c, hc, rfl, rfl⟩ := (pathToId_get? hindex).mp hget
      have hentry := (docById_get? hindex hids).mpr ⟨c, hc, rfl, rfl⟩
      have hself : ∀ d ∈ index.documents, d.relativePath = c.relativePath → d = c :=
        fun d hd hpath => eq_of_path hindex hd hc hpath
      simp only [if_neg c.metadata.id_ne, hentry, Option.toList_some, List.map_singleton]
      refine ⟨h.keyedRead.assign _, (h.keyedPossible.assign _).assign _, fun key => ?_, fun key => ?_⟩
      · rw [mem_keys_assign, h.read key]
        simp only [List.mem_singleton, exists_eq_left, ImpactItem.key, entryOf, List.mem_append]
        grind
      · have htouches : Touches lower index c.relativePath key ↔
            (∃ d ∈ index.documents, ∃ edge ∈ index.graph.edges,
              Joins edge c d ∧ key = (d.relativePath, edge.relation)) ∨
              ∃ d ∈ index.documents, mentions lower c.relativePath d = true ∧ key = (d.relativePath, "text") := by
          refine or_congr_left ⟨?_, fun hjoins => ⟨c, hc, rfl, hjoins⟩⟩
          rintro ⟨c', hc', hpath, hjoins⟩
          rwa [hself c' hc' hpath] at hjoins
        rw [mem_keys_assign, mem_keys_assign, h.possible key, mem_mentionItems, mem_neighborItems hindex hids c,
          exists_mem_snoc, htouches, or_assoc]

theorem collected (hindex : Loaded index) (hids : (index.documents.map fun d => d.metadata.id).Nodup)
    (changed : List String) : Collected lower index changed (changed.foldl (visit lower index) ⟨[], []⟩) := by
  induction changed using List.reverseRecOn with
  | nil => exact collected_nil
  | append_singleton changed path ih =>
      rw [List.foldl_append]
      exact ih.visit hindex hids path

/-- No relation is called `direct`, so no key of what is to be read is taken out. -/
theorem Collected.popRead (hindex : Loaded index) {changed : List String} {found : Found}
    (h : Collected lower index changed found) : found.popRead = found.possible := by
  refine foldl_pop fun key hread hpossible => ?_
  obtain ⟨_, _, _, rfl⟩ := (h.read key).mp hread
  obtain ⟨path, _, htouches⟩ := (h.possible _).mp hpossible
  rcases htouches with ⟨_, _, _, _, _, edge, hedge, _, heq⟩ | ⟨_, _, _, heq⟩
  · obtain ⟨_, _, _, hkind⟩ := (hindex.graph edge).mp hedge
    have hdirect : edge.relation = "direct" := (congrArg Prod.snd heq).symm
    rw [hdirect] at hkind
    simp at hkind
  · simp at heq

end Collect

/-! ## What a report is for -/

/-- What the report on some changed paths is to hold. -/
structure Complete (index : ProjectIndex) (paths : List String) (report : ImpactReport) : Prop where
  read : ∀ d ∈ index.documents, d.relativePath ∈ paths →
    (report.read.map ImpactItem.path).count d.relativePath = 1
  joined : ∀ c ∈ index.documents, c.relativePath ∈ paths → ∀ d ∈ index.documents, d.relativePath ∉ paths →
    ∀ edge ∈ index.graph.edges, Joins edge c d →
      ∃ item ∈ report.possibleUpdates, item.path = d.relativePath ∧ item.relation = edge.relation
  mentioned : ∀ path ∈ paths, ∀ d ∈ index.documents, d.relativePath ∉ paths →
    path.toList <:+: d.body.toList →
      ∃ item ∈ report.possibleUpdates, item.path = d.relativePath ∧ item.relation = "text"
  once : (report.possibleUpdates.map ImpactItem.key).Nodup
  apart : ∀ item ∈ report.read, ∀ other ∈ report.possibleUpdates, item.path ≠ other.path

/-- No changed document names a changed document as related or as an invariant, and none mentions a changed
path, not even by its stem. -/
structure Unentangled (lower : List Char → List Char) (documents : List ParsedDocument) (paths : List String) :
    Prop where
  unrelated : ∀ c ∈ documents, c.relativePath ∈ paths → ∀ d ∈ documents, d.relativePath ∈ paths →
    d.metadata.id ∉ c.metadata.related ∧ d.metadata.id ∉ c.metadata.invariants
  unmentioned : ∀ d ∈ documents, d.relativePath ∈ paths → ∀ path ∈ paths, mentions lower path d = false

theorem mem_changedPaths {changedFiles paths : List String} (h : paths ≠ []) {path : String} :
    path ∈ changedPaths changedFiles (some paths) ↔ path ∈ paths := by
  cases paths with
  | nil => exact absurd rfl h
  | cons p ps =>
      show path ∈ (p :: ps).dedup.mergeSort _ ↔ path ∈ p :: ps
      rw [(List.mergeSort_perm _ _).mem_iff, List.mem_dedup]

section Report

variable {lower : List Char → List Char} {index : ProjectIndex} {paths changed : List String} {found : Found}
  {report : ImpactReport}

/-- A changed document touches a changed document exactly when the documents are entangled. -/
theorem unentangled_iff (hindex : Loaded index) (hids : (index.documents.map fun d => d.metadata.id).Nodup) :
    Unentangled lower index.documents paths ↔
    ∀ d ∈ index.documents, d.relativePath ∈ paths → ∀ path ∈ paths, ∀ relation,
      ¬ Touches lower index path (d.relativePath, relation) := by
  constructor
  · intro h d hd hdpath path hpath relation htouches
    rcases htouches with ⟨c, hc, rfl, d', hd', edge, hedge, hjoins, heq⟩ | ⟨d', hd', hmentions, heq⟩
    · have hsame : d' = d := eq_of_path hindex hd' hd (congrArg Prod.fst heq).symm
      subst hsame
      obtain ⟨s, hs, hsource, hkind⟩ := (hindex.graph edge).mp hedge
      rcases hjoins with ⟨hfrom, hto⟩ | ⟨hto, hfrom⟩
      · have hsc : s = c := List.inj_on_of_nodup_map hids hs hc (hsource.symm.trans hfrom)
        obtain ⟨hrelated, hinvariant⟩ := h.unrelated c hc hpath d' hd hdpath
        rw [hsc, hto] at hkind
        exact hkind.elim (fun hkind => hrelated hkind.2) fun hkind => hinvariant hkind.2
      · have hsd : s = d' := List.inj_on_of_nodup_map hids hs hd (hsource.symm.trans hfrom)
        obtain ⟨hrelated, hinvariant⟩ := h.unrelated d' hd hdpath c hc hpath
        rw [hsd, hto] at hkind
        exact hkind.elim (fun hkind => hrelated hkind.2) fun hkind => hinvariant hkind.2
    · have hsame : d' = d := eq_of_path hindex hd' hd (congrArg Prod.fst heq).symm
      rw [hsame, h.unmentioned d hd hdpath path hpath] at hmentions
      cases hmentions
  · intro h
    constructor
    · intro c hc hcpath d hd hdpath
      constructor
      · intro hrelated
        refine h d hd hdpath c.relativePath hcpath "related_to" (.inl ⟨c, hc, rfl, d, hd, ?_⟩)
        exact ⟨⟨c.metadata.id, "related_to", d.metadata.id⟩,
          (hindex.graph _).mpr ⟨c, hc, rfl, .inl ⟨rfl, hrelated⟩⟩, .inl ⟨rfl, rfl⟩, rfl⟩
      · intro hinvariant
        refine h d hd hdpath c.relativePath hcpath "governed_by" (.inl ⟨c, hc, rfl, d, hd, ?_⟩)
        exact ⟨⟨c.metadata.id, "governed_by", d.metadata.id⟩,
          (hindex.graph _).mpr ⟨c, hc, rfl, .inr ⟨rfl, hinvariant⟩⟩, .inl ⟨rfl, rfl⟩, rfl⟩
    · intro d hd hdpath path hpath
      by_contra hmentions
      exact h d hd hdpath path hpath "text" (.inr ⟨d, hd, by simpa using hmentions, rfl⟩)

/-- The report on what was collected. -/
def reportOf (changed : List String) (found : Found) : ImpactReport where
  changed := changed
  risk := riskOf changed
  read := sortedValues found.read
  possibleUpdates := sortedValues found.popRead
  warnings := if changed = [] then ["No changed paths detected."] else []

theorem analyzeImpact_eq {project : Registry.Project} (h : loadProjectIndex project = .ok index)
    (changedFiles : List String) (paths : Option (List String)) :
    analyzeImpact lower project changedFiles paths =
      .ok (reportOf (changedPaths changedFiles paths)
        ((changedPaths changedFiles paths).foldl (visit lower index) ⟨[], []⟩)) := by
  rw [analyzeImpact, h]
  rfl

theorem Collected.readPaths (h : Collected lower index changed found) :
    ((sortedValues found.read).map ImpactItem.path).Perm (found.read.keys.map Prod.fst) := by
  have hperm := (sortedValues_perm h.keyedRead).map Prod.fst
  rwa [List.map_map] at hperm

theorem Collected.readPaths_nodup (h : Collected lower index changed found) :
    ((sortedValues found.read).map ImpactItem.path).Nodup := by
  rw [h.readPaths.nodup_iff]
  refine List.Nodup.map_on (fun key hkey key' hkey' hpath => ?_) h.keyedRead.nodup
  obtain ⟨_, _, _, rfl⟩ := (h.read key).mp hkey
  obtain ⟨_, _, _, rfl⟩ := (h.read key').mp hkey'
  exact Prod.ext hpath rfl

theorem Collected.mem_readPaths (h : Collected lower index changed found) {path : String} :
    path ∈ (sortedValues found.read).map ImpactItem.path ↔
      ∃ d ∈ index.documents, d.relativePath ∈ changed ∧ d.relativePath = path := by
  rw [h.readPaths.mem_iff, List.mem_map]
  constructor
  · rintro ⟨key, hkey, rfl⟩
    obtain ⟨d, hd, hchanged, rfl⟩ := (h.read key).mp hkey
    exact ⟨d, hd, hchanged, rfl⟩
  · rintro ⟨d, hd, hchanged, rfl⟩
    exact ⟨_, (h.read _).mpr ⟨d, hd, hchanged, rfl⟩, rfl⟩

/-- All that the report is to hold but for one thing: a document to be read may also be there to be updated. -/
theorem complete_reportOf (hindex : Loaded index) (h : Collected lower index changed found)
    (hchanged : ∀ path, path ∈ changed ↔ path ∈ paths) :
    Complete index paths (reportOf changed found) ↔
      ∀ d ∈ index.documents, d.relativePath ∈ paths → ∀ path ∈ paths, ∀ relation,
        ¬ Touches lower index path (d.relativePath, relation) := by
  have hpossible : ∀ path relation,
      (∃ item ∈ (reportOf changed found).possibleUpdates, item.path = path ∧ item.relation = relation) ↔
        ∃ p ∈ paths, Touches lower index p (path, relation) := by
    intro path relation
    rw [reportOf, h.popRead hindex, mem_sortedValues h.keyedPossible, h.possible]
    simp only [hchanged]
  constructor
  · intro hcomplete d hd hdpath path hpath relation htouches
    obtain ⟨other, hother, hotherPath, _⟩ := (hpossible d.relativePath relation).mpr ⟨path, hpath, htouches⟩
    have hread := h.mem_readPaths.mpr ⟨d, hd, (hchanged _).mpr hdpath, rfl⟩
    obtain ⟨item, hitem, hitemPath⟩ := List.mem_map.mp hread
    exact hcomplete.apart item hitem other hother (hitemPath.trans hotherPath.symm)
  · intro hfree
    refine ⟨fun d hd hdpath => ?_, fun c hc hcpath d hd _ edge hedge hjoins => ?_, fun path hpath d hd _ hin => ?_,
      ?_, fun item hitem other hother hsame => ?_⟩
    · exact List.count_eq_one_of_mem h.readPaths_nodup
        (h.mem_readPaths.mpr ⟨d, hd, (hchanged _).mpr hdpath, rfl⟩)
    · exact (hpossible _ _).mpr ⟨c.relativePath, hcpath, .inl ⟨c, hc, rfl, d, hd, edge, hedge, hjoins, rfl⟩⟩
    · refine (hpossible _ _).mpr ⟨path, hpath, .inr ⟨d, hd, ?_, rfl⟩⟩
      rw [mentions, Bool.or_eq_true]
      exact .inl (decide_eq_true hin)
    · rw [reportOf, h.popRead hindex, (sortedValues_perm h.keyedPossible).nodup_iff]
      exact h.keyedPossible.nodup
    · obtain ⟨d, hd, hdchanged, hdpath⟩ := h.mem_readPaths.mp (List.mem_map_of_mem hitem)
      obtain ⟨p, hp, htouches⟩ := (hpossible other.path other.relation).mp ⟨other, hother, rfl, rfl⟩
      rw [← hsame, ← hdpath] at htouches
      exact hfree d hd ((hchanged _).mp hdchanged) p hp other.relation htouches

/-- For every project whose ids are distinct and all changed paths there is a report, and it holds what it is to
hold exactly when the changed documents are not entangled. -/
theorem analyzeImpact_complete_iff {project : Registry.Project} (h : loadProjectIndex project = .ok index)
    (hids : (index.documents.map fun d => d.metadata.id).Nodup) (hpaths : paths ≠ [])
    (lower : List Char → List Char) (changedFiles : List String) :
    ∃ report, analyzeImpact lower project changedFiles (some paths) = .ok report ∧
      (Complete index paths report ↔ Unentangled lower index.documents paths) := by
  refine ⟨_, analyzeImpact_eq h changedFiles (some paths), ?_⟩
  rw [complete_reportOf (loaded h) (collected (loaded h) hids _) (fun _ => mem_changedPaths hpaths),
    unentangled_iff (loaded h) hids]

end Report

/-! ### A document that names its subject

`docs/architecture.md` changes, and its text speaks of the architecture. -/

def architecture : ParsedDocument where
  relativePath := "docs/architecture.md"
  metadata := {
    id := "DOC-ARCH"
    title := "Architecture"
    section_ := some "docs"
    estimatedTokens := none
    id_ne := by decide }
  body := "The context engine selects the architecture contract."

def architectureProject : Registry.Project where
  manifest := .ok {}
  documents := .ok [architecture]
  distinct := by
    intro ds h
    cases h
    exact List.nodup_singleton _

def architectureIndex : ProjectIndex where
  manifest := {}
  documents := [architecture]
  registry := [entryOf architecture]
  graph := { nodes := [documentNode architecture], edges := [] }

theorem loadProjectIndex_architecture : loadProjectIndex architectureProject = .ok architectureIndex := by
  have hgraph : buildGraph [architecture] = .ok { nodes := [documentNode architecture], edges := [] } := by
    show Except.ok _ = Except.ok _
    simp [uniqueEdges, Dict.ofItems, Dict.values]
  have hregistry : buildRegistry [architecture] = [entryOf architecture] := by
    rw [buildRegistry, List.map_singleton, List.mergeSort_singleton]
  have hload : loadProjectIndex architectureProject = (do
      let graph ← buildGraph [architecture]
      return ⟨{}, [architecture], buildRegistry [architecture], graph⟩) := rfl
  rw [hload, hgraph, hregistry]
  rfl

theorem mentions_architecture :
    mentions (List.map Char.toLower) "docs/architecture.md" architecture = true := by decide +kernel

theorem analyzeImpact_complete_iff_architecture :
    ∃ report,
      analyzeImpact (List.map Char.toLower) architectureProject [] (some ["docs/architecture.md"]) = .ok report ∧
      (Complete architectureIndex ["docs/architecture.md"] report ↔
        Unentangled (List.map Char.toLower) architectureIndex.documents ["docs/architecture.md"]) :=
  analyzeImpact_complete_iff loadProjectIndex_architecture (by decide) (by decide) _ []

/-- The document is to be read, and it is also one that may need an update. -/
theorem architecture_not_complete :
    ∃ report,
      analyzeImpact (List.map Char.toLower) architectureProject [] (some ["docs/architecture.md"]) = .ok report ∧
      ¬ Complete architectureIndex ["docs/architecture.md"] report := by
  have hindex := loaded loadProjectIndex_architecture
  refine ⟨_, analyzeImpact_eq loadProjectIndex_architecture [] _, fun hcomplete => ?_⟩
  have hfree := (complete_reportOf hindex (collected hindex (by decide) _)
    fun _ => mem_changedPaths (by decide)).mp hcomplete
  have hmem : architecture ∈ architectureIndex.documents := List.mem_singleton_self architecture
  refine hfree architecture hmem ?_ "docs/architecture.md" ?_ "text"
    (.inr ⟨architecture, hmem, mentions_architecture, rfl⟩)
  · exact List.mem_singleton_self _
  · exact List.mem_singleton_self _

end AtlasFlow.Reference.Impact
