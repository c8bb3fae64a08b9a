import AtlasFlow.Data.Attempts
import AtlasFlow.Data.Dict
import AtlasFlow.Reference.Documents

/-!
# The index of a project

`evolution/registry.py`: the registry and the graph of the documents of a project. What the manifest and the
documents of a project are is a matter of `evolution/documents.py`; here they are given.
-/

namespace AtlasFlow.Reference.Registry

open Attempts
open Documents (SiteError Visibility)

inductive DocumentStatus where
  | draft
  | active
  | reviewNeeded
  | deprecated
  | archived
  deriving DecidableEq, Repr

inductive Authority where
  | canonical
  | derived
  | informative
  deriving DecidableEq, Repr

/-- What the index reads of `DocumentMetadata` over what a site shows. An id has at least one character. -/
structure DocumentMetadata extends Documents.DocumentMetadata where
  status : DocumentStatus := .active
  authority : Authority := .canonical
  category : Option String := none
  related : List String := []
  invariants : List String := []
  id_ne : id ≠ ""
  deriving DecidableEq, Repr

structure ParsedDocument where
  relativePath : String
  metadata : DocumentMetadata
  body : String
  deriving DecidableEq, Repr

/-- `ProjectContextConfig.default_budget`. -/
inductive BudgetName where
  | small
  | medium
  | large
  deriving DecidableEq, Repr

structure ProjectManifest where
  defaultBudget : BudgetName := .medium
  deriving DecidableEq, Repr

/-- A project as `load_manifest` and `discover_documents` find it. A file is found once. -/
structure Project where
  manifest : Except SiteError ProjectManifest
  documents : Except SiteError (List ParsedDocument)
  distinct : ∀ ds, documents = .ok ds → (ds.map ParsedDocument.relativePath).Nodup

structure RegistryEntry where
  id : String
  path : String
  title : String
  section_ : String
  category : Option String
  visibility : Visibility
  authority : Authority
  status : DocumentStatus
  estimatedTokens : Nat
  tags : List String
  deriving DecidableEq, Repr

structure GraphNode where
  id : String
  type : String
  path : Option String := none
  title : Option String := none
  visibility : Option Visibility := none
  deriving DecidableEq, Repr

structure GraphEdge where
  source : String
  relation : String
  target : String
  deriving DecidableEq, Repr

structure KnowledgeGraph where
  nodes : List GraphNode
  edges : List GraphEdge
  deriving DecidableEq, Repr

/-! ## The registry -/

/-- The entry of one document. -/
def entryOf (document : ParsedDocument) : RegistryEntry where
  id := document.metadata.id
  path := document.relativePath
  title := document.metadata.title
  section_ := match document.metadata.section_ with
    | none | some "" => "root"
    | some name => name
  category := document.metadata.category
  visibility := document.metadata.visibility
  authority := document.metadata.authority
  status := document.metadata.status
  estimatedTokens := document.metadata.estimatedTokens.getD 0
  tags := document.metadata.tags

def buildRegistry (documents : List ParsedDocument) : List RegistryEntry :=
  (documents.map entryOf).mergeSort fun a b => decide ([a.path, a.id] ≤ [b.path, b.id])

theorem mem_buildRegistry {documents : List ParsedDocument} {entry : RegistryEntry} :
    entry ∈ buildRegistry documents ↔ ∃ d ∈ documents, entryOf d = entry := by
  rw [buildRegistry, (List.mergeSort_perm _ _).mem_iff, List.mem_map]

/-- A dictionary of the registry has the keys that the documents have. -/
theorem map_buildRegistry_perm {α : Type} (f : RegistryEntry → α) (documents : List ParsedDocument) :
    ((buildRegistry documents).map f).Perm (documents.map fun d => f (entryOf d)) := by
  have hperm := (List.mergeSort_perm (documents.map entryOf)
    fun a b => decide ([a.path, a.id] ≤ [b.path, b.id])).map f
  rw [List.map_map] at hperm
  exact hperm

/-! ## The graph -/

/-- `GraphEdge(...)`: pydantic wants a character in each text. -/
def graphEdge (source relation target : String) : Except SiteError GraphEdge :=
  if source = "" then .error (.validationError "source: String should have at least 1 character")
  else if relation = "" then .error (.validationError "relation: String should have at least 1 character")
  else if target = "" then .error (.validationError "target: String should have at least 1 character")
  else .ok ⟨source, relation, target⟩

/-- The edges of one document. -/
def edgesOf (metadata : DocumentMetadata) : Except SiteError (List GraphEdge) := do
  let related ← metadata.related.mapM (graphEdge metadata.id "related_to")
  let governed ← metadata.invariants.mapM (graphEdge metadata.id "governed_by")
  return related ++ governed

def documentNode (document : ParsedDocument) : GraphNode where
  id := document.metadata.id
  type := "document"
  path := some document.relativePath
  title := some document.metadata.title
  visibility := some document.metadata.visibility

/-- Edges that are one text in JSON are one edge. -/
def uniqueEdges (edges : List GraphEdge) : List GraphEdge :=
  (Dict.ofItems (edges.map fun edge => (edge, edge))).values.mergeSort fun a b =>
    decide ([a.source, a.relation, a.target] ≤ [b.source, b.relation, b.target])

def buildGraph (documents : List ParsedDocument) : Except SiteError KnowledgeGraph := do
  let nodes := documents.map documentNode
  let knownIds := nodes.map GraphNode.id
  let edges ← documents.mapM fun document => edgesOf document.metadata
  let edges := uniqueEdges edges.flatten
  let dangling := ((edges.map GraphEdge.target).filter (· ∉ knownIds)).dedup.mergeSort fun a b => decide (a ≤ b)
  let nodes := nodes ++ dangling.map fun target => { id := target, type := "reference" }
  return { nodes := nodes.mergeSort fun a b => decide (a.id ≤ b.id), edges }

/-! ## The index -/

/-- What `load_project_index` returns. -/
structure ProjectIndex where
  manifest : ProjectManifest
  documents : List ParsedDocument
  registry : List RegistryEntry
  graph : KnowledgeGraph

def loadProjectIndex (project : Project) : Except SiteError ProjectIndex := do
  let manifest ← project.manifest
  let documents ← project.documents
  let registry := buildRegistry documents
  let graph ← buildGraph documents
  return { manifest, documents, registry, graph }

/-! ## What the index holds -/

theorem graphEdge_ok {source relation target : String} {edge : GraphEdge}
    (h : graphEdge source relation target = .ok edge) : edge = ⟨source, relation, target⟩ := by
  unfold graphEdge at h
  split_ifs at h
  cases h
  rfl

/-- The edges to the targets that one list of the metadata names. -/
theorem mem_targets {source relation : String} {targets : List String} {edges : List GraphEdge}
    (h : targets.mapM (graphEdge source relation) = .ok edges) {edge : GraphEdge} :
    edge ∈ edges ↔ edge.source = source ∧ edge.relation = relation ∧ edge.target ∈ targets := by
  obtain ⟨hto, hfrom⟩ := mem_of_mapM_ok h
  constructor
  · intro hedge
    obtain ⟨target, htarget, hok⟩ := hfrom edge hedge
    rw [graphEdge_ok hok]
    exact ⟨rfl, rfl, htarget⟩
  · rintro ⟨rfl, rfl, htarget⟩
    obtain ⟨edge', hedge', hok⟩ := hto edge.target htarget
    rwa [graphEdge_ok hok] at hedge'

/-- `edge` comes from the metadata of a document. -/
def Declares (metadata : DocumentMetadata) (edge : GraphEdge) : Prop :=
  edge.source = metadata.id ∧
    (edge.relation = "related_to" ∧ edge.target ∈ metadata.related ∨
      edge.relation = "governed_by" ∧ edge.target ∈ metadata.invariants)

theorem mem_edgesOf {metadata : DocumentMetadata} {edges : List GraphEdge} (h : edgesOf metadata = .ok edges)
    {edge : GraphEdge} : edge ∈ edges ↔ Declares metadata edge := by
  obtain ⟨related, hrelated, h⟩ := of_bind_ok h
  obtain ⟨governed, hgoverned, h⟩ := of_bind_ok h
  cases h
  rw [List.mem_append, mem_targets hrelated, mem_targets hgoverned, Declares, ← and_or_left]

theorem mem_uniqueEdges {edges : List GraphEdge} {edge : GraphEdge} : edge ∈ uniqueEdges edges ↔ edge ∈ edges := by
  rw [uniqueEdges, (List.mergeSort_perm _ _).mem_iff, Dict.values, List.mem_map]
  constructor
  · rintro ⟨item, hitem, rfl⟩
    have hget := Dict.get?_of_mem (Dict.keys_ofItems_nodup _) (k := item.1) (v := item.2) hitem
    obtain ⟨edge', hedge', heq⟩ := List.mem_map.mp (Dict.mem_of_get?_ofItems hget)
    rwa [← congrArg Prod.snd heq]
  · intro hedge
    have hkey : edge ∈ (Dict.ofItems (edges.map fun edge => (edge, edge))).keys := by
      rw [Dict.mem_keys_ofItems, List.map_map]
      exact List.mem_map.mpr ⟨edge, hedge, rfl⟩
    obtain ⟨v, hv⟩ := Dict.mem_keys.mp hkey
    have hget := Dict.get?_of_mem (Dict.keys_ofItems_nodup _) hv
    obtain ⟨edge', _, heq⟩ := List.mem_map.mp (Dict.mem_of_get?_ofItems hget)
    cases heq
    exact ⟨_, hv, rfl⟩

theorem mem_buildGraph {documents : List ParsedDocument} {graph : KnowledgeGraph}
    (h : buildGraph documents = .ok graph) {edge : GraphEdge} :
    edge ∈ graph.edges ↔ ∃ d ∈ documents, Declares d.metadata edge := by
  obtain ⟨edges, hedges, h⟩ := of_bind_ok h
  cases h
  obtain ⟨hto, hfrom⟩ := mem_of_mapM_ok hedges
  rw [mem_uniqueEdges, List.mem_flatten]
  constructor
  · rintro ⟨own, hown, hedge⟩
    obtain ⟨d, hd, hok⟩ := hfrom own hown
    exact ⟨d, hd, (mem_edgesOf hok).mp hedge⟩
  · rintro ⟨d, hd, hdeclares⟩
    obtain ⟨own, hown, hok⟩ := hto d hd
    exact ⟨own, hown, (mem_edgesOf hok).mpr hdeclares⟩

/-- What is in an index that was loaded. -/
structure Loaded (index : ProjectIndex) : Prop where
  registry : index.registry = buildRegistry index.documents
  graph : ∀ edge, edge ∈ index.graph.edges ↔ ∃ d ∈ index.documents, Declares d.metadata edge
  distinct : (index.documents.map ParsedDocument.relativePath).Nodup

theorem loaded {project : Project} {index : ProjectIndex} (h : loadProjectIndex project = .ok index) :
    Loaded index := by
  obtain ⟨manifest, _, h⟩ := of_bind_ok h
  obtain ⟨documents, hdocuments, h⟩ := of_bind_ok h
  obtain ⟨graph, hgraph, h⟩ := of_bind_ok h
  cases h
  exact ⟨rfl, fun _ => mem_buildGraph hgraph, project.distinct documents hdocuments⟩

/-! ## Looking up -/

/-- Entries by their id and by their path. -/
def registryLookup (registry : List RegistryEntry) : Dict String RegistryEntry :=
  registry.foldl (fun lookup entry => (lookup.set entry.id entry).set entry.path entry) []

theorem registryLookup_eq (registry : List RegistryEntry) :
    registryLookup registry = Dict.ofItems (registry.flatMap fun entry => [(entry.id, entry), (entry.path, entry)]) := by
  rw [Dict.ofItems, List.foldl_flatMap]
  rfl

theorem of_registryLookup {registry : List RegistryEntry} {reference : String} {entry : RegistryEntry}
    (h : (registryLookup registry).get? reference = some entry) : entry ∈ registry := by
  rw [registryLookup_eq] at h
  obtain ⟨entry', hentry', hitem⟩ := List.mem_flatMap.mp (Dict.mem_of_get?_ofItems h)
  simp only [List.mem_cons, Prod.mk.injEq, List.not_mem_nil, or_false] at hitem
  rcases hitem with ⟨_, rfl⟩ | ⟨_, rfl⟩
  · exact hentry'
  · exact hentry'

/-- An id of the registry is found. -/
theorem registryLookup_id {registry : List RegistryEntry} {entry : RegistryEntry} (h : entry ∈ registry) :
    (registryLookup registry).get? entry.id ≠ none := by
  intro hnone
  rw [registryLookup_eq, Dict.get?_eq_none, Dict.mem_keys_ofItems] at hnone
  apply hnone
  rw [List.mem_map]
  exact ⟨(entry.id, entry), List.mem_flatMap.mpr ⟨entry, h, List.mem_cons_self⟩, rfl⟩

end AtlasFlow.Reference.Registry
