import AtlasFlow.Reference.Context

/-!
# What a context plan holds

A plan is to have each document once, to leave out what the context pack excludes, to keep what is required and
to stay in its budget. `plan_context` tells items apart by their id, so a document is there once for each id it
comes under, a second document of an id is not kept, and nothing looks at what is excluded but to write it down.
What it reads is first gathered in `Sources`; the rest of it only picks items from these.
-/

namespace AtlasFlow.Reference.Context

open Attempts
open GoalFile (strip)
open Registry

/-! ## The two halves of `plan_context` -/

/-- What a plan is picked from. -/
structure Sources where
  index : ProjectIndex
  taskMap : Option TaskMap
  pack : Option ContextPack
  contracts : List ContextItem
  required : List ContextItem
  optional : List ContextItem
  budget : ContextBudget

def sources (lib : Library) (project : ContextProject) (intent : String) (budget : Option (String ⊕ Int)) :
    Except ContextError Sources := do
  let index ← (loadProjectIndex project.toProject).mapError .site
  let taskMap := findTaskMap lib project.taskMaps intent
  let pack := findPack lib project.contextPacks intent
  let lookup := registryLookup index.registry
  let contracts ← contractItems project
  let required ← referenceItems lookup (documentsByPath index.documents) true (requiredReferences taskMap pack)
  let optional ← referenceItems lookup (documentsByPath index.documents) false (optionalReferences taskMap pack)
  let budget ← planBudget lib budget pack index.manifest.defaultBudget
  return { index, taskMap, pack, contracts, required, optional, budget }

namespace Sources

def lookup (s : Sources) : Dict String RegistryEntry := registryLookup s.index.registry

/-- All the items that are to be required, those that come twice among them. -/
def wanted (s : Sources) : List ContextItem := s.contracts ++ s.required

def selectedRequired (s : Sources) : List ContextItem :=
  Pick.addAll ContextItem.id (Pick.addAll ContextItem.id [] s.contracts) s.required

/-- The documents in which the words of the intent occur, but those whose id is required. -/
def lexical (s : Sources) (lib : Library) (intent : String) : List ContextItem :=
  (lexicalItems lib s.index.documents intent).filter fun candidate =>
    candidate.id ∉ s.selectedRequired.map ContextItem.id

/-- The optional items, one for each id, before the budget cuts them off. -/
def candidates (s : Sources) (lib : Library) (intent : String) : List ContextItem :=
  Pick.addAll ContextItem.id (Pick.addAll ContextItem.id [] s.optional) (s.lexical lib intent)

def requiredTokens (s : Sources) : Nat := (s.selectedRequired.map ContextItem.estimatedTokens).sum

/-- The optional items that fit, and the tokens of the plan. -/
def selection (s : Sources) (lib : Library) (intent : String) : List ContextItem × Nat :=
  Pick.fill ContextItem.estimatedTokens s.budget.targetTokens s.requiredTokens (s.candidates lib intent)

def plan (s : Sources) (lib : Library) (intent profile : String) : ContextPlan :=
  let optional := (s.selection lib intent).1
  let selected := s.selectedRequired ++ optional
  { id := planId lib intent profile s.budget.name selected
    intent
    profile
    risk := (s.taskMap.map TaskMap.risk).getD .low
    budget := s.budget
    estimatedTokens := (s.selection lib intent).2
    required := s.selectedRequired
    optional
    excluded := excludedOf s.taskMap s.pack
    levels := levelsOf s.taskMap s.selectedRequired optional
    stopCondition := stopCondition s.requiredTokens s.budget.maxTokens
    explanations := Dict.ofItems (selected.map fun item => (item.id, item.reason)) }

end Sources

theorem planContext_eq (lib : Library) (project : ContextProject) (intent : String) (budget : Option (String ⊕ Int))
    (profile : String) :
    planContext lib project intent budget profile =
      if strip intent.toList = [] then .error (.valueError "context intent must not be empty")
      else (sources lib project intent budget).map fun s => s.plan lib intent profile := by
  unfold planContext
  by_cases hblank : strip intent.toList = []
  · rw [if_pos hblank, if_pos hblank]
    rfl
  · rw [if_neg hblank, if_neg hblank]
    unfold sources
    cases (loadProjectIndex project.toProject).mapError ContextError.site with
    | error e => rfl
    | ok index =>
    cases contractItems project with
    | error e => rfl
    | ok contracts =>
    cases hrequired : referenceItems (registryLookup index.registry) (documentsByPath index.documents) true
        (requiredReferences (findTaskMap lib project.taskMaps intent)
          (findPack lib project.contextPacks intent)) with
    | error e => simp only [hrequired, bind, Except.bind, Except.map]
    | ok required =>
    cases hoptional : referenceItems (registryLookup index.registry) (documentsByPath index.documents) false
        (optionalReferences (findTaskMap lib project.taskMaps intent)
          (findPack lib project.contextPacks intent)) with
    | error e => simp only [hrequired, hoptional, bind, Except.bind, Except.map]
    | ok optional =>
    cases hbudget : planBudget lib budget (findPack lib project.contextPacks intent)
        index.manifest.defaultBudget with
    | error e => simp only [hrequired, hoptional, hbudget, bind, Except.bind, Except.map]
    | ok budget =>
      simp only [hrequired, hoptional, hbudget, bind, Except.bind, Except.map]
      rfl

/-! ## What is read -/

theorem of_mapError_ok {α : Type} {x : Except Documents.SiteError α} {a : α}
    (h : x.mapError ContextError.site = .ok a) : x = .ok a := by
  cases x with
  | error e => cases h
  | ok a' =>
      cases h
      rfl

/-- A contract is under its path, and neither is there twice. -/
structure AreContracts (items : List ContextItem) : Prop where
  path : ∀ x ∈ items, x.path = some x.id
  nodup : (items.map ContextItem.id).Nodup

theorem of_readContract {project : ContextProject} {contract : String × String} {item : Option ContextItem}
    (h : readContract project contract = .ok item) : ∀ x ∈ item, x.id = contract.1 ∧ x.path = some contract.1 := by
  intro x hx
  unfold readContract at h
  split at h
  · cases h
    cases hx
  · obtain ⟨text, _, h⟩ := of_bind_ok h
    cases h
    cases hx
    exact ⟨rfl, rfl⟩

theorem areContracts {project : ContextProject} {items : List ContextItem} (h : contractItems project = .ok items) :
    AreContracts items := by
  obtain ⟨found, hfound, h⟩ := of_bind_ok h
  cases h
  rw [contracts, List.mapM_cons] at hfound
  obtain ⟨agents, hagents, hfound⟩ := of_bind_ok hfound
  rw [List.mapM_cons] at hfound
  obtain ⟨rest, hrest, hfound⟩ := of_bind_ok hfound
  obtain ⟨atlas, hatlas, hrest⟩ := of_bind_ok hrest
  cases hrest
  cases hfound
  have hagents := of_readContract hagents
  have hatlas := of_readContract hatlas
  cases agents <;> cases atlas <;> constructor <;> simp_all [List.reduceOption]

theorem get?_documentsByPath {documents : List ParsedDocument}
    (h : (documents.map ParsedDocument.relativePath).Nodup) {document : ParsedDocument} (hmem : document ∈ documents) :
    (documentsByPath documents).get? document.relativePath = some document := by
  rw [documentsByPath, Dict.get?_ofItems]
  · rwa [List.map_map]
  · exact List.mem_map.mpr ⟨document, hmem, rfl⟩

/-- The item of a reference: of the entry it resolves to, or of no document. -/
structure IsItemOf (lookup : Dict String RegistryEntry) (reference : String) (item : ContextItem) : Prop where
  resolved : ∀ entry, resolveReference reference lookup = some entry → item.id = entry.id ∧ item.path = some entry.path
  unresolved : resolveReference reference lookup = none → item.id = reference ∧ item.path = none

theorem isItemOf {lookup : Dict String RegistryEntry} {documents : Dict String ParsedDocument}
    {reference reason : String} {required : Bool} {item : ContextItem}
    (h : itemForReference lookup documents reference reason required = .ok item) : IsItemOf lookup reference item := by
  unfold itemForReference at h
  cases hresolve : resolveReference reference lookup with
  | none =>
      rw [hresolve] at h
      cases h
      constructor
      · intro entry hentry
        rw [hresolve] at hentry
        cases hentry
      · intro _
        exact ⟨rfl, rfl⟩
  | some entry =>
      rw [hresolve] at h
      cases hdocument : documents.get? entry.path with
      | none =>
          simp only [hdocument] at h
          cases h
      | some document =>
          simp only [hdocument] at h
          cases h
          constructor
          · intro entry' hentry
            rw [hresolve] at hentry
            cases hentry
            exact ⟨rfl, rfl⟩
          · intro hnone
            rw [hresolve] at hnone
            cases hnone

theorem of_resolveReference {registry : List RegistryEntry} {reference : String} {entry : RegistryEntry}
    (h : resolveReference reference (registryLookup registry) = some entry) : entry ∈ registry := by
  rw [resolveReference, Option.or_eq_some_iff] at h
  rcases h with h | ⟨_, h⟩
  · exact of_registryLookup h
  · exact of_registryLookup h

/-- A reference to an id of the registry is indexed. -/
theorem not_indexed {registry : List RegistryEntry} {entry : RegistryEntry} (hentry : entry ∈ registry)
    (h : resolveReference entry.id (registryLookup registry) = none) : False := by
  rw [resolveReference, Option.or_eq_none_iff] at h
  exact registryLookup_id hentry h.1

/-- In a project that could be loaded, each reference has its item. -/
theorem itemForReference_ok {index : ProjectIndex} (h : Loaded index) (reference reason : String) (required : Bool) :
    ∃ item, itemForReference (registryLookup index.registry) (documentsByPath index.documents) reference reason
      required = .ok item := by
  unfold itemForReference
  cases hresolve : resolveReference reference (registryLookup index.registry) with
  | none => exact ⟨_, rfl⟩
  | some entry =>
      have hentry := of_resolveReference hresolve
      rw [h.registry] at hentry
      obtain ⟨document, hdocument, rfl⟩ := mem_buildRegistry.mp hentry
      have hget : (documentsByPath index.documents).get? (entryOf document).path = some document :=
        get?_documentsByPath h.distinct hdocument
      simp only [hget]
      exact ⟨_, rfl⟩

theorem referenceItems_ok {index : ProjectIndex} (h : Loaded index) (required : Bool)
    (references : List (String × String)) :
    ∃ items, referenceItems (registryLookup index.registry) (documentsByPath index.documents) required references =
      .ok items := by
  apply exists_mapM_ok.mpr
  intro reference _
  exact itemForReference_ok h reference.1 reference.2 required

/-- What was read: the index is that of the project, and the items are those of the contracts and references. -/
structure Sources.Read (s : Sources) : Prop where
  loaded : Loaded s.index
  contracts : AreContracts s.contracts
  required : referenceItems s.lookup (documentsByPath s.index.documents) true
    (requiredReferences s.taskMap s.pack) = .ok s.required
  optional : referenceItems s.lookup (documentsByPath s.index.documents) false
    (optionalReferences s.taskMap s.pack) = .ok s.optional

theorem read_of_sources {lib : Library} {project : ContextProject} {intent : String} {budget : Option (String ⊕ Int)}
    {s : Sources} (h : sources lib project intent budget = .ok s) : s.Read := by
  obtain ⟨index, hindex, h⟩ := of_bind_ok h
  obtain ⟨contracts, hcontracts, h⟩ := of_bind_ok h
  obtain ⟨required, hrequired, h⟩ := of_bind_ok h
  obtain ⟨optional, hoptional, h⟩ := of_bind_ok h
  obtain ⟨budget, _, h⟩ := of_bind_ok h
  cases h
  exact ⟨loaded (of_mapError_ok hindex), areContracts hcontracts, hrequired, hoptional⟩

/-! ## What a plan is to hold, and when it does -/

def ContextPlan.selected (plan : ContextPlan) : List ContextItem := plan.required ++ plan.optional

/-- A text of `exclude` names an item by its id or its path, or as a reference to its document. -/
def Names (lookup : Dict String RegistryEntry) (reference : String) (item : ContextItem) : Prop :=
  item.id = reference ∨ item.path = some reference ∨
    ∃ entry, resolveReference reference lookup = some entry ∧ item.path = some entry.path

/-- The document of a reference is among the items, or the reference itself if it has no document. -/
structure Keeps (lookup : Dict String RegistryEntry) (items : List ContextItem) (reference : String) : Prop where
  resolved : ∀ entry, resolveReference reference lookup = some entry →
    ∃ item ∈ items, item.id = entry.id ∧ item.path = some entry.path
  unresolved : resolveReference reference lookup = none → ∃ item ∈ items, item.id = reference

/-- What the matching pack lists under `exclude`. -/
def Sources.excluded (s : Sources) : List String := s.pack.toList.flatMap ContextPack.exclude

structure WellPlanned (s : Sources) (plan : ContextPlan) : Prop where
  once : (plan.selected.filterMap ContextItem.path).Nodup
  tokens : plan.estimatedTokens = (plan.selected.map ContextItem.estimatedTokens).sum
  allowed : ∀ reference ∈ s.excluded, ∀ item ∈ plan.selected, ¬ Names s.lookup reference item
  kept : ∀ reference ∈ requiredReferences s.taskMap s.pack, Keeps s.lookup plan.required reference.1
  fits : (plan.required.map ContextItem.estimatedTokens).sum ≤ plan.budget.targetTokens →
    plan.estimatedTokens ≤ plan.budget.targetTokens

/-- Nothing that is picked from gets in the way of a plan: among the contracts and the required references a path
and an id belong together and nothing is excluded, and no optional item that fits is one of them or excluded. -/
structure Sources.Clean (s : Sources) (lib : Library) (intent : String) : Prop where
  path_id : ∀ x ∈ s.wanted, ∀ y ∈ s.wanted, ∀ p, x.path = some p → y.path = some p → x.id = y.id
  id_path : ∀ x ∈ s.wanted, ∀ y ∈ s.wanted, ∀ p q, x.path = some p → y.path = some q → x.id = y.id → p = q
  allowed : ∀ reference ∈ s.excluded, ∀ x ∈ s.wanted, ¬ Names s.lookup reference x
  optional : ∀ c, Pick.Fits ContextItem.estimatedTokens s.budget.targetTokens s.requiredTokens
      (s.candidates lib intent) c →
    (∀ x ∈ s.wanted, ∀ p, c.path = some p → x.path ≠ some p) ∧
      ∀ reference ∈ s.excluded, ¬ Names s.lookup reference c

/-! ## The required items -/

namespace Sources

variable {s : Sources}

theorem selectedRequired_nodup : (s.selectedRequired.map ContextItem.id).Nodup := by
  have hnil : (([] : List ContextItem).map ContextItem.id).Nodup := List.nodup_nil
  exact Pick.nodup_addAll (Pick.nodup_addAll hnil _) _

theorem wanted_of_selected {x : ContextItem} (h : x ∈ s.selectedRequired) : x ∈ s.wanted := by
  rw [selectedRequired, ← Pick.addAll_append] at h
  rcases Pick.mem_of_mem_addAll h with h | h
  · cases h
  · exact h

/-- Each id that is wanted is selected. -/
theorem id_selected {x : ContextItem} (h : x ∈ s.wanted) : ∃ y ∈ s.selectedRequired, y.id = x.id := by
  rw [selectedRequired, ← Pick.addAll_append]
  exact Pick.exists_mem_addAll [] h

theorem eq_of_selected {x y : ContextItem} (hx : x ∈ s.selectedRequired) (hy : y ∈ s.selectedRequired)
    (hid : x.id = y.id) : x = y :=
  List.inj_on_of_nodup_map selectedRequired_nodup hx hy hid

theorem Read.contract_selected (h : s.Read) {x : ContextItem} (hx : x ∈ s.contracts) : x ∈ s.selectedRequired := by
  apply (Pick.prefix_addAll _ _).subset
  rwa [Pick.addAll_eq_append h.contracts.nodup]

theorem Read.of_required (h : s.Read) {x : ContextItem} (hx : x ∈ s.required) :
    ∃ reference ∈ requiredReferences s.taskMap s.pack, IsItemOf s.lookup reference.1 x := by
  obtain ⟨reference, hreference, hitem⟩ := (mem_of_mapM_ok h.required).2 x hx
  exact ⟨reference, hreference, isItemOf hitem⟩

theorem Read.item_required (h : s.Read) {reference : String × String}
    (hreference : reference ∈ requiredReferences s.taskMap s.pack) :
    ∃ x ∈ s.required, IsItemOf s.lookup reference.1 x := by
  obtain ⟨x, hx, hitem⟩ := (mem_of_mapM_ok h.required).1 reference hreference
  exact ⟨x, hx, isItemOf hitem⟩

/-- Each wanted item that has a path is selected under it. The first item of its id could have another. -/
def Stands (s : Sources) : Prop :=
  ∀ x ∈ s.wanted, ∀ p, x.path = some p → ∃ y ∈ s.selectedRequired, y.id = x.id ∧ y.path = some p

/-- An item of a document has a path like every other item of its id, unless that is a contract. -/
theorem Read.path_of_id (h : s.Read) {x y : ContextItem} {entry : RegistryEntry} (hentry : entry ∈ s.index.registry)
    (hx : x.id = entry.id) (hy : y ∈ s.wanted) (hid : y.id = x.id) : ∃ p, y.path = some p := by
  rcases List.mem_append.mp hy with hy | hy
  · exact ⟨y.id, h.contracts.path y hy⟩
  · obtain ⟨reference, _, hitem⟩ := h.of_required hy
    cases hresolve : resolveReference reference.1 s.lookup with
    | some entry' => exact ⟨_, (hitem.resolved entry' hresolve).2⟩
    | none =>
        have hreference := (hitem.unresolved hresolve).1
        rw [← hreference, hid, hx] at hresolve
        exact (not_indexed hentry hresolve).elim

theorem Read.stands (h : s.Read)
    (hids : ∀ x ∈ s.wanted, ∀ y ∈ s.wanted, ∀ p q, x.path = some p → y.path = some q → x.id = y.id → p = q) :
    s.Stands := by
  intro x hx p hp
  rcases List.mem_append.mp hx with hcontract | hrequired
  · exact ⟨x, h.contract_selected hcontract, rfl, hp⟩
  obtain ⟨y, hy, hid⟩ := id_selected hx
  obtain ⟨reference, _, hitem⟩ := h.of_required hrequired
  cases hresolve : resolveReference reference.1 s.lookup with
  | none =>
      rw [(hitem.unresolved hresolve).2] at hp
      cases hp
  | some entry =>
      obtain ⟨q, hq⟩ := h.path_of_id (of_resolveReference hresolve) (hitem.resolved entry hresolve).1
        (wanted_of_selected hy) hid
      obtain rfl : p = q := hids x hx y (wanted_of_selected hy) p q hp hq hid.symm
      exact ⟨y, hy, hid, hq⟩

theorem Read.stands_of_keeps (h : s.Read)
    (hkept : ∀ reference ∈ requiredReferences s.taskMap s.pack, Keeps s.lookup s.selectedRequired reference.1) :
    s.Stands := by
  intro x hx p hp
  rcases List.mem_append.mp hx with hcontract | hrequired
  · exact ⟨x, h.contract_selected hcontract, rfl, hp⟩
  obtain ⟨reference, hreference, hitem⟩ := h.of_required hrequired
  cases hresolve : resolveReference reference.1 s.lookup with
  | none =>
      rw [(hitem.unresolved hresolve).2] at hp
      cases hp
  | some entry =>
      obtain ⟨hid, hpath⟩ := hitem.resolved entry hresolve
      obtain ⟨y, hy, hyid, hypath⟩ := (hkept reference hreference).resolved entry hresolve
      rw [hpath] at hp
      exact ⟨y, hy, hyid.trans hid.symm, hypath.trans hp⟩

theorem Read.keeps (h : s.Read) (hstands : s.Stands) {reference : String × String}
    (hreference : reference ∈ requiredReferences s.taskMap s.pack) :
    Keeps s.lookup s.selectedRequired reference.1 := by
  obtain ⟨x, hx, hitem⟩ := h.item_required hreference
  have hwanted : x ∈ s.wanted := List.mem_append_right _ hx
  constructor
  · intro entry hentry
    obtain ⟨hid, hpath⟩ := hitem.resolved entry hentry
    obtain ⟨y, hy, hyid, hypath⟩ := hstands x hwanted entry.path hpath
    exact ⟨y, hy, hyid.trans hid, hypath⟩
  · intro hnone
    obtain ⟨y, hy, hyid⟩ := id_selected hwanted
    exact ⟨y, hy, hyid.trans (hitem.unresolved hnone).1⟩

theorem Stands.id_path (h : s.Stands) {x y : ContextItem} (hx : x ∈ s.wanted) (hy : y ∈ s.wanted) {p q : String}
    (hp : x.path = some p) (hq : y.path = some q) (hid : x.id = y.id) : p = q := by
  obtain ⟨x', hx', hxid, hxpath⟩ := h x hx p hp
  obtain ⟨y', hy', hyid, hypath⟩ := h y hy q hq
  have heq : x' = y' := eq_of_selected hx' hy' (by rw [hxid, hyid, hid])
  rw [heq, hypath] at hxpath
  exact (Option.some.inj hxpath).symm

/-- What is excluded of the wanted items is excluded of the selected ones. -/
theorem Stands.allowed_iff (h : s.Stands) (reference : String) :
    (∀ x ∈ s.selectedRequired, ¬ Names s.lookup reference x) ↔ ∀ x ∈ s.wanted, ¬ Names s.lookup reference x := by
  constructor
  · intro hallowed x hx hnames
    cases hpath : x.path with
    | some p =>
        obtain ⟨y, hy, hyid, hypath⟩ := h x hx p hpath
        apply hallowed y hy
        unfold Names at hnames ⊢
        rwa [hyid, hypath, ← hpath]
    | none =>
        -- only its id can be excluded, and that is selected
        obtain ⟨y, hy, hyid⟩ := id_selected hx
        apply hallowed y hy
        unfold Names at hnames
        rw [hpath] at hnames
        rcases hnames with hname | hname | ⟨entry, _, hname⟩
        · exact .inl (hyid.trans hname)
        · cases hname
        · cases hname
  · intro hallowed x hx
    exact hallowed x (wanted_of_selected hx)

/-- A path is selected once iff it has one id among the wanted items. -/
theorem Stands.once_iff (h : s.Stands) :
    (s.selectedRequired.filterMap ContextItem.path).Nodup ↔
      ∀ x ∈ s.wanted, ∀ y ∈ s.wanted, ∀ p, x.path = some p → y.path = some p → x.id = y.id := by
  rw [Pick.nodup_filterMap_iff selectedRequired_nodup]
  constructor
  · intro hpath x hx y hy p hxp hyp
    obtain ⟨x', hx', hxid, hxpath⟩ := h x hx p hxp
    obtain ⟨y', hy', hyid, hypath⟩ := h y hy p hyp
    rw [← hxid, ← hyid]
    exact hpath x' hx' y' hy' p hxpath hypath
  · intro hpath x hx y hy p hxp hyp
    exact hpath x (wanted_of_selected hx) y (wanted_of_selected hy) p hxp hyp

/-- The paths that are selected are those that are wanted. -/
theorem Stands.path_iff (h : s.Stands) (p : String) :
    (∃ x ∈ s.selectedRequired, x.path = some p) ↔ ∃ x ∈ s.wanted, x.path = some p := by
  constructor
  · rintro ⟨x, hx, hp⟩
    exact ⟨x, wanted_of_selected hx, hp⟩
  · rintro ⟨x, hx, hp⟩
    obtain ⟨y, hy, _, hypath⟩ := h x hx p hp
    exact ⟨y, hy, hypath⟩

/-! ## The optional items -/

variable {lib : Library} {intent : String}

theorem candidates_nodup : ((s.candidates lib intent).map ContextItem.id).Nodup := by
  have hnil : (([] : List ContextItem).map ContextItem.id).Nodup := List.nodup_nil
  exact Pick.nodup_addAll (Pick.nodup_addAll hnil _) _

/-- The path of an optional item is that of a document, and its id is the id of that. -/
theorem Read.document_of_candidate (h : s.Read) {x : ContextItem} (hx : x ∈ s.candidates lib intent) {p : String}
    (hp : x.path = some p) : ∃ d ∈ s.index.documents, d.relativePath = p ∧ d.metadata.id = x.id := by
  rw [candidates, ← Pick.addAll_append] at hx
  rcases Pick.mem_of_mem_addAll hx with hx | hx
  · cases hx
  rcases List.mem_append.mp hx with hx | hx
  · obtain ⟨reference, _, hok⟩ := (mem_of_mapM_ok h.optional).2 x hx
    have hitem := isItemOf hok
    cases hresolve : resolveReference reference.1 s.lookup with
    | none =>
        rw [(hitem.unresolved hresolve).2] at hp
        cases hp
    | some entry =>
        obtain ⟨hid, hpath⟩ := hitem.resolved entry hresolve
        have hentry := of_resolveReference hresolve
        rw [h.loaded.registry] at hentry
        obtain ⟨d, hd, rfl⟩ := mem_buildRegistry.mp hentry
        rw [hpath] at hp
        exact ⟨d, hd, Option.some.inj hp, hid.symm⟩
  · obtain ⟨d, hd, rfl⟩ := List.mem_map.mp (List.mem_of_mem_filter hx)
    have hd := (List.mergeSort_perm _ _).mem_iff.mp (List.mem_of_mem_filter hd)
    exact ⟨d, hd, Option.some.inj hp, rfl⟩

/-- No path is twice among the optional items: it has one document, and that one id. -/
theorem Read.candidates_once (h : s.Read) : ((s.candidates lib intent).filterMap ContextItem.path).Nodup := by
  rw [Pick.nodup_filterMap_iff candidates_nodup]
  intro x hx y hy p hxp hyp
  obtain ⟨d, hd, hdp, hdx⟩ := h.document_of_candidate hx hxp
  obtain ⟨e, he, hep, hey⟩ := h.document_of_candidate hy hyp
  have heq : d = e := List.inj_on_of_nodup_map h.loaded.distinct hd he (hdp.trans hep.symm)
  rw [← hdx, heq, hey]

theorem selection_initial : (s.selection lib intent).1 <+: s.candidates lib intent := Pick.fill_prefix _ _

theorem Read.selection_once (h : s.Read) : ((s.selection lib intent).1.filterMap ContextItem.path).Nodup :=
  h.candidates_once.sublist (selection_initial.sublist.filterMap _)

/-! ## The plan -/

variable {profile : String}

theorem plan_tokens : (s.plan lib intent profile).estimatedTokens =
    ((s.plan lib intent profile).selected.map ContextItem.estimatedTokens).sum := by
  show (s.selection lib intent).2 =
    ((s.selectedRequired ++ (s.selection lib intent).1).map ContextItem.estimatedTokens).sum
  rw [selection, Pick.fill_total, List.map_append, List.sum_append, requiredTokens]

/-- The optional items never take a plan over its target. -/
theorem plan_fits (h : s.requiredTokens ≤ s.budget.targetTokens) :
    (s.plan lib intent profile).estimatedTokens ≤ s.budget.targetTokens := Pick.fill_total_le h _

theorem Read.wellPlanned_iff (h : s.Read) :
    WellPlanned s (s.plan lib intent profile) ↔ s.Clean lib intent := by
  constructor
  · intro hplan
    have hstands : s.Stands := h.stands_of_keeps hplan.kept
    have honce := hplan.once
    change ((s.selectedRequired ++ (s.selection lib intent).1).filterMap ContextItem.path).Nodup at honce
    rw [List.filterMap_append, List.nodup_append] at honce
    obtain ⟨hrequired, _, hdisjoint⟩ := honce
    constructor
    · exact hstands.once_iff.mp hrequired
    · intro x hx y hy p q hp hq hid
      exact hstands.id_path hx hy hp hq hid
    · intro reference hreference
      apply (hstands.allowed_iff reference).mp
      intro x hx
      exact hplan.allowed reference hreference x (List.mem_append_left _ hx)
    · intro c hfits
      have hc : c ∈ (s.selection lib intent).1 := Pick.mem_fill.mpr hfits
      constructor
      · intro x hx p hcp hxp
        obtain ⟨y, hy, hyp⟩ := (hstands.path_iff p).mpr ⟨x, hx, hxp⟩
        exact hdisjoint p (List.mem_filterMap.mpr ⟨y, hy, hyp⟩) p (List.mem_filterMap.mpr ⟨c, hc, hcp⟩) rfl
      · intro reference hreference
        exact hplan.allowed reference hreference c (List.mem_append_right _ hc)
  · intro hclean
    have hstands : s.Stands := h.stands hclean.id_path
    constructor
    · show ((s.selectedRequired ++ (s.selection lib intent).1).filterMap ContextItem.path).Nodup
      rw [List.filterMap_append, List.nodup_append]
      refine ⟨hstands.once_iff.mpr hclean.path_id, h.selection_once, ?_⟩
      intro p hp q hq hpq
      subst hpq
      obtain ⟨x, hx, hxp⟩ := List.mem_filterMap.mp hp
      obtain ⟨c, hc, hcp⟩ := List.mem_filterMap.mp hq
      exact (hclean.optional c (Pick.mem_fill.mp hc)).1 x (wanted_of_selected hx) p hcp hxp
    · exact plan_tokens
    · intro reference hreference item hitem
      rcases List.mem_append.mp hitem with hitem | hitem
      · exact (hstands.allowed_iff reference).mpr (hclean.allowed reference hreference) item hitem
      · exact (hclean.optional item (Pick.mem_fill.mp hitem)).2 reference hreference
    · intro reference hreference
      exact h.keeps hstands hreference
    · exact plan_fits

end Sources

variable {lib : Library} {project : ContextProject} {intent profile : String} {budget : Option (String ⊕ Int)}

/-- A plan that is returned is what the sources of its project give. -/
theorem planContext_sources {plan : ContextPlan} (h : planContext lib project intent budget profile = .ok plan) :
    ∃ s, sources lib project intent budget = .ok s ∧ plan = s.plan lib intent profile := by
  rw [planContext_eq] at h
  by_cases hblank : strip intent.toList = []
  · rw [if_pos hblank] at h
    cases h
  · rw [if_neg hblank] at h
    cases hs : sources lib project intent budget with
    | error e =>
        rw [hs] at h
        cases h
    | ok s =>
        rw [hs] at h
        cases h
        exact ⟨s, rfl, rfl⟩

/-- Only reading the project and its budget can fail: a project that was read has a plan for each intent. -/
theorem planContext_ok {index : ProjectIndex} {items : List ContextItem} {found : ContextBudget}
    (hintent : strip intent.toList ≠ []) (hindex : loadProjectIndex project.toProject = .ok index)
    (hcontracts : contractItems project = .ok items)
    (hbudget : planBudget lib budget (findPack lib project.contextPacks intent) index.manifest.defaultBudget =
      .ok found) : ∃ plan, planContext lib project intent budget profile = .ok plan := by
  obtain ⟨required, hrequired⟩ := referenceItems_ok (loaded hindex) true
    (requiredReferences (findTaskMap lib project.taskMaps intent) (findPack lib project.contextPacks intent))
  obtain ⟨optional, hoptional⟩ := referenceItems_ok (loaded hindex) false
    (optionalReferences (findTaskMap lib project.taskMaps intent) (findPack lib project.contextPacks intent))
  have hsources : sources lib project intent budget = .ok {
      index
      taskMap := findTaskMap lib project.taskMaps intent
      pack := findPack lib project.contextPacks intent
      contracts := items
      required
      optional
      budget := found } := by
    simp only [sources, hindex, Except.mapError, hcontracts, hrequired, hoptional, hbudget, bind, Except.bind]
    rfl
  rw [planContext_eq, if_neg hintent, hsources]
  exact ⟨_, rfl⟩

def router : ParsedDocument where
  relativePath := "docs/ATLAS.md"
  metadata := {
    id := "DOC-ATLAS"
    title := "Atlas"
    section_ := none
    estimatedTokens := some 40
    id_ne := by decide }
  body := "Where to read about what."

def routerMap : TaskMap where
  id := "TASKMAP-context"
  intent := "context engine"
  read := { required := ["docs/ATLAS.md"] }
  id_ne := by decide
  intent_ne := by decide

def routerProject : ContextProject where
  manifest := .ok {}
  documents := .ok [router]
  distinct := by
    intro ds h
    cases h
    exact List.nodup_singleton _
  taskMaps := [routerMap]
  contextPacks := []
  rootFile := fun name => if name = "docs/ATLAS.md" then some (.ok "# Atlas") else none

def routerLibrary : Library where
  lower := List.map Char.toLower
  isDigit := fun text => text.toList.any Char.isDigit
  int := fun _ => .error (.valueError "invalid literal for int() with base 10")
  scaled := fun tokens => .ok (tokens * 8 / 5)
  hexdigest := fun _ => "905742ffabc1d138ce92a91f8db22e8c6dd05f0df9f51327656ccda6f1fc6f31"

def routerSources : Sources where
  index := {
    manifest := {}
    documents := [router]
    registry := [entryOf router]
    graph := { nodes := [documentNode router], edges := [] } }
  taskMap := some routerMap
  pack := none
  contracts := [contractItem "docs/ATLAS.md" "L0 intent router" "# Atlas"]
  required := [{
    id := "DOC-ATLAS"
    path := some "docs/ATLAS.md"
    reason := "required by TASKMAP-context"
    estimatedTokens := 40
    required := true }]
  optional := []
  budget := ⟨"medium", 20000, 32000, by decide, by decide⟩

theorem loadProjectIndex_router : loadProjectIndex routerProject.toProject = .ok routerSources.index := by
  have hgraph : buildGraph [router] = .ok { nodes := [documentNode router], edges := [] } := by
    show Except.ok _ = Except.ok _
    simp [uniqueEdges, Dict.ofItems, Dict.values]
  have hregistry : buildRegistry [router] = [entryOf router] := by
    rw [buildRegistry, List.map_singleton, List.mergeSort_singleton]
  have hload : loadProjectIndex routerProject.toProject = (do
      let graph ← buildGraph [router]
      return ⟨{}, [router], buildRegistry [router], graph⟩) := rfl
  rw [hload, hgraph, hregistry]
  rfl

theorem sources_router : sources routerLibrary routerProject "context engine" none = .ok routerSources := by
  unfold sources
  rw [loadProjectIndex_router]
  rfl

theorem planContext_router : planContext routerLibrary routerProject "context engine" none "implementer" =
    .ok (routerSources.plan routerLibrary "context engine" "implementer") := by
  rw [planContext_eq, if_neg (by decide +kernel), sources_router]
  rfl

end AtlasFlow.Reference.Context
