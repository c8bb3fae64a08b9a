import AtlasFlow.Data.Attempts
import AtlasFlow.Reference.GoalFile
import AtlasFlow.Reference.McpRegistry

/-!
# The file of tool servers

`McpRegistry.from_file`: what `mcp-servers.yaml` declares becomes servers, one entry after the other, and an
entry that breaks a rule is skipped with a reason. The values are untyped, and each is coerced where it is read.
-/

namespace AtlasFlow.Reference.McpFile

open Attempts
open GoalFile (Key Value strip)

inductive LoadError where
  | mcpConfigError (message : String)
  | raised (exn : PyExn)
  deriving DecidableEq, Repr

/-- `str(entry.get(key, "")).strip()`. -/
def textAt (repr : Value → String) (entry : Dict Key Value) (key : String) : String :=
  match entry.get? (.str key) with
  | some value => String.ofList (strip (value.toText repr).toList)
  | none => ""

/-- `value or []`, of a key that may not be there. -/
def orEmptyList : Option Value → Value
  | some value => if value.truthy then value else .list []
  | none => .list []

/-! ## The environment of a server -/

def resolveEntry (repr : Value → String) (environ : String → Option String) :
    Value → Except String (String × String)
  | .dict entry =>
    let name := textAt repr entry "name"
    if name = "" then .error "an env entry is missing its name"
    else if (Dict.get? entry (.str "value")).isSome then
      .error s!"env '{name}' declares a literal value; use from_env so the secret stays out of the repository"
    else
      let source := textAt repr entry "from_env"
      if source = "" then .error s!"env '{name}' declares no from_env source"
      else match environ source with
        | none => .error s!"environment variable {source} is not set"
        | some value => .ok (name, value)
  | _ => .error "'env' must be a list of \x7bname, from_env\x7d entries"

/-- `_resolve_env`. -/
def resolveEnv (repr : Value → String) (environ : String → Option String) :
    Value → Except String (Dict String String)
  | .list entries => do
    let items ← entries.mapM (resolveEntry repr environ)
    return Dict.ofItems items
  | _ => .error "'env' must be a list of \x7bname, from_env\x7d entries"

/-! ## The entries -/

/-- `[str(item) for item in entry.get(key) or []]`. -/
def textsAt (repr : Value → String) (entry : Dict Key Value) (key : String) : Except LoadError (List String) :=
  match Value.listOr (entry.get? (.str key)) with
  | .ok items => .ok (items.map (Value.toText repr))
  | .error exn => .error (.raised exn)

def isTruthyAt (entry : Dict Key Value) (key : String) : Bool := (entry.get? (.str key)).any Value.truthy

def skip (registry : McpRegistry) (name reason : String) : McpRegistry :=
  { registry with skipped := registry.skipped.set name reason }

/-- What the loop of `from_file` does with one entry. -/
def loadEntry (repr : Value → String) (environ : String → Option String) (path : String) (wanted : List String)
    (registry : McpRegistry) : Value → Except LoadError McpRegistry
  | .dict entry =>
    let name := textAt repr entry "name"
    if name = "" then .error (.mcpConfigError s!"{path}: a server is missing its name")
    else if wanted ≠ [] ∧ name ∉ wanted then .ok (skip registry name "not in the configured server allowlist")
    else
      let command := textAt repr entry "command"
      if command = "" then .ok (skip registry name "no command declared")
      else match resolveEnv repr environ (orEmptyList (Dict.get? entry (.str "env"))) with
        | .error problem => .ok (skip registry name problem)
        | .ok env => do
          let args ← textsAt repr entry "args"
          let roles ← textsAt repr entry "roles"
          let readOnly := isTruthyAt entry "read_only"
          return { registry with servers := registry.servers ++ [{ name, command, args, env, readOnly, roles }] }
  | _ => .error (.mcpConfigError s!"{path}: each server must be a mapping")

def isNull : Value → Bool
  | .other scalar _ => scalar.typeName = "NoneType"
  | _ => false

def isBool (b : Bool) : Value → Bool
  | .other scalar _ => scalar.typeName = "bool" && scalar.truthy = b
  | _ => false

/-- `from_file`. The document is what reading the file and parsing its YAML gives, if it is a file. -/
def fromFile (repr : Value → String) (environ : String → Option String) (path : String)
    (document : Option (Except LoadError Value)) (enabled : Bool) (allowlist : List String) :
    Except LoadError McpRegistry :=
  if !enabled then .ok { enabled := false }
  else match document with
    | none => .ok {}
    | some (.error e) => .error e
    | some (.ok (.dict raw)) =>
      if (Dict.get? raw (.str "enabled")).any (isBool false) then .ok { enabled := false }
      else match orEmptyList (Dict.get? raw (.str "servers")) with
        | .list entries => entries.foldlM (loadEntry repr environ path allowlist) {}
        | _ => .error (.mcpConfigError s!"{path}: 'servers' must be a list")
    | some (.ok raw) =>
      if isNull raw then .ok {} else .error (.mcpConfigError s!"{path} must contain a mapping")

/-! ## What the rules allow -/

def entryOf : Value → Option (Dict Key Value)
  | .dict entry => some entry
  | _ => none

/-- The entries that the document declares, unless it says that nothing is to be forwarded. -/
def declaredServers (document : Option (Except LoadError Value)) : List (Dict Key Value) :=
  match document with
  | some (.ok (.dict raw)) =>
    if (Dict.get? raw (.str "enabled")).any (isBool false) then []
    else match orEmptyList (Dict.get? raw (.str "servers")) with
      | .list entries => entries.filterMap entryOf
      | _ => []
  | _ => []

/-- The server of an entry. -/
def serverOf (repr : Value → String) (environ : String → Option String) (entry : Dict Key Value) : McpServer where
  name := textAt repr entry "name"
  command := textAt repr entry "command"
  args := (textsAt repr entry "args").toOption.getD []
  env := (resolveEnv repr environ (orEmptyList (entry.get? (.str "env")))).toOption.getD []
  readOnly := isTruthyAt entry "read_only"
  roles := (textsAt repr entry "roles").toOption.getD []

/-- The key has a value, and one that says something. -/
def declares (repr : Value → String) (entry : Dict Key Value) (key : String) : Bool :=
  !(entry.get? (.str key)).any isNull && textAt repr entry key ≠ ""

/-- An entry of `env` names a variable and a source that is set, and has no literal. -/
def isReference (repr : Value → String) (environ : String → Option String) : Value → Bool
  | .dict entry =>
    declares repr entry "name" && (Dict.get? entry (.str "value")).isNone && declares repr entry "from_env" &&
      (environ (textAt repr entry "from_env")).isSome
  | _ => false

def hasReferences (repr : Value → String) (environ : String → Option String) (entry : Dict Key Value) : Bool :=
  match orEmptyList (entry.get? (.str "env")) with
  | .list entries => entries.all (isReference repr environ)
  | _ => false

/-- What the rules ask of an entry for a role. -/
structure Permitted (repr : Value → String) (environ : String → Option String) (allowlist : List String)
    (role : String) (entry : Dict Key Value) : Prop where
  listed : allowlist = [] ∨ textAt repr entry "name" ∈ allowlist
  command : declares repr entry "command" = true
  env : hasReferences repr environ entry = true
  serves : (serverOf repr environ entry).serves role = true
  readOnly : role ∈ planningRoles → (entry.get? (.str "read_only")).any (isBool true) = true

instance (repr : Value → String) (environ : String → Option String) (allowlist : List String) (role : String) :
    DecidablePred (Permitted repr environ allowlist role) := fun entry =>
  decidable_of_iff ((allowlist = [] ∨ textAt repr entry "name" ∈ allowlist) ∧ declares repr entry "command" = true ∧
      hasReferences repr environ entry = true ∧ (serverOf repr environ entry).serves role = true ∧
      (role ∈ planningRoles → (entry.get? (.str "read_only")).any (isBool true) = true))
    ⟨fun h => ⟨h.1, h.2.1, h.2.2.1, h.2.2.2.1, h.2.2.2.2⟩,
      fun h => ⟨h.listed, h.command, h.env, h.serves, h.readOnly⟩⟩

/-- What `from_file` asks of it. -/
structure Kept (repr : Value → String) (environ : String → Option String) (allowlist : List String)
    (entry : Dict Key Value) : Prop where
  listed : allowlist = [] ∨ textAt repr entry "name" ∈ allowlist
  command : textAt repr entry "command" ≠ ""
  env : (resolveEnv repr environ (orEmptyList (entry.get? (.str "env")))).toOption.isSome = true

instance (repr : Value → String) (environ : String → Option String) (allowlist : List String) :
    DecidablePred (Kept repr environ allowlist) := fun entry =>
  decidable_of_iff ((allowlist = [] ∨ textAt repr entry "name" ∈ allowlist) ∧ textAt repr entry "command" ≠ "" ∧
      (resolveEnv repr environ (orEmptyList (entry.get? (.str "env")))).toOption.isSome = true)
    ⟨fun h => ⟨h.1, h.2.1, h.2.2⟩, fun h => ⟨h.listed, h.command, h.env⟩⟩

/-- What `for_role` asks of a server. -/
def isFor (role : String) (server : McpServer) : Bool :=
  server.serves role && (role ∉ planningRoles || server.readOnly)

/-- Neither the name nor the source of an entry of `env` is null. -/
def isNamed : Value → Bool
  | .dict entry => !(Dict.get? entry (.str "name")).any isNull && !(Dict.get? entry (.str "from_env")).any isNull
  | _ => true

/-- Nothing that an entry declares becomes something else when it is read: null does not become a text, and no
value but `true` is true. -/
structure Uncoerced (role : String) (entry : Dict Key Value) : Prop where
  command : (entry.get? (.str "command")).any isNull = false
  env : ∀ entries, orEmptyList (entry.get? (.str "env")) = .list entries → entries.all isNamed = true
  readOnly : role ∈ planningRoles → isTruthyAt entry "read_only" = true →
    (entry.get? (.str "read_only")).any (isBool true) = true

/-- The agent gets exactly the servers that the rules allow, and no value but from the environment. -/
structure ForwardsExactly (repr : Value → String) (environ : String → Option String)
    (document : Option (Except LoadError Value)) (enabled : Bool) (allowlist : List String) (role : String)
    (registry : McpRegistry) : Prop where
  listed : registry.acpServers role =
    ((if enabled then declaredServers document else []).filter (Permitted repr environ allowlist role)).map
      fun entry => (serverOf repr environ entry).toAcp
  environment : ∀ server ∈ registry.forRole role, ∀ item ∈ server.env, ∃ source, environ source = some item.2

section Rules

variable {repr : Value → String} {environ : String → Option String} {allowlist : List String} {role : String}
  {entry : Dict Key Value}

theorem isReference_iff (declared : Value) : isReference repr environ declared = true ↔
    (∃ item, resolveEntry repr environ declared = .ok item) ∧ isNamed declared = true := by
  cases declared with
  | dict entry =>
      rw [isReference, isNamed, declares, declares, resolveEntry]
      by_cases hname : textAt repr entry "name" = ""
      · simp [hname]
      cases hvalue : Dict.get? entry (.str "value") with
      | some value => simp [hname]
      | none =>
          by_cases hsource : textAt repr entry "from_env" = ""
          · simp [hname, hsource]
          cases henviron : environ (textAt repr entry "from_env") with
          | none => simp [hname, hsource, henviron]
          | some value => simp [hname, hsource, henviron]
  | _ => simp [isReference, resolveEntry]

theorem hasReferences_iff : hasReferences repr environ entry = true ↔
    (resolveEnv repr environ (orEmptyList (entry.get? (.str "env")))).toOption.isSome = true ∧
      ∀ entries, orEmptyList (entry.get? (.str "env")) = .list entries → entries.all isNamed = true := by
  rw [hasReferences]
  cases orEmptyList (entry.get? (.str "env")) with
  | list entries =>
      have hresolve : (resolveEnv repr environ (.list entries)).toOption.isSome = true ↔
          ∀ declared ∈ entries, ∃ item, resolveEntry repr environ declared = .ok item := by
        rw [← exists_mapM_ok, resolveEnv, Option.isSome_iff_exists]
        constructor
        · rintro ⟨env, henv⟩
          obtain ⟨items, hitems, _⟩ := of_bind_ok (toOption_eq_some.mp henv)
          exact ⟨items, hitems⟩
        · rintro ⟨items, hitems⟩
          rw [hitems]
          exact ⟨_, rfl⟩
      rw [hresolve, List.all_eq_true]
      constructor
      · intro h
        refine ⟨fun declared hmem => ((isReference_iff declared).mp (h declared hmem)).1, ?_⟩
        rintro _ ⟨⟩
        rw [List.all_eq_true]
        exact fun declared hmem => ((isReference_iff declared).mp (h declared hmem)).2
      · rintro ⟨hresolved, hnamed⟩ declared hmem
        exact (isReference_iff declared).mpr
          ⟨hresolved declared hmem, List.all_eq_true.mp (hnamed entries rfl) declared hmem⟩
  | _ => simp [resolveEnv, Except.toOption]

theorem truthy_of_isBool {value : Value} (h : isBool true value = true) : value.truthy = true := by
  cases value with
  | other scalar elements =>
      rw [isBool, Bool.and_eq_true, decide_eq_true_eq, decide_eq_true_eq] at h
      exact h.2
  | _ => cases h

theorem isFor_iff {server : McpServer} :
    isFor role server = true ↔ server.serves role = true ∧ (role ∈ planningRoles → server.readOnly = true) := by
  rw [isFor, Bool.and_eq_true, Bool.or_eq_true, decide_eq_true_eq, or_iff_not_imp_left, not_not]

theorem permitted_iff : Permitted repr environ allowlist role entry ↔
    (Kept repr environ allowlist entry ∧ isFor role (serverOf repr environ entry) = true) ∧ Uncoerced role entry := by
  rw [isFor_iff]
  constructor
  · intro h
    have hcommand := h.command
    rw [declares, Bool.and_eq_true, Bool.not_eq_true', decide_eq_true_eq] at hcommand
    obtain ⟨hresolved, hnamed⟩ := hasReferences_iff.mp h.env
    refine ⟨⟨⟨h.listed, hcommand.2, hresolved⟩, h.serves, fun hplans => ?_⟩,
      ⟨hcommand.1, hnamed, fun hplans _ => h.readOnly hplans⟩⟩
    obtain ⟨value, hvalue, htrue⟩ := (Option.any_eq_true _ _).mp (h.readOnly hplans)
    show isTruthyAt entry "read_only" = true
    rw [isTruthyAt, hvalue]
    exact truthy_of_isBool htrue
  · rintro ⟨⟨hkept, hserves, hreadOnly⟩, hplain⟩
    refine ⟨hkept.listed, ?_, hasReferences_iff.mpr ⟨hkept.env, hplain.env⟩, hserves,
      fun hplans => hplain.readOnly hplans (hreadOnly hplans)⟩
    rw [declares, hplain.command]
    simpa using hkept.command

end Rules

/-! ## Loading -/

section Load

variable {repr : Value → String} {environ : String → Option String} {path role : String} {allowlist : List String}
  {registry registry' : McpRegistry} {document : Option (Except LoadError Value)} {enabled : Bool}

theorem textsAt_ok {entry : Dict Key Value} {key : String} {texts : List String}
    (h : textsAt repr entry key = .ok texts) : (textsAt repr entry key).toOption.getD [] = texts := by
  rw [h]
  rfl

theorem not_kept {entry : Dict Key Value} (h : ¬ Kept repr environ allowlist entry) :
    ((entryOf (.dict entry)).toList.filter (Kept repr environ allowlist)).map (serverOf repr environ) = [] := by
  rw [entryOf, Option.toList_some, List.filter_cons_of_neg (by simpa using h)]
  rfl

/-- What one entry adds to the servers. -/
theorem servers_of_loadEntry {declared : Value}
    (h : loadEntry repr environ path allowlist registry declared = .ok registry') :
    registry'.servers = registry.servers ++
      ((entryOf declared).toList.filter (Kept repr environ allowlist)).map (serverOf repr environ) := by
  cases declared with
  | dict entry =>
      rw [loadEntry] at h
      dsimp only at h
      split at h
      · cases h
      · split at h
        · next hlisted =>
          cases h
          rw [not_kept fun hkept => ?_, List.append_nil]
          · rfl
          · rcases hkept.listed with hall | hmem
            · exact hlisted.1 hall
            · exact hlisted.2 hmem
        · next hlisted =>
          rw [not_and_or, not_not, not_not] at hlisted
          split at h
          · next hcommand =>
            cases h
            rw [not_kept fun hkept => hkept.command hcommand, List.append_nil]
            rfl
          · next hcommand =>
            split at h
            · next problem henv =>
              cases h
              rw [not_kept fun hkept => ?_, List.append_nil]
              · rfl
              · have hresolved := hkept.env
                rw [henv] at hresolved
                cases hresolved
            · next env henv =>
              obtain ⟨args, hargs, h⟩ := of_bind_ok h
              obtain ⟨roles, hroles, h⟩ := of_bind_ok h
              cases h
              have hkept : Kept repr environ allowlist entry := ⟨hlisted, hcommand, by rw [henv]; rfl⟩
              rw [entryOf, Option.toList_some, List.filter_cons_of_pos (by simpa using hkept)]
              show _ ++ _ = _ ++ [serverOf repr environ entry]
              rw [serverOf, textsAt_ok hargs, textsAt_ok hroles, henv]
              rfl
  | _ => cases h

theorem servers_of_foldlM {entries : List Value}
    (h : entries.foldlM (loadEntry repr environ path allowlist) registry = .ok registry') :
    registry'.servers = registry.servers ++
      ((entries.filterMap entryOf).filter (Kept repr environ allowlist)).map (serverOf repr environ) := by
  induction entries generalizing registry with
  | nil =>
      cases h
      exact (List.append_nil _).symm
  | cons declared entries ih =>
      rw [List.foldlM_cons] at h
      obtain ⟨next, hnext, h⟩ := of_bind_ok h
      have hcons : (declared :: entries).filterMap entryOf =
          (entryOf declared).toList ++ entries.filterMap entryOf := by
        rw [List.filterMap_cons]
        cases entryOf declared <;> rfl
      rw [ih h, servers_of_loadEntry hnext, hcons, List.filter_append, List.map_append, List.append_assoc]

/-- The servers are those of the entries that are kept, in their order. -/
theorem servers_of_fromFile (h : fromFile repr environ path document enabled allowlist = .ok registry) :
    registry.servers = ((if enabled then declaredServers document else []).filter (Kept repr environ allowlist)).map
      (serverOf repr environ) := by
  unfold fromFile at h
  cases enabled with
  | false =>
      cases h
      rfl
  | true =>
      rw [if_neg (by decide)] at h
      rw [if_pos rfl]
      rcases document with _ | exn | raw
      · cases h
        rfl
      · cases h
      cases raw with
      | dict raw =>
          dsimp only at h
          rw [declaredServers]
          by_cases hoff : (Dict.get? raw (.str "enabled")).any (isBool false) = true
          · rw [if_pos hoff] at h ⊢
            cases h
            rfl
          · rw [if_neg hoff] at h ⊢
            cases hservers : orEmptyList (Dict.get? raw (.str "servers")) with
            | list entries =>
                rw [hservers] at h
                exact servers_of_foldlM h
            | _ =>
                rw [hservers] at h
                cases h
      | _ =>
          dsimp only at h
          split at h
          · cases h
            rfl
          · cases h

theorem forRole_eq (registry : McpRegistry) (role : String) :
    registry.forRole role = registry.servers.filter (isFor role) := by
  unfold McpRegistry.forRole isFor
  dsimp only
  split
  · next hplans => simp [hplans, List.filter_filter, Bool.and_comm]
  · next hbuilds => simp [hbuilds]

theorem forRole_of_fromFile (h : fromFile repr environ path document enabled allowlist = .ok registry) (role : String) :
    registry.forRole role =
      ((if enabled then declaredServers document else []).filter fun entry =>
        Kept repr environ allowlist entry ∧ isFor role (serverOf repr environ entry) = true).map
        (serverOf repr environ) := by
  rw [forRole_eq, servers_of_fromFile h, List.filter_map, List.filter_filter]
  congr 1
  apply List.filter_congr
  intro entry _
  simp [Bool.and_comm]

theorem environ_of_resolveEntry {declared : Value} {item : String × String}
    (h : resolveEntry repr environ declared = .ok item) : ∃ source, environ source = some item.2 := by
  cases declared with
  | dict entry =>
      rw [resolveEntry] at h
      dsimp only at h
      split at h
      · cases h
      · split at h
        · cases h
        · split at h
          · cases h
          · split at h
            · cases h
            · next value hvalue =>
              cases h
              exact ⟨_, hvalue⟩
  | _ => cases h

/-- Each value of a resolved environment is one of the environment of the process. -/
theorem environ_of_resolveEnv {declared : Value} {env : Dict String String}
    (h : resolveEnv repr environ declared = .ok env) : ∀ item ∈ env, ∃ source, environ source = some item.2 := by
  cases declared with
  | list entries =>
      rw [resolveEnv] at h
      obtain ⟨items, hitems, h⟩ := of_bind_ok h
      cases h
      intro item hitem
      have hmem : item ∈ items :=
        Dict.mem_of_get?_ofItems (Dict.get?_of_mem (Dict.keys_ofItems_nodup items) (k := item.1) (v := item.2) hitem)
      obtain ⟨_, _, hresolve⟩ := (mem_of_mapM_ok hitems).2 item hmem
      exact environ_of_resolveEntry hresolve
  | _ => cases h

end Load

/-! ### A flag in quotes -/

/-- `docs`, read-only, with a token of the environment, and `deploy`, whose `read_only` is the text `false`. -/
def quotedDocument : Value :=
  .dict [(.str "servers", .list [
    .dict [(.str "name", .str "docs"), (.str "command", .str "mcp-docs"),
      (.str "env", .list [.dict [(.str "name", .str "TOKEN"), (.str "from_env", .str "DOCS_TOKEN")]]),
      (.str "read_only", .other ⟨"bool", true, "True", "True"⟩ none)],
    .dict [(.str "name", .str "deploy"), (.str "command", .str "mcp-deploy"), (.str "read_only", .str "false")]])]

def tokenEnviron (name : String) : Option String := if name = "DOCS_TOKEN" then some "s3cret" else none

def quotedRegistry : McpRegistry where
  servers := [
    { name := "docs", command := "mcp-docs", env := [("TOKEN", "s3cret")], readOnly := true },
    { name := "deploy", command := "mcp-deploy", readOnly := true }]

theorem fromFile_quoted : fromFile (fun _ => "") tokenEnviron "mcp-servers.yaml" (some (.ok quotedDocument)) true [] =
    .ok quotedRegistry := by
  decide +kernel

end AtlasFlow.Reference.McpFile
