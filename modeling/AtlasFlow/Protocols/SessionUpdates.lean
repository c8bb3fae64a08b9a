import AtlasFlow.Data.Attempts
import AtlasFlow.Domain.SecretRedactor
import AtlasFlow.Protocols.AcpConnection

/-!
# What an agent's updates say

`SessionUpdateNormalizer` turns the updates of a session into records of a few kinds and drops those that say nothing.
The text of a record is redacted, and it has no match of a pattern of the redactor (`normalize_clean`).
-/

namespace AtlasFlow.Acp

open Security

/-- `UpdateKind`. -/
inductive UpdateKind
  | message
  | thought
  | terminal
  | file
  | tool
  | plan
  deriving DecidableEq, Repr

/-- `NormalizedUpdate`. -/
structure NormalizedUpdate where
  kind : UpdateKind
  text : String := ""
  paths : List String := []
  tool : String := ""
  status : String := ""
  raw : Option JsonObject := none
  deriving DecidableEq

/-- What the code finds on the machine that it runs on: the tables of the regular expressions, those of
`ToLowerInvariant`, and the end of a line. -/
structure Platform where
  chars : Alphabet
  toLowerInvariant : String → String
  lineEnd : List Char

/-- `update[name]`. -/
def item (members : JsonObject) (name : String) : Except Exn Json := do
  return (← tryGetPropertyValue members name).getD .null

namespace SessionUpdateNormalizer

def executeKinds : List String := ["execute", "terminal", "shell"]

def editKinds : List String := ["edit", "write", "create", "delete", "move"]

/-- `StringOf`. -/
def stringOf (members : JsonObject) (key : String) : Except Exn String := do
  match ← tryGetPropertyValue members key with
  | some (.str text) => return text
  | _ => return ""

/-- `ContainsKey`. -/
def containsKey (members : JsonObject) (key : String) : Except Exn Bool := do
  return (← tryGetPropertyValue members key).isSome

mutual

/-- `ContentText`. -/
def contentText : Json → Except Exn String
  | .arr items => contentTexts items
  | .obj members => do
    let type ← stringOf members "type"
    if (type = "" ∨ type = "text") ∧ (← containsKey members "text") = true then stringOf members "text"
    else if (← containsKey members "output") = true then stringOf members "output"
    else contentOf members
  | .str text => return text
  | _ => return ""

/-- The texts of the items, put together. -/
def contentTexts : List Json → Except Exn String
  | [] => return ""
  | content :: contents => do return (← contentText content) ++ (← contentTexts contents)

/-- The text of the member `content`, if there is one. -/
def contentOf : List (String × Json) → Except Exn String
  | [] => return ""
  | (key, value) :: members => if key = "content" then contentText value else contentOf members

end

/-- `OfType<JsonObject>`. -/
def objects (nodes : List Json) : List JsonObject :=
  nodes.filterMap fun node => match node with
    | .obj members => some members
    | _ => none

/-- The items of an array, and nothing for another node. -/
def arrayOf : Json → List Json
  | .arr items => items
  | _ => []

/-- `PlanSummary`. -/
def planSummary (entries : Json) : Except Exn String := do
  let contents ← (objects (arrayOf entries)).mapM fun entry => stringOf entry "content"
  return "; ".intercalate (contents.filter (· ≠ ""))

/-- `Paths`: every file once, in the order in which they are named. -/
def paths (update : JsonObject) (diffs : List JsonObject) : Except Exn (List String) := do
  let locations := objects (arrayOf (← item update "locations"))
  let candidates ← (locations ++ diffs).mapM fun node => stringOf node "path"
  return candidates.foldl (fun found candidate =>
    if candidate ≠ "" ∧ candidate ∉ found then found ++ [candidate] else found) []

/-- The blocks of a type. -/
def blocksOf (type : String) (blocks : List JsonObject) : Except Exn (List JsonObject) :=
  blocks.filterM fun block => do return (← stringOf block "type") = type

/-- The title of a tool call, or else its id. -/
def titleOf (update : JsonObject) : Except Exn String := do
  let title ← stringOf update "title"
  if title = "" then stringOf update "toolCallId" else return title

/-- What the terminal blocks say, put together. -/
def terminalTextOf (blocks : List JsonObject) : Except Exn String := do
  let terminals ← blocksOf "terminal" blocks
  return String.join (← terminals.mapM fun block => do contentText (← item block "content"))

/-- What a command wrote: what the terminal blocks say, or else the raw output. -/
def outputOf (terminalText : String) (update : JsonObject) : Except Exn String := do
  if terminalText ≠ "" then return terminalText else contentText (← item update "rawOutput")

/-- `NormalizeToolCall`. -/
def normalizeToolCall (platform : Platform) (update : JsonObject) : Except Exn (Option NormalizedUpdate) := do
  let kind := platform.toLowerInvariant (← stringOf update "kind")
  let title ← titleOf update
  let status ← stringOf update "status"
  let blocks := objects (arrayOf (← item update "content"))
  let terminalText ← terminalTextOf blocks
  let diffs ← blocksOf "diff" blocks
  let paths ← paths update diffs
  if kind ∈ executeKinds ∨ terminalText ≠ "" then
    let text ← outputOf terminalText update
    return some { kind := .terminal, text := text, tool := title, status := status, raw := some update }
  else if kind ∈ editKinds ∨ diffs ≠ [] then
    let text := if diffs.length = 0 then "" else s!"{diffs.length} file diff(s)"
    return some { kind := .file, text := text, paths := paths, tool := title, status := status, raw := some update }
  else if title = "" then return none
  else return some { kind := .tool, tool := title, status := status, paths := paths, raw := some update }

/-- The record of a text, if there is one. -/
def saying (kind : UpdateKind) (text : String) (update : JsonObject) : Option NormalizedUpdate :=
  if text = "" then none else some { kind := kind, text := text, raw := some update }

/-- `Classify`. -/
def classify (platform : Platform) (update : JsonObject) : Except Exn (Option NormalizedUpdate) := do
  let sessionUpdate ← stringOf update "sessionUpdate"
  if sessionUpdate = "agent_message_chunk" ∨ sessionUpdate = "user_message_chunk" then
    return saying .message (← contentText (← item update "content")) update
  else if sessionUpdate = "agent_thought_chunk" then
    return saying .thought (← contentText (← item update "content")) update
  else if sessionUpdate = "plan" then
    return some { kind := .plan, text := ← planSummary (← item update "entries"), raw := some update }
  else if sessionUpdate = "tool_call" ∨ sessionUpdate = "tool_call_update" then
    normalizeToolCall platform update
  else return none

/-- `Normalize`. -/
def normalize (platform : Platform) (update : JsonObject) : Except Exn (Option NormalizedUpdate) := do
  match ← classify platform update with
  | some classified =>
    if classified.text.length > 0 then
      return some { classified with text := redact platform.chars classified.text none }
    else return some classified
  | none => return none

/-! ## Records -/

variable {platform : Platform} {update : JsonObject}

/-- The record of an update without its secrets. -/
def redacted (platform : Platform) (record : NormalizedUpdate) : NormalizedUpdate :=
  { record with text := redact platform.chars record.text none }

theorem redacted_kind (record : NormalizedUpdate) : (redacted platform record).kind = record.kind := by rw [redacted]

theorem redacted_text (record : NormalizedUpdate) :
    (redacted platform record).text = redact platform.chars record.text none := by rw [redacted]

theorem redacted_raw (record : NormalizedUpdate) : (redacted platform record).raw = record.raw := by rw [redacted]

theorem normalize_eq : normalize platform update = (classify platform update).map (Option.map (redacted platform)) := by
  unfold normalize
  cases classify platform update with
  | error e => rfl
  | ok found =>
      cases found with
      | none => rfl
      | some record =>
          by_cases hlength : record.text.length > 0
          · simp only [bind, Except.bind, if_pos hlength]
            rfl
          · have hempty : record.text = "" := String.length_eq_zero_iff.mp (by omega)
            have hredact : redact platform.chars record.text none = record.text := by
              rw [hempty]
              exact redact_of_clean _ (clean_empty _)
            simp only [bind, Except.bind, if_neg hlength]
            show Except.ok (some record) = Except.ok (some (redacted platform record))
            rw [redacted, hredact]

/-- **The text of a record has no match of a pattern.** -/
theorem normalize_clean {record : NormalizedUpdate} (h : normalize platform update = .ok (some record)) :
    Clean platform.chars record.text := by
  rw [normalize_eq] at h
  cases hclassify : classify platform update with
  | error e =>
      rw [hclassify] at h
      cases h
  | ok found =>
      rw [hclassify] at h
      cases found with
      | none => cases h
      | some record' =>
          cases h
          exact redact_clean _ _

theorem normalizeToolCall_raw {record : NormalizedUpdate} (h : normalizeToolCall platform update = .ok (some record)) :
    record.raw = some update := by
  unfold normalizeToolCall at h
  obtain ⟨kind, _, h⟩ := Attempts.of_bind_ok h
  obtain ⟨title, _, h⟩ := Attempts.of_bind_ok h
  obtain ⟨status, _, h⟩ := Attempts.of_bind_ok h
  obtain ⟨content, _, h⟩ := Attempts.of_bind_ok h
  obtain ⟨terminalText, _, h⟩ := Attempts.of_bind_ok h
  obtain ⟨diffs, _, h⟩ := Attempts.of_bind_ok h
  obtain ⟨paths, _, h⟩ := Attempts.of_bind_ok h
  split at h
  · obtain ⟨text, _, h⟩ := Attempts.of_bind_ok h
    cases h
    rfl
  · split at h
    · cases h
      rfl
    · split at h
      · cases h
      · cases h
        rfl

theorem saying_raw {kind : UpdateKind} {text : String} {record : NormalizedUpdate}
    (h : saying kind text update = some record) : record.raw = some update := by
  unfold saying at h
  split at h
  · cases h
  · cases h
    rfl

/-- A record keeps the update that it was made of. -/
theorem classify_raw {record : NormalizedUpdate} (h : classify platform update = .ok (some record)) :
    record.raw = some update := by
  unfold classify at h
  obtain ⟨sessionUpdate, _, h⟩ := Attempts.of_bind_ok h
  split at h
  · obtain ⟨content, _, h⟩ := Attempts.of_bind_ok h
    obtain ⟨text, _, h⟩ := Attempts.of_bind_ok h
    exact saying_raw (Except.ok.inj h)
  · split at h
    · obtain ⟨content, _, h⟩ := Attempts.of_bind_ok h
      obtain ⟨text, _, h⟩ := Attempts.of_bind_ok h
      exact saying_raw (Except.ok.inj h)
    · split at h
      · obtain ⟨entries, _, h⟩ := Attempts.of_bind_ok h
        obtain ⟨text, _, h⟩ := Attempts.of_bind_ok h
        cases h
        rfl
      · split at h
        · exact normalizeToolCall_raw h
        · cases h

end SessionUpdateNormalizer

end AtlasFlow.Acp
