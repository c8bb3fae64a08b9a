import AtlasFlow.Data.Dict
import AtlasFlow.Protocols.SessionUpdates

/-!
# Session updates in Python

`acp/events.py`, from which the normaliser was ported. It reads a field with `str(value)`, which spells a value that is
no string, where the port reads it as empty; they agree on updates in which no such field is met (`normalize_ported`).
-/

namespace AtlasFlow.Reference.AcpEvents

open Acp Security

/-- What Python's own functions give: the tables of `re`, `str.lower`, `repr`, the `str` of a number that was read from
its literal, and whether the number is zero. -/
structure Python where
  chars : Alphabet
  lower : String → String
  repr : Json → String
  number : String → String
  isZero : String → Bool

variable (python : Python)

/-- `str(value)`. -/
def str : Json → String
  | .null => "None"
  | .bool b => if b then "True" else "False"
  | .num literal => python.number literal
  | .str s => s
  | .arr items => "[" ++ ", ".intercalate (items.map python.repr) ++ "]"
  | .obj members =>
    "\x7b" ++ ", ".intercalate (members.map fun member => python.repr (.str member.1) ++ ": " ++ python.repr member.2) ++
      "\x7d"

/-- `bool(value)`. -/
def truthy : Json → Bool
  | .null => false
  | .bool b => b
  | .num literal => !python.isZero literal
  | .str s => s ≠ ""
  | .arr items => !items.isEmpty
  | .obj members => !members.isEmpty

/-- `update.get(key)`. -/
def get (update : JsonObject) (key : String) : Json := (Dict.get? update key).getD .null

/-- `str(update.get(key, ""))`. -/
def textAt (update : JsonObject) (key : String) : String := ((Dict.get? update key).map (str python)).getD ""

/-! ## Content -/

/-- Whether a content block is read for its text. -/
def isTextBlock (content : JsonObject) : Bool :=
  (get content "type" = .null || get content "type" = .str "text") && (Dict.get? content "text").isSome

mutual

/-- `_content_text`. -/
def contentText : Json → String
  | .str content => content
  | .arr items => contentTexts items
  | .obj content =>
    if isTextBlock content then textAt python content "text"
    else if (Dict.get? content "output").isSome then textAt python content "output"
    else contentOf content
  | _ => ""

/-- The texts of the items, put together. -/
def contentTexts : List Json → String
  | [] => ""
  | item :: items => contentText item ++ contentTexts items

/-- The text of the value under `content`, if there is one. -/
def contentOf : List (String × Json) → String
  | [] => ""
  | (key, value) :: members => if key = "content" then contentText value else contentOf members

end

/-! ## Records -/

/-- The dicts in a list, and none in another value. -/
def dicts : Json → List JsonObject
  | .arr items => items.filterMap fun item => match item with
    | .obj members => some members
    | _ => none
  | _ => []

/-- The texts of a field of dicts, where it is true. -/
def textsAt (items : List JsonObject) (key : String) : List String :=
  (items.filter fun item => truthy python (get item key)).map fun item => textAt python item key

/-- `_plan_summary`. -/
def planSummary (entries : Json) : String := "; ".intercalate (textsAt python (dicts entries) "content")

/-- `_is_diff`, and the same of terminals. -/
def isBlock (type : String) (block : JsonObject) : Bool := get block "type" = .str type

/-- `list(dict.fromkeys(found))`. -/
def fromKeys (found : List String) : List String := Dict.keys (Dict.ofItems (found.map fun path => (path, ())))

/-- `_paths`. -/
def paths (update : JsonObject) (diffs : List JsonObject) : List String :=
  fromKeys (textsAt python (dicts (get update "locations")) "path" ++ textsAt python diffs "path")

/-- `_diff_summary`. -/
def diffSummary (diffs : List JsonObject) : String :=
  if diffs.isEmpty then "" else s!"{diffs.length} file diff(s)"

/-- `a or b`, of two texts. -/
def orText (a b : String) : String := if a = "" then b else a

/-- What the terminal blocks say, put together. -/
def terminalTextOf (blocks : List JsonObject) : String :=
  String.join ((blocks.filter (isBlock "terminal")).map fun block => contentText python (get block "content"))

/-- `_normalize_tool_call`. -/
def normalizeToolCall (update : JsonObject) : Option NormalizedUpdate :=
  let kind := python.lower (textAt python update "kind")
  let title := orText (textAt python update "title") (textAt python update "toolCallId")
  let status := textAt python update "status"
  let blocks := dicts (get update "content")
  let terminalText := terminalTextOf python blocks
  let diffs := blocks.filter (isBlock "diff")
  let paths := paths python update diffs
  if kind ∈ SessionUpdateNormalizer.executeKinds ∨ terminalText ≠ "" then
    some { kind := .terminal, text := orText terminalText (contentText python (get update "rawOutput")), tool := title,
           status := status, raw := some update }
  else if kind ∈ SessionUpdateNormalizer.editKinds ∨ diffs ≠ [] then
    some { kind := .file, text := diffSummary diffs, paths := paths, tool := title, status := status, raw := some update }
  else if title = "" then none
  else some { kind := .tool, tool := title, status := status, paths := paths, raw := some update }

/-- `_classify`. -/
def classify (update : JsonObject) : Option NormalizedUpdate :=
  let sessionUpdate := textAt python update "sessionUpdate"
  let text := contentText python (get update "content")
  if sessionUpdate = "agent_message_chunk" ∨ sessionUpdate = "user_message_chunk" then
    if text = "" then none else some { kind := .message, text := text, raw := some update }
  else if sessionUpdate = "agent_thought_chunk" then
    if text = "" then none else some { kind := .thought, text := text, raw := some update }
  else if sessionUpdate = "plan" then
    some { kind := .plan, text := planSummary python (get update "entries"), raw := some update }
  else if sessionUpdate = "tool_call" ∨ sessionUpdate = "tool_call_update" then normalizeToolCall python update
  else none

/-- `normalize_update`. The patterns of `redact_secrets` are those of the redactor. -/
def normalizeUpdate (update : JsonObject) : Option NormalizedUpdate :=
  (classify python update).map fun event =>
    if event.text = "" then event else { event with text := redact python.chars event.text none }

/-! ## Updates that both read alike -/

/-- A field that is a string, or is not there. -/
def isText : Option Json → Bool
  | none | some (.str _) => true
  | some _ => false

/-- A value that is a string, or not true. -/
def isTextOrFalse : Json → Bool
  | .str _ => true
  | value => !truthy python value

/-- A type that is a name. -/
def isNamed : Json → Bool
  | .str s => s ≠ ""
  | _ => false

/-- No name twice. -/
def isDict (members : JsonObject) : Bool := (members.map Prod.fst).Nodup

mutual

/-- The fields that are read of the blocks are strings, and a block that has a text has no type or a name for one. -/
def isPlain : Json → Bool
  | .arr items => arePlain items
  | .obj content => isDict content &&
    if isTextBlock content then isText (Dict.get? content "text")
    else (isNamed (get content "type") || (Dict.get? content "text").isNone) &&
      if (Dict.get? content "output").isSome then isText (Dict.get? content "output") else isPlainOf content
  | _ => true

def arePlain : List Json → Bool
  | [] => true
  | item :: items => isPlain item && arePlain items

def isPlainOf : List (String × Json) → Bool
  | [] => true
  | (key, value) :: members => if key = "content" then isPlain value else isPlainOf members

end

/-- The fields that are read of a tool call are strings. -/
structure ReadableCall (update : JsonObject) : Prop where
  title : isText (Dict.get? update "title") = true
  toolCallId : textAt python update "title" = "" → isText (Dict.get? update "toolCallId") = true
  status : isText (Dict.get? update "status") = true
  blocks : ∀ block ∈ dicts (get update "content"), isDict block = true
  terminals : ∀ block ∈ dicts (get update "content"), isBlock "terminal" block = true → isPlain (get block "content") = true
  rawOutput : python.lower (textAt python update "kind") ∈ SessionUpdateNormalizer.executeKinds →
    isPlain (get update "rawOutput") = true
  locations : ∀ location ∈ dicts (get update "locations"),
    isDict location = true ∧ isTextOrFalse python (get location "path") = true
  diffs : ∀ block ∈ dicts (get update "content"), isBlock "diff" block = true →
    isTextOrFalse python (get block "path") = true

/-- The fields that are read of an update are strings. -/
structure Readable (update : JsonObject) : Prop where
  dict : isDict update = true
  content : get update "sessionUpdate" ∈ [Json.str "agent_message_chunk", .str "user_message_chunk",
    .str "agent_thought_chunk"] → isPlain (get update "content") = true
  entries : get update "sessionUpdate" = .str "plan" → ∀ entry ∈ dicts (get update "entries"),
    isDict entry = true ∧ isTextOrFalse python (get entry "content") = true
  call : get update "sessionUpdate" ∈ [Json.str "tool_call", .str "tool_call_update"] → ReadableCall python update

/-! ## Fields -/

variable {python} {platform : Platform} {members : JsonObject} {key : String}

theorem tryGetPropertyValue_eq (h : isDict members = true) (key : String) :
    tryGetPropertyValue members key = .ok (Dict.get? members key) := by
  rw [tryGetPropertyValue, if_pos (of_decide_eq_true h)]
  rfl

theorem item_eq (h : isDict members = true) (key : String) : item members key = .ok (get members key) := by
  rw [item, tryGetPropertyValue_eq h]
  rfl

theorem containsKey_eq (h : isDict members = true) (key : String) :
    SessionUpdateNormalizer.containsKey members key = .ok (Dict.get? members key).isSome := by
  rw [SessionUpdateNormalizer.containsKey, tryGetPropertyValue_eq h]
  rfl

/-- What the port reads of a field. -/
def stringAt (members : JsonObject) (key : String) : String :=
  match Dict.get? members key with
  | some (.str text) => text
  | _ => ""

theorem stringOf_eq (h : isDict members = true) (key : String) :
    SessionUpdateNormalizer.stringOf members key = .ok (stringAt members key) := by
  rw [SessionUpdateNormalizer.stringOf, tryGetPropertyValue_eq h, stringAt]
  cases Dict.get? members key with
  | none => rfl
  | some value => cases value <;> rfl

theorem stringAt_eq (h : isText (Dict.get? members key) = true) : stringAt members key = textAt python members key := by
  rw [stringAt, textAt]
  cases hvalue : Dict.get? members key with
  | none => rfl
  | some value =>
      rw [hvalue] at h
      cases value with
      | str text => rfl
      | null | bool | num | arr | obj => cases h

theorem stringAt_of_str {text : String} (h : get members key = .str text) : stringAt members key = text := by
  rw [get] at h
  rw [stringAt]
  cases hvalue : Dict.get? members key with
  | none =>
      rw [hvalue] at h
      cases h
  | some value =>
      rw [hvalue, Option.getD_some] at h
      rw [h]

theorem stringAt_of_null (h : get members key = .null) : stringAt members key = "" := by
  rw [get] at h
  rw [stringAt]
  cases hvalue : Dict.get? members key with
  | none => rfl
  | some value =>
      rw [hvalue, Option.getD_some] at h
      rw [h]

theorem stringAt_eq_iff {text : String} (htext : text ≠ "") :
    stringAt members key = text ↔ get members key = .str text := by
  constructor
  · intro h
    rw [stringAt] at h
    split at h
    · next s hvalue => rw [get, hvalue, Option.getD_some, h]
    · exact absurd h.symm htext
  · exact stringAt_of_str

/-! ## Content -/

/-- Where the text of a block is read. -/
theorem textBlock_iff (h : isTextBlock members = true ∨ isNamed (get members "type") = true ∨
      (Dict.get? members "text").isNone = true) :
    ((stringAt members "type" = "" ∨ stringAt members "type" = "text") ∧ (Dict.get? members "text").isSome = true) ↔
      isTextBlock members = true := by
  have hblock : isTextBlock members = true ↔
      (get members "type" = .null ∨ get members "type" = .str "text") ∧ (Dict.get? members "text").isSome = true := by
    rw [isTextBlock, Bool.and_eq_true, Bool.or_eq_true, decide_eq_true_eq, decide_eq_true_eq]
  rw [hblock] at h ⊢
  rw [stringAt_eq_iff (by decide : "text" ≠ "")]
  rcases h with ⟨htype, htext⟩ | hnamed | hnone
  · rcases htype with hnull | hstr
    · simp [stringAt_of_null hnull, hnull, htext]
    · simp [hstr, htext]
  · cases htype : get members "type" with
    | str name =>
        rw [htype] at hnamed
        have hname : name ≠ "" := of_decide_eq_true hnamed
        simp [stringAt_of_str htype, hname]
    | null | bool | num | arr | obj =>
        rw [htype] at hnamed
        cases hnamed
  · rw [Option.isNone_iff_eq_none] at hnone
    simp [hnone]

mutual

theorem contentText_eq : ∀ content : Json, isPlain content = true →
    SessionUpdateNormalizer.contentText content = .ok (contentText python content)
  | .null, _ | .bool _, _ | .num _, _ | .str _, _ => by simp only [SessionUpdateNormalizer.contentText, contentText]; rfl
  | .arr items, h => by
      rw [isPlain] at h
      rw [SessionUpdateNormalizer.contentText, contentText]
      exact contentTexts_eq items h
  | .obj members, h => by
      rw [isPlain, Bool.and_eq_true] at h
      obtain ⟨hdict, h⟩ := h
      have hblock : isTextBlock members = true ∨ isNamed (get members "type") = true ∨
          (Dict.get? members "text").isNone = true := by
        split at h
        · next htext => exact .inl htext
        · rw [Bool.and_eq_true, Bool.or_eq_true] at h
          exact .inr h.1
      simp only [SessionUpdateNormalizer.contentText, contentText, stringOf_eq hdict, containsKey_eq hdict, bind,
        Except.bind, textBlock_iff hblock]
      split at h
      · next htext => rw [if_pos htext, if_pos htext, stringAt_eq h]
      · next htext =>
        rw [if_neg htext, if_neg htext]
        rw [Bool.and_eq_true] at h
        have hrest := h.2
        split at hrest
        · next houtput => rw [if_pos houtput, if_pos houtput, stringAt_eq hrest]
        · next houtput =>
          rw [if_neg houtput, if_neg houtput]
          exact contentOf_eq members hrest

theorem contentTexts_eq : ∀ items : List Json, arePlain items = true →
    SessionUpdateNormalizer.contentTexts items = .ok (contentTexts python items)
  | [], _ => rfl
  | item :: items, h => by
      rw [arePlain, Bool.and_eq_true] at h
      rw [SessionUpdateNormalizer.contentTexts, contentText_eq item h.1, contentTexts_eq items h.2, contentTexts]
      rfl

theorem contentOf_eq : ∀ members : List (String × Json), isPlainOf members = true →
    SessionUpdateNormalizer.contentOf members = .ok (contentOf python members)
  | [], _ => rfl
  | (key, value) :: members, h => by
      rw [isPlainOf] at h
      rw [SessionUpdateNormalizer.contentOf, contentOf]
      by_cases hkey : key = "content"
      · rw [if_pos hkey] at h
        rw [if_pos hkey, if_pos hkey]
        exact contentText_eq value h
      · rw [if_neg hkey] at h
        rw [if_neg hkey, if_neg hkey]
        exact contentOf_eq members h

end

/-! ## Lists of dicts -/

theorem objects_eq (value : Json) :
    SessionUpdateNormalizer.objects (SessionUpdateNormalizer.arrayOf value) = dicts value := by
  cases value <;> rfl

theorem mapM_stringOf {items : List JsonObject} (h : ∀ item ∈ items, isDict item = true) (key : String) :
    (items.mapM fun item => SessionUpdateNormalizer.stringOf item key) = .ok (items.map fun item => stringAt item key) :=
  Attempts.mapM_ok fun item hitem => stringOf_eq (h item hitem) key

theorem blocksOf_eq {type : String} (htype : type ≠ "") {blocks : List JsonObject}
    (h : ∀ block ∈ blocks, isDict block = true) :
    SessionUpdateNormalizer.blocksOf type blocks = .ok (blocks.filter (isBlock type)) := by
  refine Attempts.filterM_ok fun block hblock => ?_
  rw [stringOf_eq (h block hblock) "type"]
  show Except.ok (decide (stringAt block "type" = type)) = .ok (isBlock type block)
  rw [isBlock]
  exact congrArg _ (decide_eq_decide.mpr (stringAt_eq_iff htype))

/-- A field that is a string, or not true, is read alike where it is true. -/
theorem truthy_get_iff (h : isTextOrFalse python (get members key) = true) :
    truthy python (get members key) = true ↔ stringAt members key ≠ "" := by
  cases hvalue : get members key with
  | str text =>
      rw [stringAt_of_str hvalue, truthy, decide_eq_true_eq]
  | null | bool | num | arr | obj =>
      rw [hvalue] at h
      simp only [isTextOrFalse, Bool.not_eq_true'] at h
      have hempty : stringAt members key = "" := by
        by_contra hne
        have hstr := (stringAt_eq_iff hne).mp rfl
        rw [hvalue] at hstr
        cases hstr
      rw [h, hempty]
      simp

theorem textAt_of_stringAt (h : stringAt members key ≠ "") : textAt python members key = stringAt members key := by
  have hstr := (stringAt_eq_iff h).mp rfl
  rw [get] at hstr
  rw [textAt]
  cases hvalue : Dict.get? members key with
  | none =>
      rw [hvalue] at hstr
      cases hstr
  | some value =>
      rw [hvalue, Option.getD_some] at hstr
      rw [hstr]
      rfl

theorem textsAt_eq {items : List JsonObject} (h : ∀ item ∈ items, isTextOrFalse python (get item key) = true) :
    textsAt python items key = (items.map fun item => stringAt item key).filter (· ≠ "") := by
  induction items with
  | nil => rfl
  | cons item items ih =>
      obtain ⟨hitem, hitems⟩ := List.forall_mem_cons.mp h
      have hrest := ih hitems
      rw [textsAt] at hrest ⊢
      rw [List.map_cons]
      by_cases hempty : stringAt item key = ""
      · have htruthy : ¬ truthy python (get item key) = true := by
          rw [truthy_get_iff hitem, not_not]
          exact hempty
        rw [List.filter_cons_of_neg (p := fun item : JsonObject => truthy python (get item key)) htruthy,
          List.filter_cons_of_neg (by simpa using hempty), hrest]
      · have htruthy : truthy python (get item key) = true := (truthy_get_iff hitem).mpr hempty
        rw [List.filter_cons_of_pos (p := fun item : JsonObject => truthy python (get item key)) htruthy,
          List.filter_cons_of_pos (by simpa using hempty), List.map_cons, hrest, textAt_of_stringAt hempty]

theorem planSummary_eq {entries : Json}
    (h : ∀ entry ∈ dicts entries, isDict entry = true ∧ isTextOrFalse python (get entry "content") = true) :
    SessionUpdateNormalizer.planSummary entries = .ok (planSummary python entries) := by
  rw [SessionUpdateNormalizer.planSummary, objects_eq, mapM_stringOf fun entry hentry => (h entry hentry).1, planSummary,
    textsAt_eq fun entry hentry => (h entry hentry).2]
  rfl

/-- Putting paths into a list once is what a dict does with its keys. -/
theorem fromKeys_eq (candidates : List String) :
    candidates.foldl (fun found candidate => if candidate ≠ "" ∧ candidate ∉ found then found ++ [candidate] else found) [] =
      fromKeys (candidates.filter (· ≠ "")) := by
  have hfold : ∀ (candidates : List String) (d : Dict String Unit),
      candidates.foldl (fun found candidate =>
        if candidate ≠ "" ∧ candidate ∉ found then found ++ [candidate] else found) d.keys =
      Dict.keys (((candidates.filter (· ≠ "")).map fun path => (path, ())).foldl (fun d item => d.set item.1 item.2) d) := by
    intro candidates
    induction candidates with
    | nil => exact fun _ => rfl
    | cons candidate candidates ih =>
        intro d
        rw [List.foldl_cons]
        by_cases hempty : candidate = ""
        · rw [if_neg (by simp [hempty]), ih, List.filter_cons_of_neg (by simpa using hempty)]
        · rw [List.filter_cons_of_pos (by simpa using hempty), List.map_cons, List.foldl_cons, ← ih]
          congr 1
          by_cases hmem : candidate ∈ d.keys
          · rw [if_neg (by simp [hmem]), Dict.keys_set_of_mem hmem]
          · rw [if_pos ⟨hempty, hmem⟩, Dict.set_of_not_mem hmem]
            simp [Dict.keys]
  exact hfold candidates []

theorem paths_eq {update : JsonObject} {diffs : List JsonObject} (hupdate : isDict update = true)
    (hlocations : ∀ location ∈ dicts (get update "locations"),
      isDict location = true ∧ isTextOrFalse python (get location "path") = true)
    (hdiffs : ∀ diff ∈ diffs, isDict diff = true ∧ isTextOrFalse python (get diff "path") = true) :
    SessionUpdateNormalizer.paths update diffs = .ok (paths python update diffs) := by
  have hall : ∀ item ∈ dicts (get update "locations") ++ diffs, isDict item = true := by
    intro item hitem
    rcases List.mem_append.mp hitem with hmem | hmem
    · exact (hlocations item hmem).1
    · exact (hdiffs item hmem).1
  have hfound : SessionUpdateNormalizer.paths update diffs =
      .ok (((dicts (get update "locations") ++ diffs).map fun item => stringAt item "path").foldl
        (fun found candidate => if candidate ≠ "" ∧ candidate ∉ found then found ++ [candidate] else found) []) := by
    rw [SessionUpdateNormalizer.paths, item_eq hupdate]
    show (do
      let candidates ← (SessionUpdateNormalizer.objects (SessionUpdateNormalizer.arrayOf (get update "locations")) ++
        diffs).mapM fun node => SessionUpdateNormalizer.stringOf node "path"
      _) = _
    rw [objects_eq, mapM_stringOf hall]
    rfl
  rw [hfound, fromKeys_eq, paths, textsAt_eq fun item hitem => (hlocations item hitem).2,
    textsAt_eq fun item hitem => (hdiffs item hitem).2, List.map_append, List.filter_append]

/-! ## Words

No value that is no string is spelled like one of the words that are looked for. -/

/-- A function that makes letters lower makes the kinds of words of ASCII only. -/
def Lowers (lower : String → String) : Prop :=
  ∀ s, ∀ kind ∈ SessionUpdateNormalizer.executeKinds ++ SessionUpdateNormalizer.editKinds,
    lower s = kind ↔ s.toLower = kind

/-- The text of a number begins with a digit or a sign, or is `inf`. -/
def Spells (number : String → String) : Prop :=
  ∀ literal, number literal = "inf" ∨ ∀ c ∈ (number literal).toList.head?, c.isAlpha = false

/-- The types of the updates that are read. -/
def sessionUpdates : List String :=
  ["agent_message_chunk", "user_message_chunk", "agent_thought_chunk", "plan", "tool_call", "tool_call_update"]

/-- The words that are looked for. -/
def words : List String := SessionUpdateNormalizer.executeKinds ++ SessionUpdateNormalizer.editKinds ++ sessionUpdates

theorem toLower_of_not_isAlpha {c : Char} (h : c.isAlpha = false) : c.toLower = c := by
  rcases toLower_cases c with heq | ⟨hupper, _⟩
  · exact heq
  · rw [Char.isAlpha, hupper, Bool.true_or] at h
    cases h

theorem not_mem_words {s : String} {c : Char} (hhead : s.toList.head? = some c) (hc : c.isAlpha = false) :
    s ∉ words ∧ s.toLower ∉ words := by
  have hall : words.all (fun word => word.toList.head?.all Char.isAlpha) = true := by decide
  have hnot : ∀ s : String, s.toList.head? = some c → s ∉ words := by
    intro s hs hmem
    have hword := List.all_eq_true.mp hall s hmem
    rw [hs, Option.all_some, hc] at hword
    cases hword
  refine ⟨hnot s hhead, hnot s.toLower ?_⟩
  rw [String.toLower, String.toList_map, List.head?_map, hhead, Option.map_some, toLower_of_not_isAlpha hc]

theorem spelled_not_mem_words : ∀ s ∈ ["None", "True", "False", "inf", ""], s ∉ words ∧ s.toLower ∉ words := by
  decide +kernel

theorem str_not_mem_words (hnumber : Spells python.number) {value : Json} (h : ∀ s, value ≠ .str s) :
    str python value ∉ words ∧ (str python value).toLower ∉ words := by
  cases value with
  | null => exact spelled_not_mem_words "None" (by decide)
  | bool b =>
      cases b with
      | false => exact spelled_not_mem_words "False" (by decide)
      | true => exact spelled_not_mem_words "True" (by decide)
  | num literal =>
      rcases hnumber literal with hinf | hhead
      · rw [str, hinf]
        exact spelled_not_mem_words "inf" (by decide)
      · rw [str]
        cases hfirst : (python.number literal).toList.head? with
        | none =>
            rw [List.head?_eq_none_iff, String.toList_eq_nil_iff] at hfirst
            rw [hfirst]
            exact spelled_not_mem_words "" (by decide)
        | some c => exact not_mem_words hfirst (hhead c hfirst)
  | str s => exact absurd rfl (h s)
  | arr items => exact not_mem_words (c := '[') (by simp [str]) rfl
  | obj members => exact not_mem_words (c := '{') (by simp [str]) rfl

variable (python) in
theorem textAt_cases (members : JsonObject) (key : String) :
    stringAt members key = textAt python members key ∨
      ∃ value, (∀ s, value ≠ .str s) ∧ stringAt members key = "" ∧ textAt python members key = str python value := by
  rw [stringAt, textAt]
  cases Dict.get? members key with
  | none => exact .inl rfl
  | some value =>
      by_cases hstr : ∃ s, value = .str s
      · obtain ⟨s, rfl⟩ := hstr
        exact .inl rfl
      · refine .inr ⟨value, fun s hs => hstr ⟨s, hs⟩, ?_, rfl⟩
        cases value with
        | str s => exact absurd ⟨s, rfl⟩ hstr
        | null | bool | num | arr | obj => rfl

/-- A word stands in a field for both, or for neither. -/
theorem textAt_eq_iff (hnumber : Spells python.number) {word : String} (hword : word ∈ words) :
    textAt python members key = word ↔ stringAt members key = word := by
  rcases textAt_cases python members key with heq | ⟨value, hvalue, hstring, htext⟩
  · rw [heq]
  · rw [hstring, htext]
    constructor
    · rintro rfl
      exact absurd hword (str_not_mem_words hnumber hvalue).1
    · rintro rfl
      exact absurd hword (by decide)

theorem lower_iff {lower lower' : String → String} (h : Lowers lower) (h' : Lowers lower')
    (hnumber : Spells python.number) {kind : String}
    (hkind : kind ∈ SessionUpdateNormalizer.executeKinds ++ SessionUpdateNormalizer.editKinds) :
    lower (stringAt members key) = kind ↔ lower' (textAt python members key) = kind := by
  rw [h _ kind hkind, h' _ kind hkind]
  rcases textAt_cases python members key with heq | ⟨value, hvalue, hstring, htext⟩
  · rw [heq]
  · have hword : kind ∈ words := List.mem_append_left _ hkind
    rw [hstring, htext]
    constructor
    · rintro rfl
      exact absurd hword (spelled_not_mem_words "" (by decide)).2
    · rintro rfl
      exact absurd hword (str_not_mem_words hnumber hvalue).2

theorem mem_kinds_iff {lower lower' : String → String} (h : Lowers lower) (h' : Lowers lower')
    (hnumber : Spells python.number) {kinds : List String}
    (hkinds : ∀ kind ∈ kinds, kind ∈ SessionUpdateNormalizer.executeKinds ++ SessionUpdateNormalizer.editKinds) :
    lower (stringAt members key) ∈ kinds ↔ lower' (textAt python members key) ∈ kinds := by
  constructor
  · intro hmem
    rw [(lower_iff h h' hnumber (hkinds _ hmem)).mp rfl]
    exact hmem
  · intro hmem
    rw [(lower_iff h h' hnumber (hkinds _ hmem)).mpr rfl]
    exact hmem

/-! ## Tool calls -/

section Calls

variable {update : JsonObject}

theorem titleOf_eq (hupdate : isDict update = true) (h : ReadableCall python update) :
    SessionUpdateNormalizer.titleOf update =
      .ok (orText (textAt python update "title") (textAt python update "toolCallId")) := by
  rw [SessionUpdateNormalizer.titleOf, stringOf_eq hupdate, stringOf_eq hupdate, stringAt_eq h.title, orText]
  by_cases hempty : textAt python update "title" = ""
  · rw [if_pos hempty, ← stringAt_eq (h.toolCallId hempty)]
    exact if_pos hempty
  · rw [if_neg hempty]
    exact if_neg hempty

theorem terminalTextOf_eq (h : ReadableCall python update) :
    SessionUpdateNormalizer.terminalTextOf (dicts (get update "content")) =
      .ok (terminalTextOf python (dicts (get update "content"))) := by
  have htexts : (((dicts (get update "content")).filter (isBlock "terminal")).mapM fun block => do
      SessionUpdateNormalizer.contentText (← item block "content")) =
      .ok (((dicts (get update "content")).filter (isBlock "terminal")).map fun block =>
        contentText python (get block "content")) := by
    refine Attempts.mapM_ok fun block hblock => ?_
    obtain ⟨hmem, hterminal⟩ := List.mem_filter.mp hblock
    rw [item_eq (h.blocks block hmem)]
    exact contentText_eq _ (h.terminals block hmem hterminal)
  rw [SessionUpdateNormalizer.terminalTextOf, blocksOf_eq (by decide) h.blocks]
  show (do
    let texts ← ((dicts (get update "content")).filter (isBlock "terminal")).mapM fun block => do
      SessionUpdateNormalizer.contentText (← item block "content")
    _) = _
  rw [htexts]
  rfl

theorem outputOf_eq (hupdate : isDict update = true) {terminalText : String}
    (h : terminalText = "" → isPlain (get update "rawOutput") = true) :
    SessionUpdateNormalizer.outputOf terminalText update =
      .ok (orText terminalText (contentText python (get update "rawOutput"))) := by
  rw [SessionUpdateNormalizer.outputOf, orText]
  by_cases hempty : terminalText = ""
  · rw [if_neg (not_not_intro hempty), if_pos hempty, item_eq hupdate]
    exact contentText_eq _ (h hempty)
  · rw [if_pos hempty, if_neg hempty]
    rfl

theorem diffSummary_eq (diffs : List JsonObject) :
    diffSummary diffs = if diffs.length = 0 then "" else s!"{diffs.length} file diff(s)" := by
  cases diffs <;> rfl

theorem normalizeToolCall_eq (hlower : Lowers platform.toLowerInvariant) (hlower' : Lowers python.lower)
    (hnumber : Spells python.number) (hupdate : isDict update = true) (h : ReadableCall python update) :
    SessionUpdateNormalizer.normalizeToolCall platform update = .ok (normalizeToolCall python update) := by
  have hpaths := paths_eq hupdate h.locations fun diff hdiff =>
    ⟨h.blocks diff (List.mem_filter.mp hdiff).1, h.diffs diff (List.mem_filter.mp hdiff).1 (List.mem_filter.mp hdiff).2⟩
  have hexecute : platform.toLowerInvariant (stringAt update "kind") ∈ SessionUpdateNormalizer.executeKinds ↔
      python.lower (textAt python update "kind") ∈ SessionUpdateNormalizer.executeKinds :=
    mem_kinds_iff hlower hlower' hnumber fun kind hkind => List.mem_append_left _ hkind
  have hedit : platform.toLowerInvariant (stringAt update "kind") ∈ SessionUpdateNormalizer.editKinds ↔
      python.lower (textAt python update "kind") ∈ SessionUpdateNormalizer.editKinds :=
    mem_kinds_iff hlower hlower' hnumber fun kind hkind => List.mem_append_right _ hkind
  have hstatus : stringAt update "status" = textAt python update "status" := stringAt_eq h.status
  unfold SessionUpdateNormalizer.normalizeToolCall normalizeToolCall
  simp only [stringOf_eq hupdate, titleOf_eq hupdate h, item_eq hupdate, objects_eq, terminalTextOf_eq h,
    blocksOf_eq (by decide : "diff" ≠ "") h.blocks, hpaths, bind, Except.bind, hstatus, hexecute, hedit]
  by_cases hterminal : python.lower (textAt python update "kind") ∈ SessionUpdateNormalizer.executeKinds ∨
      terminalTextOf python (dicts (get update "content")) ≠ ""
  · have hraw : terminalTextOf python (dicts (get update "content")) = "" → isPlain (get update "rawOutput") = true :=
      fun hempty => h.rawOutput (hterminal.resolve_right (not_not_intro hempty))
    have houtput : _ = Except.ok (orText _ (contentText python (get update "rawOutput"))) := outputOf_eq hupdate hraw
    rw [if_pos hterminal, if_pos hterminal, houtput]
    rfl
  · rw [if_neg hterminal, if_neg hterminal]
    by_cases hfile : python.lower (textAt python update "kind") ∈ SessionUpdateNormalizer.editKinds ∨
        (dicts (get update "content")).filter (isBlock "diff") ≠ []
    · rw [if_pos hfile, if_pos hfile, diffSummary_eq]
      rfl
    · rw [if_neg hfile, if_neg hfile]
      by_cases htitle : orText (textAt python update "title") (textAt python update "toolCallId") = ""
      · rw [if_pos htitle, if_pos htitle]
        rfl
      · rw [if_neg htitle, if_neg htitle]
        rfl

end Calls

/-! ## Updates -/

section Updates

variable {update : JsonObject}

theorem saying_eq (kind : UpdateKind) (text : String) (update : JsonObject) :
    SessionUpdateNormalizer.saying kind text update =
      if text = "" then none else some { kind := kind, text := text, raw := some update } := rfl

theorem classify_eq (hlower : Lowers platform.toLowerInvariant) (hlower' : Lowers python.lower)
    (hnumber : Spells python.number) (h : Readable python update) :
    SessionUpdateNormalizer.classify platform update = .ok (classify python update) := by
  have hword : ∀ {word : String}, word ∈ sessionUpdates →
      (textAt python update "sessionUpdate" = word ↔ get update "sessionUpdate" = .str word) := by
    intro word hword
    have hne : word ≠ "" := by
      rintro rfl
      exact absurd hword (by decide)
    rw [textAt_eq_iff hnumber (List.mem_append_right _ hword), stringAt_eq_iff hne]
  have hstring : ∀ {word : String}, word ∈ sessionUpdates →
      (stringAt update "sessionUpdate" = word ↔ textAt python update "sessionUpdate" = word) := by
    intro word hword
    rw [textAt_eq_iff hnumber (List.mem_append_right _ hword)]
  unfold SessionUpdateNormalizer.classify classify
  simp only [stringOf_eq h.dict, item_eq h.dict, bind, Except.bind, saying_eq,
    hstring (by decide : "agent_message_chunk" ∈ sessionUpdates),
    hstring (by decide : "user_message_chunk" ∈ sessionUpdates),
    hstring (by decide : "agent_thought_chunk" ∈ sessionUpdates), hstring (by decide : "plan" ∈ sessionUpdates),
    hstring (by decide : "tool_call" ∈ sessionUpdates), hstring (by decide : "tool_call_update" ∈ sessionUpdates)]
  split
  · next hmessage =>
    rw [hword (by decide), hword (by decide)] at hmessage
    rw [contentText_eq _ (h.content (by rcases hmessage with heq | heq <;> simp [heq]))]
    rfl
  · split
    · next hthought =>
      rw [hword (by decide)] at hthought
      rw [contentText_eq _ (h.content (by simp [hthought]))]
      rfl
    · split
      · next hplan =>
        rw [planSummary_eq (h.entries ((hword (by decide)).mp hplan))]
        rfl
      · split
        · next hcall =>
          rw [hword (by decide), hword (by decide)] at hcall
          exact normalizeToolCall_eq hlower hlower' hnumber h.dict (h.call (by rcases hcall with heq | heq <;> simp [heq]))
        · rfl

end Updates

/-! ### Updates that are read alike, and updates that are not -/

def dotNet : Platform where
  chars := asciiAlphabet
  toLowerInvariant := String.toLower
  lineEnd := ['\n']

/-- `re` takes the long s for an s. -/
def foldLongS (c : Char) : Char := if c = 'ſ' then 's' else c

theorem foldLongS_ascii (a : Char) (h : a.val < 128) : foldLongS a = a := by
  refine if_neg ?_
  rintro rfl
  exact absurd h (by decide)

def cPython : Python where
  chars := asciiAlphabet.through foldLongS foldLongS_ascii
  lower := String.toLower
  repr := Json.toJsonString
  number literal := if literal.toList.head?.any Char.isAlpha then "0" else literal
  isZero literal := literal = "0"

def testRun : JsonObject :=
  [("sessionUpdate", .str "tool_call"), ("title", .str "dotnet test"), ("kind", .str "execute"),
    ("status", .str "completed"), ("content", .arr [.obj [("type", .str "terminal"),
      ("content", .obj [("type", .str "text"), ("text", .str "2 passed")])]])]

/-- What the two records of an update are compared in. -/
structure Facts where
  kind : UpdateKind
  text : String
  paths : List String
  tool : String
  status : String
  deriving DecidableEq

def facts (event : NormalizedUpdate) : Facts where
  kind := event.kind
  text := event.text
  paths := event.paths
  tool := event.tool
  status := event.status

/-- A title, a status and a text that are null, a path and an entry that are numbers, a block whose type is empty, a
name twice, and a secret with a long s. -/
def readApart : List JsonObject :=
  [[("sessionUpdate", .str "tool_call_update"), ("toolCallId", .str "call-1"), ("title", .null)],
    [("sessionUpdate", .str "tool_call"), ("title", .str "ls"), ("status", .null)],
    [("sessionUpdate", .str "agent_message_chunk"), ("content", .obj [("type", .str "text"), ("text", .null)])],
    [("sessionUpdate", .str "tool_call"), ("title", .str "mv"), ("kind", .str "move"),
      ("locations", .arr [.obj [("path", .num "1")]])],
    [("sessionUpdate", .str "plan"), ("entries", .arr [.obj [("content", .num "1")]])],
    [("sessionUpdate", .str "agent_message_chunk"), ("content", .obj [("type", .str ""), ("text", .str "hello")])],
    [("sessionUpdate", .str "agent_message_chunk"), ("sessionUpdate", .str "plan")],
    [("sessionUpdate", .str "agent_message_chunk"), ("content", .str "ſecret: abc")]]

end AtlasFlow.Reference.AcpEvents
