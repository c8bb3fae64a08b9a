import AtlasFlow.Data.Latest
import AtlasFlow.Data.PyJson
import AtlasFlow.Reference.Discussion
import AtlasFlow.Data.Attempts

/-!
# The discussion store

`atlas_flow.discuss.store`: discussions in four tables of the operational database. A save is a sequence of
statements, each of them committed when it is done; lists and references are kept as JSON texts. A load puts a
discussion together from the rows that have its id.
-/

namespace AtlasFlow.Reference.DiscussionStore

open SqlValues (text)

inductive StoreError where
  | integrityError (message : String)
  | operationalError (message : String)
  | indexError (message : String)
  | jsonDecodeError
  | validationError (message : String)
  | raised (exc : PyExn)
  deriving DecidableEq, Repr

/-! ## JSON columns -/

/-- `json.dumps`. -/
def dumps (j : Json) : String := String.ofList (PyJson.dumps j)

/-- `json.loads`. -/
def loads (s : String) : Except StoreError Json :=
  match PyJson.loads s.toList with
  | some j => .ok j
  | none => .error .jsonDecodeError

/-- `reference.model_dump(mode="json")`. -/
def modelDump (reference : MessageReference) : Json :=
  .obj [("path", .str reference.path), ("kind", .str (text reference.kind)), ("label", .str reference.label),
    ("mime_type", reference.mimeType.elim .null .str)]

/-- A text field of `MessageReference`. -/
def textField (item : Json) (name : String) (missing : Except StoreError String) : Except StoreError String :=
  match item.get? name with
  | none => missing
  | some (.str s) => .ok s
  | some _ => .error (.validationError s!"{name}: Input should be a valid string")

/-- `MessageReference.model_validate`. -/
def modelValidate (item : Json) : Except StoreError MessageReference := do
  let .obj _ := item
    | .error (.validationError "Input should be a valid dictionary or instance of MessageReference")
  let path ← textField item "path" (.error (.validationError "path: Field required"))
  let kind ← match item.get? "kind" with
    | none => .ok ReferenceKind.file
    | some (.str s) => (member s).mapError fun _ => .validationError "kind: Input should be 'file' or 'image'"
    | some _ => .error (.validationError "kind: Input should be 'file' or 'image'")
  let label ← textField item "label" (.ok "")
  let mimeType ← match item.get? "mime_type" with
    | none | some .null => .ok none
    | some (.str s) => .ok (some s)
    | some _ => .error (.validationError "mime_type: Input should be a valid string")
  return { path, kind, label, mimeType }

/-- A field of the type `list[str]`, from what a column held. -/
def stringList : Json → Except StoreError (List String)
  | .arr items => items.mapM fun
    | .str s => .ok s
    | _ => .error (.validationError "Input should be a valid string")
  | _ => .error (.validationError "Input should be a valid list")

/-! ## The tables -/

structure DiscussionRow where
  id : String
  projectId : String
  title : String
  startedAt : String
  deriving DecidableEq, Repr

/-- A row of `discussion_messages` as it was before messages had references. -/
structure OldMessageRow where
  id : String
  sessionId : String
  timestamp : String
  content : String
  turnType : String
  deriving DecidableEq, Repr

structure MessageRow extends OldMessageRow where
  referencesJson : String
  deriving DecidableEq, Repr

structure DecisionRow where
  id : String
  sessionId : String
  title : String
  statement : String
  rationale : String
  status : String
  timestamp : String
  affectedDomains : String
  sourceMessageIds : String
  canonicalTargets : String
  supersedes : Option String
  requiresAdr : Int
  deriving DecidableEq, Repr

structure DraftRow where
  sessionId : String
  product : String
  architecture : String
  ux : String
  data : String
  security : String
  quality : String
  operations : String
  aiOrchestration : String
  roadmap : String
  deriving DecidableEq, Repr

/-- `discussion_messages`, without the column `references_json` if an earlier release made it. -/
inductive MessageTable where
  | old (rows : List OldMessageRow)
  | current (rows : List MessageRow)
  deriving DecidableEq, Repr

/-- The tables of the store. One that is not there yet is empty. -/
structure Database where
  discussions : List DiscussionRow := []
  messages : MessageTable := .current []
  decisions : List DecisionRow := []
  drafts : List DraftRow := []
  deriving DecidableEq, Repr

inductive Statement where
  | addReferences
  | insertDiscussion (row : DiscussionRow)
  | insertMessage (row : MessageRow)
  | insertDecision (row : DecisionRow)
  | insertDraft (row : DraftRow)
  deriving DecidableEq, Repr

def Database.hasDiscussion (db : Database) (id : String) : Bool := db.discussions.any fun row => row.id = id

/-- `INSERT OR REPLACE` looks at foreign keys when it is done, so replacing a discussion leaves its messages and
decisions where they are. -/
def Statement.execute (db : Database) : Statement → Except StoreError Database
  | .addReferences => match db.messages with
    | .old rows => .ok { db with messages := .current (rows.map fun row => { row with referencesJson := "[]" }) }
    | .current _ => .error (.operationalError "duplicate column name: references_json")
  | .insertDiscussion row => .ok { db with discussions := Table.upsert DiscussionRow.id row db.discussions }
  | .insertMessage row => match db.messages with
    | .old _ => .error (.operationalError "table discussion_messages has no column named references_json")
    | .current rows =>
      if db.hasDiscussion row.sessionId then
        .ok { db with messages := .current (Table.upsert (fun row => row.id) row rows) }
      else .error (.integrityError "FOREIGN KEY constraint failed")
  | .insertDecision row =>
    if db.hasDiscussion row.sessionId then
      .ok { db with decisions := Table.upsert DecisionRow.id row db.decisions }
    else .error (.integrityError "FOREIGN KEY constraint failed")
  | .insertDraft row => .ok { db with drafts := Table.upsert DraftRow.sessionId row db.drafts }

/-- Statements one after another, up to the first that raises. -/
def executeAll (db : Database) : List Statement → Except StoreError Unit × Database
  | [] => (.ok (), db)
  | statement :: statements =>
    match statement.execute db with
    | .ok db => executeAll db statements
    | .error exc => (.error exc, db)

/-! ## Saving -/

def discussionRow (session : DiscussionSession) : DiscussionRow where
  id := session.id
  projectId := session.projectId
  title := session.title
  startedAt := session.startedAt

def messageRow (sessionId : String) (message : Message) : MessageRow where
  id := message.id
  sessionId := sessionId
  timestamp := message.timestamp
  content := message.content
  turnType := message.turnType
  referencesJson := dumps (.arr (message.references.map modelDump))

/-- `int(b)`. -/
def intOf (b : Bool) : Int := if b then 1 else 0

/-- `bool(n)`. -/
def boolOf (n : Int) : Bool := n ≠ 0

def dumpsTexts (texts : List String) : String := dumps (.arr (texts.map .str))

def decisionRow (sessionId : String) (decision : DecisionCandidate) : DecisionRow where
  id := decision.id
  sessionId := sessionId
  title := decision.title
  statement := decision.statement
  rationale := decision.rationale
  status := text decision.status
  timestamp := decision.timestamp
  affectedDomains := dumpsTexts decision.affectedDomains
  sourceMessageIds := dumpsTexts decision.sourceMessageIds
  canonicalTargets := dumpsTexts decision.canonicalTargets
  supersedes := decision.supersedes
  requiresAdr := intOf decision.requiresAdr

def draftRow (sessionId : String) (draft : ProjectDraft) : DraftRow where
  sessionId := sessionId
  product := text draft.product
  architecture := text draft.architecture
  ux := text draft.ux
  data := text draft.data
  security := text draft.security
  quality := text draft.quality
  operations := text draft.operations
  aiOrchestration := text draft.aiOrchestration
  roadmap := text draft.roadmap

def saveMessage (sessionId : String) (message : Message) : List Statement :=
  [.insertMessage (messageRow sessionId message)]

def saveDecision (sessionId : String) (decision : DecisionCandidate) : List Statement :=
  [.insertDecision (decisionRow sessionId decision)]

def saveDraft (sessionId : String) (draft : ProjectDraft) : List Statement :=
  [.insertDraft (draftRow sessionId draft)]

def saveSession (session : DiscussionSession) : List Statement :=
  [.insertDiscussion (discussionRow session)] ++ session.messages.flatMap (saveMessage session.id) ++
    session.decisions.flatMap (saveDecision session.id) ++ saveDraft session.id session.draft

/-- What is left of `initialize` after the script that makes the tables that are missing. -/
def initializeStore (db : Database) : List Statement :=
  match db.messages with
  | .old _ => [.addReferences]
  | .current _ => []

/-! ## Loading -/

/-- `ORDER BY` a text: the rows in that order. Which of two rows with one text comes first is up to SQLite. -/
structure OrderBy where
  sort {ρ : Type} (key : ρ → String) (rows : List ρ) : List ρ
  perm {ρ : Type} (key : ρ → String) (rows : List ρ) : (sort key rows).Perm rows
  sorted {ρ : Type} (key : ρ → String) (rows : List ρ) : (sort key rows).Pairwise fun a b => key a ≤ key b

/-- What is read of the column `references_json`. -/
def readReferences (column : String) : Except StoreError (List MessageReference) := do
  match ← loads (if column = "" then "[]" else column) with
  | .arr items => items.mapM modelValidate
  | .obj members => members.mapM fun m => modelValidate (.str m.1)
  | .str s => s.toList.mapM fun c => modelValidate (.str (String.ofList [c]))
  | _ => .error (.raised (.exception "object is not iterable"))

def readMessage (row : MessageRow) : Except StoreError Message := do
  return {
    id := row.id
    timestamp := row.timestamp
    content := row.content
    turnType := row.turnType
    references := ← readReferences row.referencesJson }

def readDecision (row : DecisionRow) : Except StoreError DecisionCandidate := do
  let status ← (member row.status).mapError .raised
  let affectedDomains ← loads row.affectedDomains
  let sourceMessageIds ← loads row.sourceMessageIds
  let canonicalTargets ← loads row.canonicalTargets
  return {
    id := row.id
    title := row.title
    statement := row.statement
    rationale := row.rationale
    status := status
    timestamp := row.timestamp
    affectedDomains := ← stringList affectedDomains
    sourceMessageIds := ← stringList sourceMessageIds
    canonicalTargets := ← stringList canonicalTargets
    supersedes := row.supersedes
    requiresAdr := boolOf row.requiresAdr }

def readDraft (sessionId : String) (row : DraftRow) : Except StoreError ProjectDraft :=
  Except.mapError .raised do
    return {
      sessionId := sessionId
      product := ← member row.product
      architecture := ← member row.architecture
      ux := ← member row.ux
      data := ← member row.data
      security := ← member row.security
      quality := ← member row.quality
      operations := ← member row.operations
      aiOrchestration := ← member row.aiOrchestration
      roadmap := ← member row.roadmap }

def loadMessages (order : OrderBy) (db : Database) (sessionId : String) : Except StoreError (List Message) :=
  match db.messages with
  | .old rows =>
    if rows.any fun row => row.sessionId = sessionId then .error (.indexError "No item with that key") else .ok []
  | .current rows => (order.sort (fun row => row.timestamp) (rows.filter fun row => row.sessionId = sessionId)).mapM
    readMessage

def loadDecisions (order : OrderBy) (db : Database) (sessionId : String) :
    Except StoreError (List DecisionCandidate) :=
  (order.sort DecisionRow.timestamp (db.decisions.filter fun row => row.sessionId = sessionId)).mapM readDecision

def loadDraft (db : Database) (sessionId : String) : Except StoreError ProjectDraft :=
  match db.drafts.filter fun row => row.sessionId = sessionId with
  | [] => .ok { sessionId := sessionId }
  | row :: _ => readDraft sessionId row

def loadSession (order : OrderBy) (db : Database) (sessionId : String) :
    Except StoreError (Option DiscussionSession) :=
  match db.discussions.filter fun row => row.id = sessionId with
  | [] => .ok none
  | header :: _ => do
    let messages ← loadMessages order db sessionId
    let decisions ← loadDecisions order db sessionId
    let draft ← loadDraft db sessionId
    return some {
      id := header.id
      projectId := header.projectId
      title := header.title
      startedAt := header.startedAt
      messages := messages
      decisions := decisions
      draft := draft }

/-! ## A row is read back -/

theorem loads_dumps {j : Json} (h : PyJson.isPlain j = true) : loads (dumps j) = .ok j := by
  rw [loads, dumps, String.toList_ofList, PyJson.loads_dumps h]

theorem dumps_ne_empty (items : List Json) : dumps (.arr items) ≠ "" := by
  intro h
  have hnil := congrArg String.toList h
  rw [dumps, String.toList_ofList, PyJson.dumps] at hnil
  cases hnil

theorem arePlain_map {α : Type} {f : α → Json} (h : ∀ a, PyJson.isPlain (f a) = true) (as : List α) :
    PyJson.arePlain (as.map f) = true := by
  induction as with
  | nil => rfl
  | cons a as ih => rw [List.map_cons, PyJson.arePlain, h, ih, Bool.and_self]

theorem modelValidate_modelDump (reference : MessageReference) :
    modelValidate (modelDump reference) = .ok reference := by
  obtain ⟨path, kind, label, mimeType⟩ := reference
  cases mimeType with
  | none => cases kind <;> rfl
  | some mime => cases kind <;> rfl

theorem isPlain_modelDump (reference : MessageReference) : PyJson.isPlain (modelDump reference) = true := by
  obtain ⟨path, kind, label, mimeType⟩ := reference
  cases mimeType <;> rfl

theorem readReferences_dumps (references : List MessageReference) :
    readReferences (dumps (.arr (references.map modelDump))) = .ok references := by
  have hplain : PyJson.isPlain (.arr (references.map modelDump)) = true := arePlain_map isPlain_modelDump references
  have hread := Attempts.mapM_map_self modelValidate_modelDump references
  rw [readReferences, if_neg (dumps_ne_empty _), loads_dumps hplain]
  exact hread

theorem readMessage_row (sessionId : String) (message : Message) :
    readMessage (messageRow sessionId message) = .ok message := by
  rw [readMessage, messageRow, readReferences_dumps]
  rfl

theorem loads_dumpsTexts (texts : List String) : loads (dumpsTexts texts) = .ok (.arr (texts.map .str)) :=
  loads_dumps (arePlain_map (fun _ => rfl) texts)

theorem stringList_texts (texts : List String) : stringList (.arr (texts.map .str)) = .ok texts := by
  exact Attempts.mapM_map_self (f := fun
    | Json.str s => Except.ok (ε := StoreError) s
    | _ => .error (.validationError "Input should be a valid string")) (e := Json.str) (fun _ => rfl) texts

theorem boolOf_intOf (b : Bool) : boolOf (intOf b) = b := by cases b <;> rfl

theorem readDecision_row (sessionId : String) (decision : DecisionCandidate) :
    readDecision (decisionRow sessionId decision) = .ok decision := by
  have hread : readDecision (decisionRow sessionId decision) = (do
      let affectedDomains ← stringList (.arr (decision.affectedDomains.map .str))
      let sourceMessageIds ← stringList (.arr (decision.sourceMessageIds.map .str))
      let canonicalTargets ← stringList (.arr (decision.canonicalTargets.map .str))
      let requiresAdr := boolOf (intOf decision.requiresAdr)
      return { decision with affectedDomains, sourceMessageIds, canonicalTargets, requiresAdr }) := by
    simp only [readDecision, decisionRow, member_text, loads_dumpsTexts]
    rfl
  rw [hread, stringList_texts, stringList_texts, stringList_texts, boolOf_intOf]
  rfl

theorem readDraft_row (sessionId : String) (draft : ProjectDraft) :
    readDraft sessionId (draftRow sessionId draft) = .ok { draft with sessionId } := by
  simp only [readDraft, draftRow, member_text]
  rfl

end AtlasFlow.Reference.DiscussionStore
