import Mathlib.Data.String.Basic
import AtlasFlow.Reference.DiscussionStore

/-!
# What the discussion store remembers

A run of the store is a sequence of calls, on any number of sessions. Its tables hold the latest of the rows that
the calls wrote (`Holds`), so what is loaded for a session is what was saved for it last (`run_remembers`).
-/

namespace AtlasFlow.Reference.DiscussionStore

/-! ## Sequences of calls -/

inductive Call where
  | initializeStore
  | saveSession (session : DiscussionSession)
  | saveMessage (sessionId : String) (message : Message)
  | saveDecision (sessionId : String) (decision : DecisionCandidate)
  | saveDraft (sessionId : String) (draft : ProjectDraft)

namespace Call

/-- The statements of a call that saves. -/
def writes : Call → List Statement
  | .initializeStore => []
  | .saveSession session => DiscussionStore.saveSession session
  | .saveMessage sessionId message => DiscussionStore.saveMessage sessionId message
  | .saveDecision sessionId decision => DiscussionStore.saveDecision sessionId decision
  | .saveDraft sessionId draft => DiscussionStore.saveDraft sessionId draft

def outcome (db : Database) : Call → Except StoreError Unit × Database
  | .initializeStore => executeAll db (DiscussionStore.initializeStore db)
  | call => executeAll db call.writes

/-- The session that a call saves to. -/
def sessionId : Call → Option String
  | .initializeStore => none
  | .saveSession session => some session.id
  | .saveMessage sessionId _ | .saveDecision sessionId _ | .saveDraft sessionId _ => some sessionId

/-! What a call saves for one session. -/

def header (id : String) : Call → Option DiscussionSession
  | .saveSession session => if session.id = id then some session else none
  | _ => none

def messages (id : String) : Call → List Message
  | .saveSession session => if session.id = id then session.messages else []
  | .saveMessage sessionId message => if sessionId = id then [message] else []
  | _ => []

def decisions (id : String) : Call → List DecisionCandidate
  | .saveSession session => if session.id = id then session.decisions else []
  | .saveDecision sessionId decision => if sessionId = id then [decision] else []
  | _ => []

def draft (id : String) : Call → Option ProjectDraft
  | .saveSession session => if session.id = id then some session.draft else none
  | .saveDraft sessionId draft => if sessionId = id then some draft else none
  | _ => none

end Call

/-- A database after some calls, and those of them that returned. -/
structure Ran where
  db : Database
  saved : List Call := []

/-- A caller that catches what a call raises goes on with the next. -/
def Ran.step (ran : Ran) (call : Call) : Ran :=
  match call.outcome ran.db with
  | (.ok (), db) => ⟨db, ran.saved ++ [call]⟩
  | (.error _, db) => ⟨db, ran.saved⟩

def run (db : Database) (calls : List Call) : Ran := calls.foldl Ran.step { db := db }

/-! ## What the tables hold -/

def discussionOf : Statement → Option DiscussionRow
  | .insertDiscussion row => some row
  | _ => none

def messageOf : Statement → Option MessageRow
  | .insertMessage row => some row
  | _ => none

def decisionOf : Statement → Option DecisionRow
  | .insertDecision row => some row
  | _ => none

def draftOf : Statement → Option DraftRow
  | .insertDraft row => some row
  | _ => none

/-- A database after the statements of a log: of the rows that were written, the latest of each key. -/
structure Holds (log : List Statement) (db : Database) : Prop where
  discussions : db.discussions = Log.latest DiscussionRow.id (log.filterMap discussionOf)
  messages : db.messages = .current (Log.latest (fun row => row.id) (log.filterMap messageOf))
  decisions : db.decisions = Log.latest DecisionRow.id (log.filterMap decisionOf)
  drafts : db.drafts = Log.latest DraftRow.sessionId (log.filterMap draftOf)

section Holding

variable {log : List Statement} {db db' : Database} {statement : Statement}

/-- A statement that writes to another table leaves the rows of this one. -/
theorem filterMap_other {ρ : Type} {f : Statement → Option ρ} (h : f statement = none) :
    (log ++ [statement]).filterMap f = log.filterMap f := by
  rw [List.filterMap_append, List.filterMap_cons_none h, List.filterMap_nil, List.append_nil]

theorem filterMap_row {ρ : Type} {f : Statement → Option ρ} {row : ρ} (h : f statement = some row) :
    (log ++ [statement]).filterMap f = log.filterMap f ++ [row] := by
  rw [List.filterMap_append, List.filterMap_cons_some h, List.filterMap_nil]

theorem Holds.after (h : Holds log db) (hok : statement.execute db = .ok db') : Holds (log ++ [statement]) db' := by
  cases statement with
  | addReferences =>
      simp only [Statement.execute, h.messages] at hok
      cases hok
  | insertDiscussion row =>
      cases hok
      refine ⟨?_, ?_, ?_, ?_⟩
      · rw [filterMap_row (f := discussionOf) rfl, h.discussions, Log.upsert_latest]
      · rw [filterMap_other rfl]; exact h.messages
      · rw [filterMap_other rfl]; exact h.decisions
      · rw [filterMap_other rfl]; exact h.drafts
  | insertMessage row =>
      simp only [Statement.execute, h.messages] at hok
      split at hok
      · cases hok
        refine ⟨?_, ?_, ?_, ?_⟩
        · rw [filterMap_other rfl]; exact h.discussions
        · rw [filterMap_row (f := messageOf) rfl, ← Log.upsert_latest]
        · rw [filterMap_other rfl]; exact h.decisions
        · rw [filterMap_other rfl]; exact h.drafts
      · cases hok
  | insertDecision row =>
      simp only [Statement.execute] at hok
      split at hok
      · cases hok
        refine ⟨?_, ?_, ?_, ?_⟩
        · rw [filterMap_other rfl]; exact h.discussions
        · rw [filterMap_other rfl]; exact h.messages
        · rw [filterMap_row (f := decisionOf) rfl, h.decisions, Log.upsert_latest]
        · rw [filterMap_other rfl]; exact h.drafts
      · cases hok
  | insertDraft row =>
      cases hok
      refine ⟨?_, ?_, ?_, ?_⟩
      · rw [filterMap_other rfl]; exact h.discussions
      · rw [filterMap_other rfl]; exact h.messages
      · rw [filterMap_other rfl]; exact h.decisions
      · rw [filterMap_row (f := draftOf) rfl, h.drafts, Log.upsert_latest]

theorem Holds.afterAll {statements : List Statement} (h : Holds log db)
    (hok : executeAll db statements = (.ok (), db')) : Holds (log ++ statements) db' := by
  induction statements generalizing log db with
  | nil =>
      cases hok
      rw [List.append_nil]
      exact h
  | cons statement statements ih =>
      rw [executeAll] at hok
      split at hok
      · next db₁ hfirst =>
        have hall := ih (h.after hfirst) hok
        rwa [List.append_assoc] at hall
      · cases hok

/-! A message or a decision is refused exactly if there is no header of its session. -/

theorem discussionOf_eq_some {row : DiscussionRow} :
    discussionOf statement = some row ↔ statement = .insertDiscussion row := by
  cases statement <;> simp [discussionOf]

theorem Holds.hasDiscussion (h : Holds log db) (id : String) :
    db.hasDiscussion id = true ↔ ∃ row, Statement.insertDiscussion row ∈ log ∧ row.id = id := by
  have hkeys : id ∈ (Log.latest DiscussionRow.id (log.filterMap discussionOf)).map DiscussionRow.id ↔
      id ∈ (log.filterMap discussionOf).map DiscussionRow.id := Log.mem_keys_latest
  rw [← h.discussions] at hkeys
  have hany : db.hasDiscussion id = true ↔ id ∈ db.discussions.map DiscussionRow.id := by
    simp [Database.hasDiscussion]
  rw [hany, hkeys, List.mem_map]
  constructor
  · rintro ⟨row, hrow, rfl⟩
    obtain ⟨statement, hmem, heq⟩ := List.mem_filterMap.mp hrow
    exact ⟨row, discussionOf_eq_some.mp heq ▸ hmem, rfl⟩
  · rintro ⟨row, hmem, rfl⟩
    exact ⟨row, List.mem_filterMap.mpr ⟨_, hmem, rfl⟩, rfl⟩

/-- A statement that is not refused, after the statements of a log. -/
def Allowed (log : List Statement) : Statement → Prop
  | .addReferences => False
  | .insertMessage row => ∃ header, Statement.insertDiscussion header ∈ log ∧ header.id = row.sessionId
  | .insertDecision row => ∃ header, Statement.insertDiscussion header ∈ log ∧ header.id = row.sessionId
  | .insertDiscussion _ | .insertDraft _ => True

theorem Holds.one_ok (h : Holds log db) (hallowed : Allowed log statement) :
    ∃ db', statement.execute db = .ok db' := by
  cases statement with
  | addReferences => exact hallowed.elim
  | insertDiscussion row => exact ⟨_, rfl⟩
  | insertMessage row =>
      simp only [Statement.execute, h.messages, (h.hasDiscussion row.sessionId).mpr hallowed, if_true]
      exact ⟨_, rfl⟩
  | insertDecision row =>
      simp only [Statement.execute, (h.hasDiscussion row.sessionId).mpr hallowed, if_true]
      exact ⟨_, rfl⟩
  | insertDraft row => exact ⟨_, rfl⟩

theorem Allowed.append (h : Allowed log statement) (more : List Statement) : Allowed (log ++ more) statement := by
  cases statement with
  | insertMessage row =>
      obtain ⟨header, hmem, hid⟩ := h
      exact ⟨header, List.mem_append_left _ hmem, hid⟩
  | insertDecision row =>
      obtain ⟨header, hmem, hid⟩ := h
      exact ⟨header, List.mem_append_left _ hmem, hid⟩
  | _ => exact h

theorem Holds.all_ok {statements : List Statement} (h : Holds log db)
    (hallowed : ∀ statement ∈ statements, Allowed log statement) :
    ∃ db', executeAll db statements = (.ok (), db') := by
  induction statements generalizing log db with
  | nil => exact ⟨db, rfl⟩
  | cons statement statements ih =>
      obtain ⟨db₁, hfirst⟩ := h.one_ok (hallowed statement List.mem_cons_self)
      have hrest := ih (h.after hfirst) fun s hs => (hallowed s (List.mem_cons_of_mem _ hs)).append [statement]
      rw [executeAll, hfirst]
      exact hrest

end Holding

/-! ## What was saved -/

/-- The headers of a session that some calls saved, and its messages, decisions and drafts. -/
def savedHeaders (id : String) (calls : List Call) : List DiscussionSession := calls.filterMap (Call.header id)

def savedMessages (id : String) (calls : List Call) : List Message := calls.flatMap (Call.messages id)

def savedDecisions (id : String) (calls : List Call) : List DecisionCandidate := calls.flatMap (Call.decisions id)

def savedDrafts (id : String) (calls : List Call) : List ProjectDraft := calls.filterMap (Call.draft id)

section Saving

variable {id : String} {calls : List Call}

/-- The rows of one table that are written for one session. -/
def rowsFor {ρ : Type} (f : Statement → Option ρ) (session : ρ → String) (id : String) (log : List Statement) :
    List ρ :=
  (log.filterMap f).filter fun row => session row = id

theorem rowsFor_append {ρ : Type} (f : Statement → Option ρ) (session : ρ → String) (id : String)
    (log more : List Statement) :
    rowsFor f session id (log ++ more) = rowsFor f session id log ++ rowsFor f session id more := by
  rw [rowsFor, List.filterMap_append, List.filter_append]
  rfl

theorem saveSession_eq (session : DiscussionSession) : saveSession session =
    [.insertDiscussion (discussionRow session)] ++
      session.messages.map (fun m => .insertMessage (messageRow session.id m)) ++
      session.decisions.map (fun d => .insertDecision (decisionRow session.id d)) ++
      [.insertDraft (draftRow session.id session.draft)] := by
  rw [List.map_eq_flatMap, List.map_eq_flatMap]
  rfl

/-- Statements that write rows of other tables. -/
theorem rowsFor_map_none {α ρ : Type} {f : Statement → Option ρ} {g : α → Statement} (h : ∀ a, f (g a) = none)
    (session : ρ → String) (as : List α) : rowsFor f session id (as.map g) = [] := by
  rw [rowsFor, List.filterMap_map, show f ∘ g = fun _ => none from funext h]
  simp

/-- Statements that write rows of one session. -/
theorem rowsFor_map_some {α ρ : Type} {f : Statement → Option ρ} {g : α → Statement} (row : α → ρ)
    (own : String) (h : ∀ a, f (g a) = some (row a)) {session : ρ → String} (hsession : ∀ a, session (row a) = own)
    (as : List α) : rowsFor f session id (as.map g) = if own = id then as.map row else [] := by
  rw [rowsFor, List.filterMap_map, show f ∘ g = fun a => some (row a) from funext h, List.filterMap_eq_map']
  split
  · next heq => exact List.filter_eq_self.mpr (by simp [hsession, heq])
  · next hne => exact List.filter_eq_nil_iff.mpr (by simp [hsession, hne])

theorem rowsFor_saveSession {ρ : Type} (f : Statement → Option ρ) (of : ρ → String)
    (session : DiscussionSession) :
    rowsFor f of id (saveSession session) =
      rowsFor f of id [.insertDiscussion (discussionRow session)] ++
      rowsFor f of id (session.messages.map fun m => .insertMessage (messageRow session.id m)) ++
      rowsFor f of id (session.decisions.map fun d => .insertDecision (decisionRow session.id d)) ++
      rowsFor f of id [.insertDraft (draftRow session.id session.draft)] := by
  rw [saveSession_eq, rowsFor_append, rowsFor_append, rowsFor_append]

/-- One statement that writes a row. -/
theorem rowsFor_row {ρ : Type} {f : Statement → Option ρ} {statement : Statement} (row : ρ)
    (h : f statement = some row) (session : ρ → String) :
    rowsFor f session id [statement] = if session row = id then [row] else [] := by
  rw [rowsFor, List.filterMap_cons_some h, List.filterMap_nil]
  split
  · next heq => exact List.filter_cons_of_pos (by simpa using heq)
  · next hne => exact List.filter_cons_of_neg (by simpa using hne)

theorem rowsFor_other {ρ : Type} {f : Statement → Option ρ} {statement : Statement} (h : f statement = none)
    (session : ρ → String) : rowsFor f session id [statement] = [] := by
  rw [rowsFor, List.filterMap_cons_none h]
  rfl

theorem discussionRows_writes (id : String) (call : Call) :
    rowsFor discussionOf DiscussionRow.id id call.writes = ((call.header id).map discussionRow).toList := by
  cases call with
  | saveSession session =>
      rw [Call.writes, rowsFor_saveSession, rowsFor_row (discussionRow session) rfl,
        rowsFor_map_none (fun _ => rfl), rowsFor_map_none (fun _ => rfl), rowsFor_other rfl, Call.header,
        discussionRow]
      split <;> rfl
  | _ => rfl

theorem messageRows_writes (id : String) (call : Call) :
    rowsFor messageOf (fun row => row.sessionId) id call.writes = (call.messages id).map (messageRow id) := by
  cases call with
  | saveSession session =>
      rw [Call.writes, rowsFor_saveSession, rowsFor_other rfl,
        rowsFor_map_some (messageRow session.id) session.id (fun _ => rfl) (fun _ => rfl),
        rowsFor_map_none (fun _ => rfl), rowsFor_other rfl, List.nil_append, List.append_nil, List.append_nil,
        Call.messages]
      split
      · next heq => rw [heq]
      · rfl
  | saveMessage own m =>
      rw [Call.writes, saveMessage, rowsFor_row (messageRow own m) rfl, Call.messages, messageRow]
      split
      · next heq => rw [← heq]; rfl
      · rfl
  | _ => rfl

theorem decisionRows_writes (id : String) (call : Call) :
    rowsFor decisionOf DecisionRow.sessionId id call.writes = (call.decisions id).map (decisionRow id) := by
  cases call with
  | saveSession session =>
      rw [Call.writes, rowsFor_saveSession, rowsFor_other rfl, rowsFor_map_none (fun _ => rfl),
        rowsFor_map_some (decisionRow session.id) session.id (fun _ => rfl) (fun _ => rfl), rowsFor_other rfl,
        List.nil_append, List.nil_append, List.append_nil, Call.decisions]
      split
      · next heq => rw [heq]
      · rfl
  | saveDecision own d =>
      rw [Call.writes, saveDecision, rowsFor_row (decisionRow own d) rfl, Call.decisions, decisionRow]
      split
      · next heq => rw [← heq]; rfl
      · rfl
  | _ => rfl

theorem draftRows_writes (id : String) (call : Call) :
    rowsFor draftOf DraftRow.sessionId id call.writes = ((call.draft id).map (draftRow id)).toList := by
  cases call with
  | saveSession session =>
      rw [Call.writes, rowsFor_saveSession, rowsFor_other rfl, rowsFor_map_none (fun _ => rfl),
        rowsFor_map_none (fun _ => rfl), rowsFor_row (draftRow session.id session.draft) rfl, Call.draft,
        draftRow]
      split
      · next heq => rw [← heq]; rfl
      · rfl
  | saveDraft own draft =>
      rw [Call.writes, saveDraft, rowsFor_row (draftRow own draft) rfl, Call.draft, draftRow]
      split
      · next heq => rw [← heq]; rfl
      · rfl
  | _ => rfl

/-- The statements of some calls. -/
def allWrites (calls : List Call) : List Statement := calls.flatMap Call.writes

theorem rowsFor_allWrites {ρ α : Type} {f : Statement → Option ρ} {session : ρ → String}
    {saved : Call → List α} {row : α → ρ} (h : ∀ call, rowsFor f session id call.writes = (saved call).map row)
    (calls : List Call) :
    rowsFor f session id (allWrites calls) = (calls.flatMap saved).map row := by
  induction calls with
  | nil => rfl
  | cons call calls ih =>
      rw [allWrites, List.flatMap_cons, rowsFor_append, h, ← allWrites, ih, List.flatMap_cons, List.map_append]

theorem discussionRows_allWrites (id : String) (calls : List Call) :
    rowsFor discussionOf DiscussionRow.id id (allWrites calls) = (savedHeaders id calls).map discussionRow := by
  rw [savedHeaders, List.filterMap_eq_flatMap_toList]
  refine rowsFor_allWrites (fun call => ?_) calls
  rw [discussionRows_writes, Option.toList_map]

theorem draftRows_allWrites (id : String) (calls : List Call) :
    rowsFor draftOf DraftRow.sessionId id (allWrites calls) = (savedDrafts id calls).map (draftRow id) := by
  rw [savedDrafts, List.filterMap_eq_flatMap_toList]
  refine rowsFor_allWrites (fun call => ?_) calls
  rw [draftRows_writes, Option.toList_map]

theorem messageRows_allWrites (id : String) (calls : List Call) :
    rowsFor messageOf (fun row => row.sessionId) id (allWrites calls) =
      (savedMessages id calls).map (messageRow id) := rowsFor_allWrites (messageRows_writes id) calls

theorem decisionRows_allWrites (id : String) (calls : List Call) :
    rowsFor decisionOf DecisionRow.sessionId id (allWrites calls) =
      (savedDecisions id calls).map (decisionRow id) := rowsFor_allWrites (decisionRows_writes id) calls

theorem savedHeaders_ne_nil :
    savedHeaders id calls ≠ [] ↔ ∃ row, Statement.insertDiscussion row ∈ allWrites calls ∧ row.id = id := by
  have hrows := discussionRows_allWrites id calls
  constructor
  · intro hne
    obtain ⟨session, hsession⟩ := List.exists_mem_of_ne_nil _ hne
    have hmem : discussionRow session ∈ rowsFor discussionOf DiscussionRow.id id (allWrites calls) :=
      hrows ▸ List.mem_map_of_mem hsession
    obtain ⟨hrow, hid⟩ := List.mem_filter.mp hmem
    obtain ⟨statement, hstatement, heq⟩ := List.mem_filterMap.mp hrow
    exact ⟨_, discussionOf_eq_some.mp heq ▸ hstatement, of_decide_eq_true hid⟩
  · rintro ⟨row, hstatement, hid⟩ hnil
    have hmem : row ∈ rowsFor discussionOf DiscussionRow.id id (allWrites calls) :=
      List.mem_filter.mpr ⟨List.mem_filterMap.mpr ⟨_, hstatement, rfl⟩, decide_eq_true hid⟩
    rw [hrows, hnil] at hmem
    cases hmem

end Saving

/-! ## What a sequence of calls leaves -/

/-- A call that is not refused after some calls: a message or a decision needs the header of its session. -/
def Call.Accepted (saved : List Call) : Call → Prop
  | .saveMessage sessionId _ | .saveDecision sessionId _ => savedHeaders sessionId saved ≠ []
  | _ => True

instance (saved : List Call) : (call : Call) → Decidable (call.Accepted saved)
  | .saveMessage sessionId _ => inferInstanceAs (Decidable (savedHeaders sessionId saved ≠ []))
  | .saveDecision sessionId _ => inferInstanceAs (Decidable (savedHeaders sessionId saved ≠ []))
  | .initializeStore | .saveSession _ | .saveDraft _ _ => inferInstanceAs (Decidable True)

section Runs

variable {saved : List Call} {db : Database} {call : Call} {id : String}

theorem executeAll_singleton {statement : Statement} {db' : Database} (h : statement.execute db = .ok db') :
    executeAll db [statement] = (.ok (), db') := by
  rw [executeAll, h]
  rfl

theorem Holds.noDiscussion (h : Holds (allWrites saved) db) (hnil : ¬ savedHeaders id saved ≠ []) :
    db.hasDiscussion id = false := by
  rw [Bool.eq_false_iff, ne_eq, h.hasDiscussion, ← savedHeaders_ne_nil]
  exact hnil

theorem executeAll_singleton_error {statement : Statement} {exc : StoreError}
    (h : statement.execute db = .error exc) : executeAll db [statement] = (.error exc, db) := by
  rw [executeAll, h]

theorem Holds.saveSession_ok (h : Holds (allWrites saved) db) (session : DiscussionSession) :
    ∃ db', executeAll db (saveSession session) = (.ok (), db') := by
  have hfirst : (Statement.insertDiscussion (discussionRow session)).execute db = .ok _ := rfl
  have hallowed : ∀ statement ∈ session.messages.flatMap (saveMessage session.id) ++
      session.decisions.flatMap (saveDecision session.id) ++ saveDraft session.id session.draft,
      Allowed (allWrites saved ++ [.insertDiscussion (discussionRow session)]) statement := by
    intro statement hmem
    have hheader : ∃ header, Statement.insertDiscussion header ∈
        allWrites saved ++ [.insertDiscussion (discussionRow session)] ∧ header.id = session.id :=
      ⟨discussionRow session, by simp, rfl⟩
    rcases List.mem_append.mp hmem with hmem | hmem
    · rcases List.mem_append.mp hmem with hmem | hmem
      · obtain ⟨m, _, hm⟩ := List.mem_flatMap.mp hmem
        rw [List.mem_singleton.mp hm]
        exact hheader
      · obtain ⟨d, _, hd⟩ := List.mem_flatMap.mp hmem
        rw [List.mem_singleton.mp hd]
        exact hheader
    · rw [List.mem_singleton.mp hmem]
      trivial
  obtain ⟨db', hrest⟩ := (h.after hfirst).all_ok hallowed
  refine ⟨db', ?_⟩
  rw [saveSession, List.append_assoc, List.append_assoc, List.singleton_append, executeAll, hfirst,
    ← List.append_assoc]
  exact hrest

/-- A call returns and its statements are done, or it is refused and changes nothing. -/
theorem Holds.outcome (h : Holds (allWrites saved) db) (call : Call) :
    (call.Accepted saved ∧ ∃ db', call.outcome db = (.ok (), db') ∧ Holds (allWrites (saved ++ [call])) db') ∨
      ¬ call.Accepted saved ∧ ∃ exc, call.outcome db = (.error exc, db) := by
  have hwrites : allWrites (saved ++ [call]) = allWrites saved ++ call.writes := by simp [allWrites]
  rw [hwrites]
  cases call with
  | initializeStore =>
      refine .inl ⟨trivial, db, ?_, ?_⟩
      · rw [Call.outcome, initializeStore, h.messages]
        rfl
      · rw [Call.writes, List.append_nil]
        exact h
  | saveSession session =>
      obtain ⟨db', hok⟩ := h.saveSession_ok session
      exact .inl ⟨trivial, db', hok, h.afterAll hok⟩
  | saveMessage sessionId message =>
      by_cases haccepted : savedHeaders sessionId saved ≠ []
      · have hallowed : Allowed (allWrites saved) (.insertMessage (messageRow sessionId message)) :=
          savedHeaders_ne_nil.mp haccepted
        obtain ⟨db', hok⟩ := h.one_ok hallowed
        have hall := executeAll_singleton hok
        exact .inl ⟨haccepted, db', hall, h.afterAll hall⟩
      · have hrefused : (Statement.insertMessage (messageRow sessionId message)).execute db =
            .error (.integrityError "FOREIGN KEY constraint failed") := by
          simp only [Statement.execute, h.messages, messageRow, h.noDiscussion haccepted]
          rfl
        exact .inr ⟨haccepted, _, executeAll_singleton_error hrefused⟩
  | saveDecision sessionId decision =>
      by_cases haccepted : savedHeaders sessionId saved ≠ []
      · have hallowed : Allowed (allWrites saved) (.insertDecision (decisionRow sessionId decision)) :=
          savedHeaders_ne_nil.mp haccepted
        obtain ⟨db', hok⟩ := h.one_ok hallowed
        have hall := executeAll_singleton hok
        exact .inl ⟨haccepted, db', hall, h.afterAll hall⟩
      · have hrefused : (Statement.insertDecision (decisionRow sessionId decision)).execute db =
            .error (.integrityError "FOREIGN KEY constraint failed") := by
          simp only [Statement.execute, decisionRow, h.noDiscussion haccepted]
          rfl
        exact .inr ⟨haccepted, _, executeAll_singleton_error hrefused⟩
  | saveDraft sessionId draft =>
      have hok : executeAll db (saveDraft sessionId draft) = (.ok (), _) := rfl
      exact .inl ⟨trivial, _, hok, h.afterAll hok⟩

theorem step_of_accepted {ran : Ran} (h : Holds (allWrites ran.saved) ran.db) (haccepted : call.Accepted ran.saved) :
    (ran.step call).saved = ran.saved ++ [call] := by
  obtain ⟨_, db', hok, _⟩ := (h.outcome call).resolve_right fun hrefused => hrefused.1 haccepted
  rw [Ran.step, hok]

theorem step_of_refused {ran : Ran} (h : Holds (allWrites ran.saved) ran.db) (hrefused : ¬ call.Accepted ran.saved) :
    ran.step call = ran := by
  obtain ⟨_, exc, herror⟩ := (h.outcome call).resolve_left fun hok => hrefused hok.1
  rw [Ran.step, herror]

theorem holds_step {ran : Ran} (h : Holds (allWrites ran.saved) ran.db) (call : Call) :
    Holds (allWrites (ran.step call).saved) (ran.step call).db := by
  rcases h.outcome call with ⟨_, db', hok, hafter⟩ | ⟨hrefused, _⟩
  · rw [Ran.step, hok]
    exact hafter
  · rw [step_of_refused h hrefused]
    exact h

theorem run_append (db : Database) (calls : List Call) (call : Call) :
    run db (calls ++ [call]) = (run db calls).step call := by
  rw [run, List.foldl_append]
  rfl

/-- A database in which nothing was saved yet, whatever release made its tables. -/
structure Database.Empty (db : Database) : Prop where
  discussions : db.discussions = []
  messages : db.messages = .old [] ∨ db.messages = .current []
  decisions : db.decisions = []
  drafts : db.drafts = []

theorem holds_initializeStore (h : db.Empty) :
    Holds (allWrites (run db [.initializeStore]).saved) (run db [.initializeStore]).db := by
  obtain ⟨discussions, messages, decisions, drafts⟩ := db
  obtain ⟨rfl, hmessages, rfl, rfl⟩ := h
  rcases hmessages with rfl | rfl
  · exact ⟨rfl, rfl, rfl, rfl⟩
  · exact ⟨rfl, rfl, rfl, rfl⟩

theorem holds_run (h : db.Empty) (calls : List Call) :
    Holds (allWrites (run db (.initializeStore :: calls)).saved) (run db (.initializeStore :: calls)).db := by
  induction calls using List.reverseRecOn with
  | nil => exact holds_initializeStore h
  | append_singleton calls call ih =>
      rw [← List.cons_append, run_append]
      exact holds_step ih call

theorem saved_subset (db : Database) (calls : List Call) : ∀ call ∈ (run db calls).saved, call ∈ calls := by
  induction calls using List.reverseRecOn with
  | nil => simp [run]
  | append_singleton calls call ih =>
      intro c hc
      rw [run_append, Ran.step] at hc
      split at hc
      · rcases List.mem_append.mp hc with hc | hc
        · exact List.mem_append_left _ (ih c hc)
        · exact List.mem_append_right _ hc
      · exact List.mem_append_left _ (ih c hc)

end Runs

/-! ## What is loaded -/

/-- A message, or a decision, is saved for one session only. -/
structure DistinctIds (calls : List Call) : Prop where
  messages : ∀ id id', ∀ m ∈ savedMessages id calls, ∀ m' ∈ savedMessages id' calls, m.id = m'.id → id = id'
  decisions : ∀ id id', ∀ d ∈ savedDecisions id calls, ∀ d' ∈ savedDecisions id' calls, d.id = d'.id → id = id'

/-- What is loaded for a session of which `header` was saved last. -/
structure Restores (sessionId : String) (saved : List Call) (header session : DiscussionSession) : Prop where
  id : session.id = sessionId
  projectId : session.projectId = header.projectId
  title : session.title = header.title
  startedAt : session.startedAt = header.startedAt
  messages : session.messages.Perm (Log.latest Message.id (savedMessages sessionId saved))
  messagesInOrder : session.messages.Pairwise fun m m' => m.timestamp ≤ m'.timestamp
  decisions : session.decisions.Perm (Log.latest DecisionCandidate.id (savedDecisions sessionId saved))
  decisionsInOrder : session.decisions.Pairwise fun d d' => d.timestamp ≤ d'.timestamp
  draft : ∃ draft, (savedDrafts sessionId saved).getLast? = some draft ∧ session.draft = { draft with sessionId }

section Loading

variable {saved : List Call} {db : Database} {id : String}

theorem DistinctIds.mono {calls : List Call} (h : DistinctIds calls) (hsub : ∀ call ∈ saved, call ∈ calls) :
    DistinctIds saved := by
  have hmessages : ∀ id, ∀ m ∈ savedMessages id saved, m ∈ savedMessages id calls := by
    intro id m hm
    obtain ⟨call, hcall, hm⟩ := List.mem_flatMap.mp hm
    exact List.mem_flatMap.mpr ⟨call, hsub call hcall, hm⟩
  have hdecisions : ∀ id, ∀ d ∈ savedDecisions id saved, d ∈ savedDecisions id calls := by
    intro id d hd
    obtain ⟨call, hcall, hd⟩ := List.mem_flatMap.mp hd
    exact List.mem_flatMap.mpr ⟨call, hsub call hcall, hd⟩
  constructor
  · exact fun id id' m hm m' hm' => h.messages id id' m (hmessages id m hm) m' (hmessages id' m' hm')
  · exact fun id id' d hd d' hd' => h.decisions id id' d (hdecisions id d hd) d' (hdecisions id' d' hd')

/-- The rows of one session in a table that holds the latest rows of all sessions. -/
theorem filter_latest_rows {ρ α : Type} {f : Statement → Option ρ} {session : ρ → String}
    {row : String → α → ρ} (rowId : ρ → String) (key : α → String) {savedFor : String → List α} {log : List Statement}
    (hkey : ∀ id a, rowId (row id a) = key a)
    (hrows : ∀ id, rowsFor f session id log = (savedFor id).map (row id))
    (hdistinct : ∀ id id', ∀ a ∈ savedFor id, ∀ a' ∈ savedFor id', key a = key a' → id = id') (id : String) :
    (Log.latest rowId (log.filterMap f)).filter (fun r => session r = id) =
      (Log.latest key (savedFor id)).map (row id) := by
  have hof : ∀ r ∈ log.filterMap f, ∃ a ∈ savedFor (session r), row (session r) a = r := by
    intro r hr
    have hmem : r ∈ rowsFor f session (session r) log := List.mem_filter.mpr ⟨hr, decide_eq_true rfl⟩
    rw [hrows] at hmem
    exact List.mem_map.mp hmem
  have hsame : ∀ r ∈ log.filterMap f, ∀ r' ∈ log.filterMap f, rowId r = rowId r' →
      decide (session r = id) = decide (session r' = id) := by
    intro r hr r' hr' heq
    obtain ⟨a, ha, hra⟩ := hof r hr
    obtain ⟨a', ha', hra'⟩ := hof r' hr'
    rw [← hra, ← hra', hkey, hkey] at heq
    rw [hdistinct _ _ a ha a' ha' heq]
  rw [Log.filter_latest hsame, ← rowsFor, hrows, Log.latest_map (hkey id)]

/-- Rows of one session are read back, in whatever order they come. -/
theorem mapM_rows {ρ α ε : Type} {read : ρ → Except ε α} {row : α → ρ} (h : ∀ a, read (row a) = .ok a)
    {rows : List ρ} {as : List α} (hperm : rows.Perm (as.map row)) :
    ∃ bs, rows.mapM read = .ok bs ∧ bs.Perm as ∧ bs.map row = rows := by
  have hinjective : Function.Injective row := by
    intro a b hab
    have hread : (.ok a : Except ε α) = .ok b := by rw [← h a, hab, h]
    exact Except.ok.inj hread
  have hback : ∀ rs : List ρ, (∀ r ∈ rs, r ∈ as.map row) → ∃ bs : List α, bs.map row = rs := by
    intro rs
    induction rs with
    | nil => exact fun _ => ⟨[], rfl⟩
    | cons r rs ih =>
        intro hrs
        obtain ⟨a, _, ha⟩ := List.mem_map.mp (hrs r List.mem_cons_self)
        obtain ⟨bs, hbs⟩ := ih fun r' hr' => hrs r' (List.mem_cons_of_mem _ hr')
        exact ⟨a :: bs, by rw [List.map_cons, ha, hbs]⟩
  obtain ⟨bs, rfl⟩ := hback rows fun r hr => hperm.mem_iff.mp hr
  exact ⟨bs, Attempts.mapM_map_self h bs, (List.map_perm_map_iff hinjective).mp hperm, rfl⟩

/-- Rows that SQLite has put in order are read back in that order. -/
theorem mapM_sort {ρ α ε : Type} {read : ρ → Except ε α} {row : α → ρ} (h : ∀ a, read (row a) = .ok a)
    (order : OrderBy) (time : ρ → String) (timestamp : α → String) (htime : ∀ a, time (row a) = timestamp a)
    (as : List α) : ∃ bs, (order.sort time (as.map row)).mapM read = .ok bs ∧ bs.Perm as ∧
      bs.Pairwise fun b b' => timestamp b ≤ timestamp b' := by
  obtain ⟨bs, hread, hperm, hrows⟩ := mapM_rows h (order.perm time (as.map row))
  have hsorted := order.sorted time (as.map row)
  rw [← hrows, List.pairwise_map] at hsorted
  refine ⟨bs, hread, hperm, hsorted.imp fun hle => ?_⟩
  rwa [htime, htime] at hle

theorem Holds.loadMessages (h : Holds (allWrites saved) db) (hdistinct : DistinctIds saved) (order : OrderBy)
    (id : String) : loadMessages order db id =
      (order.sort (fun row => row.timestamp)
        ((Log.latest Message.id (savedMessages id saved)).map (messageRow id))).mapM readMessage := by
  have hrows := filter_latest_rows (fun row : MessageRow => row.id) Message.id (fun _ _ => rfl)
    (fun id => messageRows_allWrites id saved) hdistinct.messages id
  rw [DiscussionStore.loadMessages, h.messages, ← hrows]

theorem Holds.loadDecisions (h : Holds (allWrites saved) db) (hdistinct : DistinctIds saved) (order : OrderBy)
    (id : String) : loadDecisions order db id =
      (order.sort DecisionRow.timestamp
        ((Log.latest DecisionCandidate.id (savedDecisions id saved)).map (decisionRow id))).mapM readDecision := by
  have hrows := filter_latest_rows DecisionRow.id DecisionCandidate.id (fun _ _ => rfl)
    (fun id => decisionRows_allWrites id saved) hdistinct.decisions id
  rw [DiscussionStore.loadDecisions, h.decisions, ← hrows]

/-- In a table with one row a session there is the row that was written last. -/
theorem filter_latest_one {ρ α : Type} {f : Statement → Option ρ} {session : ρ → String} {row : α → ρ}
    {savedFor : List α} {log : List Statement} (hrows : rowsFor f session id log = savedFor.map row) :
    (Log.latest session (log.filterMap f)).filter (fun r => session r = id) =
      (savedFor.getLast?.map row).toList := by
  have hone : ∀ r ∈ rowsFor f session id log, session r = id :=
    fun r hr => of_decide_eq_true (List.mem_filter.mp hr).2
  rw [Log.filter_latest fun r _ r' _ heq => by rw [heq], ← rowsFor, Log.latest_one_key hone, hrows,
    List.getLast?_map]

theorem Holds.headerRows (h : Holds (allWrites saved) db) (id : String) :
    (db.discussions.filter fun row => row.id = id) = ((savedHeaders id saved).getLast?.map discussionRow).toList := by
  rw [h.discussions, filter_latest_one (discussionRows_allWrites id saved)]

theorem Holds.draftRows (h : Holds (allWrites saved) db) (id : String) :
    (db.drafts.filter fun row => row.sessionId = id) = ((savedDrafts id saved).getLast?.map (draftRow id)).toList := by
  rw [h.drafts, filter_latest_one (draftRows_allWrites id saved)]

theorem header_eq_some {call : Call} {session : DiscussionSession} :
    call.header id = some session ↔ call = .saveSession session ∧ session.id = id := by
  cases call with
  | saveSession own =>
      rw [Call.header]
      split
      · next heq => grind
      · next hne => grind
  | _ => simp [Call.header]

/-- Whoever saved a header saved a draft with it. -/
theorem exists_draft {header : DiscussionSession} (h : header ∈ savedHeaders id saved) :
    ∃ draft, (savedDrafts id saved).getLast? = some draft := by
  obtain ⟨call, hcall, hheader⟩ := List.mem_filterMap.mp h
  obtain ⟨rfl, hid⟩ := header_eq_some.mp hheader
  have hdraft : header.draft ∈ savedDrafts id saved :=
    List.mem_filterMap.mpr ⟨_, hcall, by rw [Call.draft, if_pos hid]⟩
  exact ⟨_, List.getLast?_eq_some_getLast (List.ne_nil_of_mem hdraft)⟩

theorem Holds.loadDraft (h : Holds (allWrites saved) db) {draft : ProjectDraft}
    (hdraft : (savedDrafts id saved).getLast? = some draft) :
    loadDraft db id = .ok { draft with sessionId := id } := by
  have hrows := h.draftRows id
  rw [hdraft] at hrows
  rw [DiscussionStore.loadDraft, hrows]
  exact readDraft_row id draft

theorem Holds.loadSession_none (h : Holds (allWrites saved) db) (order : OrderBy)
    (hnil : savedHeaders id saved = []) : loadSession order db id = .ok none := by
  have hheaders := h.headerRows id
  rw [hnil] at hheaders
  rw [loadSession, hheaders]
  rfl

theorem Holds.loadSession_some (h : Holds (allWrites saved) db) (hdistinct : DistinctIds saved) (order : OrderBy)
    {header : DiscussionSession} (hlast : (savedHeaders id saved).getLast? = some header) :
    ∃ session, loadSession order db id = .ok (some session) ∧ Restores id saved header session := by
  have hheaders := h.headerRows id
  rw [hlast] at hheaders
  obtain ⟨ms, hms, hmsPerm, hmsSorted⟩ := mapM_sort (readMessage_row id) order (fun row => row.timestamp)
    Message.timestamp (fun _ => rfl) (Log.latest Message.id (savedMessages id saved))
  obtain ⟨ds, hds, hdsPerm, hdsSorted⟩ := mapM_sort (readDecision_row id) order DecisionRow.timestamp
    DecisionCandidate.timestamp (fun _ => rfl) (Log.latest DecisionCandidate.id (savedDecisions id saved))
  obtain ⟨draft, hdraft⟩ := exists_draft (List.mem_of_getLast? hlast)
  obtain ⟨call, _, hheader⟩ := List.mem_filterMap.mp (List.mem_of_getLast? hlast)
  have hid : header.id = id := (header_eq_some.mp hheader).2
  rw [loadSession, hheaders]
  show ∃ session, (do
    let messages ← DiscussionStore.loadMessages order db id
    let decisions ← DiscussionStore.loadDecisions order db id
    let draft ← DiscussionStore.loadDraft db id
    return some (DiscussionSession.mk header.id header.projectId header.title messages decisions draft
      header.startedAt)) = Except.ok (some session) ∧ _
  rw [h.loadMessages hdistinct, hms, h.loadDecisions hdistinct, hds, h.loadDraft hdraft]
  exact ⟨_, rfl, hid, rfl, rfl, rfl, hmsPerm, hmsSorted, hdsPerm, hdsSorted, draft, hdraft, rfl⟩

/-- What is loaded for a session depends on what was saved for it. -/
theorem loadSession_congr {saved' : List Call} {db' : Database} (h : Holds (allWrites saved) db)
    (h' : Holds (allWrites saved') db') (hdistinct : DistinctIds saved) (hdistinct' : DistinctIds saved')
    (order : OrderBy) (hheaders : savedHeaders id saved' = savedHeaders id saved)
    (hmessages : savedMessages id saved' = savedMessages id saved)
    (hdecisions : savedDecisions id saved' = savedDecisions id saved)
    (hdrafts : savedDrafts id saved' = savedDrafts id saved) : loadSession order db' id = loadSession order db id := by
  rw [loadSession, loadSession, h'.headerRows, h.headerRows, hheaders, h'.loadMessages hdistinct',
    h.loadMessages hdistinct, hmessages, h'.loadDecisions hdistinct', h.loadDecisions hdistinct, hdecisions,
    loadDraft, loadDraft, h'.draftRows, h.draftRows, hdrafts]

/-- A call to another session saves nothing for this one. -/
theorem saved_other {call : Call} (h : call.sessionId ≠ some id) (saved : List Call) :
    savedHeaders id (saved ++ [call]) = savedHeaders id saved ∧
      savedMessages id (saved ++ [call]) = savedMessages id saved ∧
      savedDecisions id (saved ++ [call]) = savedDecisions id saved ∧
      savedDrafts id (saved ++ [call]) = savedDrafts id saved := by
  have hcall : call.header id = none ∧ call.messages id = [] ∧ call.decisions id = [] ∧ call.draft id = none := by
    cases call with
    | initializeStore => exact ⟨rfl, rfl, rfl, rfl⟩
    | _ =>
        rw [Call.sessionId, ne_eq, Option.some_inj] at h
        simp [Call.header, Call.messages, Call.decisions, Call.draft, h]
  obtain ⟨hheader, hmessages, hdecisions, hdraft⟩ := hcall
  refine ⟨?_, ?_, ?_, ?_⟩
  · rw [savedHeaders, List.filterMap_append, List.filterMap_cons_none hheader, List.filterMap_nil, List.append_nil]
    rfl
  · rw [savedMessages, List.flatMap_append, List.flatMap_singleton, hmessages, List.append_nil]
    rfl
  · rw [savedDecisions, List.flatMap_append, List.flatMap_singleton, hdecisions, List.append_nil]
    rfl
  · rw [savedDrafts, List.filterMap_append, List.filterMap_cons_none hdraft, List.filterMap_nil, List.append_nil]
    rfl

end Loading

/-- What the store remembers of one session after some calls on a database. -/
structure Remembers (order : OrderBy) (db : Database) (calls : List Call) (id : String) : Prop where
  /-- A message or a decision is refused while its session has no header, and nothing else is. -/
  returns : ∀ call, (run db (calls ++ [call])).saved =
    if call.Accepted (run db calls).saved then (run db calls).saved ++ [call] else (run db calls).saved
  absent : savedHeaders id (run db calls).saved = [] → loadSession order (run db calls).db id = .ok none
  restores : ∀ header, (savedHeaders id (run db calls).saved).getLast? = some header →
    ∃ session, loadSession order (run db calls).db id = .ok (some session) ∧
      Restores id (run db calls).saved header session
  others : ∀ call, call.sessionId ≠ some id → DistinctIds (calls ++ [call]) →
    loadSession order (run db (calls ++ [call])).db id = loadSession order (run db calls).db id

theorem DistinctIds.initializeStore {calls : List Call} (h : DistinctIds calls) :
    DistinctIds (.initializeStore :: calls) := ⟨h.messages, h.decisions⟩

/-- The store forgets nothing, whatever sequence of calls it is given. -/
theorem run_remembers (order : OrderBy) {db : Database} (hempty : db.Empty) {calls : List Call}
    (hdistinct : DistinctIds calls) (id : String) : Remembers order db (.initializeStore :: calls) id := by
  have hholds := holds_run hempty calls
  have hsaved := hdistinct.initializeStore.mono (saved_subset db (.initializeStore :: calls))
  refine ⟨fun call => ?_, fun hnil => hholds.loadSession_none order hnil,
    fun header hlast => hholds.loadSession_some hsaved order hlast, fun call hcall hmore => ?_⟩
  · rw [run_append]
    split
    · next haccepted => exact step_of_accepted hholds haccepted
    · next hrefused => rw [step_of_refused hholds hrefused]
  · have hholds' := holds_run hempty (calls ++ [call])
    have hsaved' := hmore.mono (saved_subset db (.initializeStore :: (calls ++ [call])))
    rw [← List.cons_append] at hholds' hsaved'
    obtain ⟨hheaders, hmessages, hdecisions, hdrafts⟩ := saved_other hcall (run db (.initializeStore :: calls)).saved
    by_cases haccepted : call.Accepted (run db (.initializeStore :: calls)).saved
    · have hafter := step_of_accepted hholds haccepted
      rw [← run_append] at hafter
      rw [← hafter] at hheaders hmessages hdecisions hdrafts
      exact loadSession_congr hholds hholds' hsaved hsaved' order hheaders hmessages hdecisions hdrafts
    · rw [run_append, step_of_refused hholds haccepted]

/-! ### Two sessions -/

/-- Rows of one text in the order of the table. -/
def OrderBy.stable : OrderBy where
  sort key rows := rows.mergeSort fun a b => decide (key a ≤ key b)
  perm _ _ := List.mergeSort_perm _ _
  sorted key rows := by
    have htrans : ∀ a b c, decide (key a ≤ key b) = true → decide (key b ≤ key c) = true →
        decide (key a ≤ key c) = true :=
      fun a b c hab hbc => decide_eq_true (le_trans (of_decide_eq_true hab) (of_decide_eq_true hbc))
    have htotal : ∀ a b, (decide (key a ≤ key b) || decide (key b ≤ key a)) = true := by
      intro a b
      rw [Bool.or_eq_true, decide_eq_true_eq, decide_eq_true_eq]
      exact le_total (key a) (key b)
    exact (List.pairwise_mergeSort htrans htotal rows).imp of_decide_eq_true

def question : Message where
  id := "msg-1"
  timestamp := "2026-08-11T09:00:00+00:00"
  content := "Which database?"
  references := [{ path := "docs/data.md", mimeType := some "text/markdown" }]

def alpha : DiscussionSession where
  id := "session-alpha"
  projectId := "atlas"
  messages := [question]
  draft := { sessionId := "draft-1", data := .partly }
  startedAt := "2026-08-11T08:59:00+00:00"

def beta : DiscussionSession where
  id := "session-beta"
  projectId := "atlas"
  draft := { sessionId := "draft-2" }
  startedAt := "2026-08-11T10:00:00+00:00"

/-- A message is edited, and a message is saved for a session that has no header yet. -/
def twoSessions : List Call :=
  [.saveSession alpha, .saveMessage alpha.id { question with content := "Which databases?" },
    .saveMessage beta.id { question with id := "msg-2" }, .saveSession beta]

theorem mem_savedMessages_twoSessions {id : String} {m : Message} (h : m ∈ savedMessages id twoSessions) :
    id = alpha.id ∧ m.id = "msg-1" ∨ id = beta.id ∧ m.id = "msg-2" := by
  obtain ⟨call, hcall, hm⟩ := List.mem_flatMap.mp h
  simp only [twoSessions, List.mem_cons, List.not_mem_nil, or_false] at hcall
  rcases hcall with rfl | rfl | rfl | rfl
  all_goals simp only [Call.messages] at hm
  all_goals split at hm
  all_goals grind [alpha, beta, question]

theorem run_remembers_twoSessions :
    Remembers OrderBy.stable { messages := .old [] } (.initializeStore :: twoSessions) alpha.id := by
  refine run_remembers OrderBy.stable ⟨rfl, .inl rfl, rfl, rfl⟩ ⟨?_, ?_⟩ alpha.id
  · intro id id' m hm m' hm' heq
    have hmem := mem_savedMessages_twoSessions hm
    have hmem' := mem_savedMessages_twoSessions hm'
    grind
  · intro id id' d hd
    simp [savedDecisions, twoSessions, Call.decisions, alpha, beta] at hd

end AtlasFlow.Reference.DiscussionStore
