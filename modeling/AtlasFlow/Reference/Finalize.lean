import AtlasFlow.Data.FileTree
import AtlasFlow.Data.Lines
import AtlasFlow.Reference.Discussion
import AtlasFlow.Reference.GoalFile

/-!
# Finalization

`atlas_flow.discuss.finalize`: the accepted decisions of a discussion become files of the project, one ADR for each
that wants one and a ledger of them all. A file that is there already is left alone, so a decision can be left
out: `finalize_records_iff` says when none is.
-/

namespace AtlasFlow.Reference.Finalize

open GoalFile (isSpace)

/-- What Python knows of characters. The upper case of a character may be several, but a slash is the upper case of
a slash only. -/
structure Unicode where
  isAlnum : Char → Bool
  upper : Char → List Char
  isAlnum_slash : isAlnum '/' = false
  mem_upper_slash : ∀ c, '/' ∈ upper c → c = '/'

inductive FinalizeError where
  | runtimeError (message : String)
  | osError (error : FileError)
  deriving DecidableEq, Repr

structure FinalizationResult where
  written : List FilePath := []
  adrCount : Nat := 0
  deriving DecidableEq, Repr

/-! ## The draft -/

/-- The domains of a draft, in the order of its fields. -/
def levels (draft : ProjectDraft) : List (String × Completeness) :=
  [("product", draft.product), ("architecture", draft.architecture), ("ux", draft.ux), ("data", draft.data),
    ("security", draft.security), ("quality", draft.quality), ("operations", draft.operations),
    ("ai_orchestration", draft.aiOrchestration), ("roadmap", draft.roadmap)]

def gapReport (draft : ProjectDraft) : List (String × Completeness) :=
  (levels draft).filter fun level => level.2 ≠ .sufficient

def isComplete (draft : ProjectDraft) : Bool := (levels draft).all fun level => level.2 = .sufficient

/-! ## Texts -/

/-- `", ".join(texts) or otherwise`. -/
def joined (texts : List String) (otherwise : String) : List Char :=
  let text := ", ".toList.intercalate (texts.map String.toList)
  if text = [] then otherwise.toList else text

/-- `f"{index:03d}"`. -/
def padded (index : Nat) : List Char :=
  List.replicate (3 - (Nat.toDigits 10 index).length) '0' ++ Nat.toDigits 10 index

/-- `_slug`. -/
def slug (unicode : Unicode) (title : String) : List Char :=
  let cleaned := title.toList.map fun c => if unicode.isAlnum c || isSpace c then c else ' '
  let words := (cleaned.splitOnP isSpace).filter (· ≠ [])
  let text := ((['-'].intercalate words).flatMap unicode.upper).take 48
  if text = [] then "DECISION".toList else text

/-- `_render_adr`. -/
def renderAdr (index : Nat) (decision : DecisionCandidate) (session : DiscussionSession) : List Char :=
  List.flatten [
    "# ADR-".toList, padded index, ": ".toList, decision.title.toList,
    "\n\n**Status:** Accepted\n**Date:** ".toList, decision.timestamp.toList.take 10,
    "\n**Source:** discussion `".toList, session.id.toList,
    "`\n\n## Decision\n\n".toList, decision.statement.toList,
    "\n\n## Rationale\n\n".toList, decision.rationale.toList,
    "\n\n## Affected domains\n\n".toList, joined decision.affectedDomains "unscoped",
    "\n\n## Provenance\n\nDerived from discussion messages: ".toList,
    joined decision.sourceMessageIds "not linked", "\n".toList]

/-- The title and the statement of a decision, as a row of the ledger begins. -/
def ledgerEntry (decision : DecisionCandidate) : List Char :=
  "| ".toList ++ decision.title.toList ++ " | ".toList ++ decision.statement.toList ++ " | ".toList

def ledgerRow (decision : DecisionCandidate) : List Char :=
  ledgerEntry decision ++ joined decision.affectedDomains "—" ++ " | ".toList ++
    (if decision.requiresAdr then "yes" else "no").toList ++ " |".toList

/-- `_render_ledger`, on a day. -/
def renderLedger (decisions : List DecisionCandidate) (session : DiscussionSession) (today : String) : List Char :=
  ['\n'].intercalate <|
    "# Decision Ledger".toList :: [] ::
    List.flatten ["Generated from discussion `".toList, session.id.toList, "` on ".toList, today.toList, ['.']] :: [] ::
    "| Decision | Statement | Domains | ADR |".toList :: "| --- | --- | --- | --- |".toList ::
    (decisions.map ledgerRow ++ [[]])

/-! ## Artifacts -/

/-- `ADR_DIRECTORY`. -/
def adrDirectory : FilePath := ["docs", "07-decisions"]

/-- `DECISION_LEDGER_PATH`. -/
def ledgerPath : FilePath := ["docs", "01-architecture", "DECISION_LEDGER.md"]

/-- The slug has no slash in it, so this is a path of three names (`slash_not_mem_slug`). -/
def adrPath (unicode : Unicode) (index : Nat) (decision : DecisionCandidate) : FilePath :=
  adrDirectory ++
    [String.ofList ("ADR-".toList ++ padded index ++ '-' :: (slug unicode decision.title ++ ".md".toList))]

def accepted (session : DiscussionSession) : List DecisionCandidate :=
  session.decisions.filter fun d => d.status = .accepted

/-- The accepted decisions that want an ADR, each with its place among the accepted ones. -/
def numbered (session : DiscussionSession) : List (DecisionCandidate × Nat) :=
  ((accepted session).zipIdx 1).filter fun (decision, _) => decision.requiresAdr

def generateArtifacts (unicode : Unicode) (session : DiscussionSession) (today : String) :
    Except FinalizeError (Dict FilePath (List Char)) :=
  if !isComplete session.draft then
    let remaining := ", ".intercalate ((gapReport session.draft).map Prod.fst)
    .error (.runtimeError s!"Cannot finalize: domains incomplete: {remaining}")
  else
    let adrs := (numbered session).map fun (decision, index) =>
      (adrPath unicode index decision, renderAdr index decision session)
    .ok ((Dict.ofItems adrs).set ledgerPath (renderLedger (accepted session) session today))

/-- One turn of the loop of `write_artifacts`. -/
def writeArtifact (overwrite : Bool) (state : FileTree × FinalizationResult) (artifact : FilePath × List Char) :
    Except FileError (FileTree × FinalizationResult) :=
  if state.1.exists_ artifact.1 && !overwrite then .ok state
  else do
    let tree ← FileTree.mkdir state.1 artifact.1.dropLast
    let tree ← FileTree.writeText tree artifact.1 artifact.2
    let adrs := if adrDirectory.isPrefixOf artifact.1 then 1 else 0
    return (tree, ⟨state.2.written ++ [artifact.1], state.2.adrCount + adrs⟩)

def writeArtifacts (unicode : Unicode) (session : DiscussionSession) (today : String) (tree : FileTree)
    (overwrite : Bool) : Except FinalizeError (FileTree × FinalizationResult) := do
  let artifacts ← generateArtifacts unicode session today
  (artifacts.foldlM (writeArtifact overwrite) (tree, {})).mapError .osError

/-! ## Joined and split texts -/

section Texts

variable {sep : List Char} {texts : List (List Char)}

theorem intercalate_cons_cons (sep x y : List Char) (rest : List (List Char)) :
    sep.intercalate (x :: y :: rest) = x ++ (sep ++ sep.intercalate (y :: rest)) := rfl

theorem intercalate_singleton (sep x : List Char) : sep.intercalate [x] = x := List.append_nil x

/-- Each of the texts is in what they are joined to. -/
theorem infix_intercalate {text : List Char} (h : text ∈ texts) : text <:+: sep.intercalate texts := by
  induction texts with
  | nil => cases h
  | cons x rest ih =>
      cases rest with
      | nil =>
          rw [intercalate_singleton, List.mem_singleton.mp h]
      | cons y rest =>
          rw [intercalate_cons_cons]
          rcases List.mem_cons.mp h with rfl | h
          · exact (List.prefix_append _ _).isInfix
          · refine (ih h).trans ?_
            rw [← List.append_assoc]
            exact (List.suffix_append _ _).isInfix

end Texts

/-! ## Paths -/

section Paths

variable {unicode : Unicode} {session : DiscussionSession}

/-- A slug is one name of a path. -/
theorem slash_not_mem_slug (title : String) : '/' ∉ slug unicode title := by
  intro h
  unfold slug at h
  simp only at h
  split at h
  · revert h
    decide
  · obtain ⟨d, hd, hupper⟩ := List.mem_flatMap.mp (List.mem_of_mem_take h)
    rw [unicode.mem_upper_slash d hupper] at hd
    rcases Lines.mem_intercalate hd with hd | ⟨word, hword, hd⟩
    · revert hd
      decide
    · obtain ⟨c, _, hc⟩ := List.mem_map.mp (Lines.mem_of_mem_splitOnP (List.mem_of_mem_filter hword) hd).1
      split at hc
      · next hkept =>
        rw [hc, unicode.isAlnum_slash] at hkept
        revert hkept
        decide
      · revert hc
        decide

theorem isDigit_of_mem_padded {index : Nat} {c : Char} (h : c ∈ padded index) : c.isDigit = true := by
  rcases List.mem_append.mp h with h | h
  · rw [List.eq_of_mem_replicate h]
    decide
  · exact Nat.isDigit_of_mem_toDigits (by decide) (by decide) h

theorem padded_injective : Function.Injective padded := by
  have hread : ∀ index, Nat.ofDigitChars 10 (padded index) 0 = index := by
    intro index
    rw [padded, Nat.ofDigitChars_append, Nat.ofDigitChars_replicate_zero, Nat.mul_zero,
      Nat.ofDigitChars_ten_toDigits]
  exact Function.LeftInverse.injective hread

/-- The number of an ADR can be read off its name. -/
theorem takeWhile_padded (index : Nat) (rest : List Char) :
    (padded index ++ '-' :: rest).takeWhile (· ≠ '-') = padded index := by
  have hdigits : ∀ c ∈ padded index, decide (c ≠ '-') = true := by
    intro c hc
    have hdigit := isDigit_of_mem_padded hc
    refine decide_eq_true ?_
    rintro rfl
    cases hdigit
  rw [List.takeWhile_append_of_pos hdigits]
  simp

theorem adrPath_index {i j : Nat} {d d' : DecisionCandidate} (h : adrPath unicode i d = adrPath unicode j d') :
    i = j := by
  have hname := congrArg (fun path => (path.getLast?.getD "").toList) h
  simp only [adrPath, List.getLast?_append, List.getLast?_singleton, Option.some_or, Option.getD_some,
    String.toList_ofList, List.append_assoc, List.append_cancel_left_eq] at hname
  have hindex := congrArg (List.takeWhile (· ≠ '-')) hname
  rw [takeWhile_padded, takeWhile_padded] at hindex
  exact padded_injective hindex

theorem adrPath_ne_ledgerPath (index : Nat) (decision : DecisionCandidate) :
    adrPath unicode index decision ≠ ledgerPath := by
  simp [adrPath, adrDirectory, ledgerPath]

theorem numbered_nodup (session : DiscussionSession) :
    ((numbered session).map Prod.snd).Nodup := by
  have hall : (((accepted session).zipIdx 1).map Prod.snd).Nodup := by
    rw [List.zipIdx_map_snd]
    exact List.nodup_range'
  exact hall.sublist (List.filter_sublist.map _)

/-- The artifacts of a session, each with its path: the ADRs, and the ledger. -/
def artifactList (unicode : Unicode) (session : DiscussionSession) (today : String) :
    List (FilePath × List Char) :=
  ((numbered session).map fun (decision, index) =>
    (adrPath unicode index decision, renderAdr index decision session)) ++
    [(ledgerPath, renderLedger (accepted session) session today)]

theorem artifactList_nodup (unicode : Unicode) (session : DiscussionSession) (today : String) :
    ((artifactList unicode session today).map Prod.fst).Nodup := by
  rw [artifactList, List.map_append, List.map_map, List.map_singleton, List.nodup_append]
  refine ⟨?_, List.nodup_singleton _, ?_⟩
  · refine List.Nodup.map_on (fun x hx y hy hpath => ?_) (List.Nodup.of_map _ (numbered_nodup session))
    have hindex : x.2 = y.2 := adrPath_index hpath
    exact List.inj_on_of_nodup_map (numbered_nodup session) hx hy hindex
  · intro path hpath ledger hledger heq
    obtain ⟨x, _, rfl⟩ := List.mem_map.mp hpath
    exact adrPath_ne_ledgerPath x.2 x.1 (heq.trans (List.mem_singleton.mp hledger))

theorem artifactList_length {today : String} {artifact : FilePath × List Char}
    (h : artifact ∈ artifactList unicode session today) : artifact.1.length = 3 := by
  rcases List.mem_append.mp h with h | h
  · obtain ⟨x, _, rfl⟩ := List.mem_map.mp h
    rfl
  · rw [List.mem_singleton.mp h]
    rfl

theorem generateArtifacts_ok {today : String} {artifacts : Dict FilePath (List Char)}
    (h : generateArtifacts unicode session today = .ok artifacts) :
    artifacts = artifactList unicode session today := by
  unfold generateArtifacts at h
  split at h
  · cases h
  · cases h
    have hnodup := artifactList_nodup unicode session today
    rw [← Dict.ofItems_of_nodup hnodup, artifactList, Dict.ofItems_append]

end Paths

/-! ## Writing -/

section Writing

variable {unicode : Unicode} {session : DiscussionSession} {tree after : FileTree}
  {result : FinalizationResult}

/-- Without `overwrite` one turn of the loop writes a new file or none. -/
theorem writeArtifact_false {before : FinalizationResult} {artifact : FilePath × List Char}
    (h : writeArtifact false (tree, before) artifact = .ok (after, result)) :
    FileTree.writeNew tree artifact.1 artifact.2 = .ok after := by
  unfold writeArtifact at h
  unfold FileTree.writeNew
  rw [Bool.not_false, Bool.and_true] at h
  split at h
  · next hexists =>
    cases h
    rw [if_pos hexists]
  · next hfree =>
    rw [if_neg hfree]
    cases hdir : FileTree.mkdir tree artifact.1.dropLast with
    | error exc => rw [hdir] at h; cases h
    | ok made =>
        rw [hdir] at h
        change (FileTree.writeText made artifact.1 artifact.2 >>= _) = _ at h
        change FileTree.writeText made artifact.1 artifact.2 = _
        cases hwrite : FileTree.writeText made artifact.1 artifact.2 with
        | error exc => rw [hwrite] at h; cases h
        | ok written => rw [hwrite] at h; cases h; rfl

theorem foldlM_writeArtifact {artifacts : List (FilePath × List Char)} {before : FinalizationResult}
    (h : artifacts.foldlM (writeArtifact false) (tree, before) = .ok (after, result)) :
    FileTree.writeAll tree artifacts = .ok after := by
  induction artifacts generalizing tree before with
  | nil =>
      cases h
      rfl
  | cons artifact artifacts ih =>
      rw [List.foldlM_cons] at h
      cases hfirst : writeArtifact false (tree, before) artifact with
      | error exc => rw [hfirst] at h; cases h
      | ok next =>
          rw [hfirst] at h
          rw [FileTree.writeAll, List.foldlM_cons, writeArtifact_false hfirst]
          exact ih h

theorem writeArtifacts_wrote {today : String}
    (h : writeArtifacts unicode session today tree false = .ok (after, result)) :
    FileTree.Wrote tree after (artifactList unicode session today) := by
  unfold writeArtifacts at h
  cases hartifacts : generateArtifacts unicode session today with
  | error exc => rw [hartifacts] at h; cases h
  | ok artifacts =>
      rw [hartifacts] at h
      change Except.mapError _ (artifacts.foldlM _ _) = _ at h
      rw [generateArtifacts_ok hartifacts] at h
      cases hloop : (artifactList unicode session today).foldlM (writeArtifact false) (tree, {}) with
      | error exc => rw [hloop] at h; cases h
      | ok state =>
          rw [hloop] at h
          cases h
          exact FileTree.writeAll_wrote (by decide : 0 < 3) (fun _ => artifactList_length)
            (artifactList_nodup unicode session today) (foldlM_writeArtifact hloop)

end Writing

/-! ## What is on record -/

/-- The ledger of the project has the title and the statement of a decision. -/
def InLedger (tree : FileTree) (decision : DecisionCandidate) : Prop :=
  ∃ text, tree.get? ledgerPath = some (.file text) ∧ ledgerEntry decision <:+: text

/-- Some file of the project is the ADR of a decision, under whatever number. -/
def HasAdr (tree : FileTree) (session : DiscussionSession) (decision : DecisionCandidate) : Prop :=
  ∃ path index, tree.get? path = some (.file (renderAdr index decision session))

/-- Every accepted decision of a session is on record. -/
structure Records (tree : FileTree) (session : DiscussionSession) : Prop where
  ledger : ∀ d ∈ accepted session, InLedger tree d
  adr : ∀ d ∈ accepted session, d.requiresAdr = true → HasAdr tree session d

/-- Before a session is finalised: there is no ledger, or it has all its accepted decisions already; and for each
of them that wants an ADR there is one already, or the path is free of an ADR that reads like its own but for the
number. -/
structure HasRoom (unicode : Unicode) (tree : FileTree) (session : DiscussionSession) : Prop where
  ledger : tree.get? ledgerPath = none ∨ ∀ d ∈ accepted session, InLedger tree d
  adr : ∀ d ∈ accepted session, d.requiresAdr = true → HasAdr tree session d ∨
    ∃ entry ∈ numbered session, tree.get? (adrPath unicode entry.2 entry.1) = none ∧
      ∃ index, renderAdr entry.2 entry.1 session = renderAdr index d session

section Recording

variable {unicode : Unicode} {session : DiscussionSession} {tree after : FileTree} {today : String}

theorem ledgerEntry_infix {decision : DecisionCandidate} (h : decision ∈ accepted session) :
    ledgerEntry decision <:+: renderLedger (accepted session) session today := by
  have hrow : ledgerEntry decision <:+: ledgerRow decision := by
    rw [ledgerRow, List.append_assoc, List.append_assoc, List.append_assoc]
    exact (List.prefix_append _ _).isInfix
  refine hrow.trans (infix_intercalate ?_)
  have hmem := List.mem_append_left [[]] (List.mem_map_of_mem (f := ledgerRow) h)
  iterate 6 apply List.mem_cons_of_mem
  exact hmem

theorem renderLedger_ne_renderAdr (decision : DecisionCandidate) (index : Nat) :
    renderLedger (accepted session) session today ≠ renderAdr index decision session := by
  intro heq
  have hthird : (renderLedger (accepted session) session today).take 3 =
      (renderAdr index decision session).take 3 := congrArg (List.take 3) heq
  have hledger : (renderLedger (accepted session) session today).take 3 = "# Decision Ledger".toList.take 3 := by
    rw [renderLedger, intercalate_cons_cons, List.take_append_of_le_length (by decide)]
  have hadr : (renderAdr index decision session).take 3 = "# ADR-".toList.take 3 := by
    show (List.flatten ("# ADR-".toList :: _)).take 3 = _
    rw [List.flatten_cons, List.take_append_of_le_length (by decide)]
  rw [hledger, hadr] at hthird
  revert hthird
  decide

theorem inLedger_iff (h : FileTree.Wrote tree after (artifactList unicode session today)) :
    (∀ d ∈ accepted session, InLedger after d) ↔
      tree.get? ledgerPath = none ∨ ∀ d ∈ accepted session, InLedger tree d := by
  cases hold : tree.get? ledgerPath with
  | none =>
      have hwritten : after.get? ledgerPath = some (.file (renderLedger (accepted session) session today)) :=
        h.written (ledgerPath, _) (List.mem_append_right _ (List.mem_singleton_self _)) hold
      exact ⟨fun _ => .inl rfl, fun _ d hd => ⟨_, hwritten, ledgerEntry_infix hd⟩⟩
  | some node =>
      have hsame : ∀ d, InLedger after d ↔ InLedger tree d := by
        intro d
        rw [InLedger, InLedger, h.keeps ledgerPath node hold, hold]
      simp only [hsame, reduceCtorEq, false_or]

theorem hasAdr_iff (h : FileTree.Wrote tree after (artifactList unicode session today)) (d : DecisionCandidate) :
    HasAdr after session d ↔ HasAdr tree session d ∨
      ∃ entry ∈ numbered session, tree.get? (adrPath unicode entry.2 entry.1) = none ∧
        ∃ index, renderAdr entry.2 entry.1 session = renderAdr index d session := by
  constructor
  · rintro ⟨path, index, hfile⟩
    rcases h.only path _ hfile with hold | ⟨hfree, hmem⟩
    · exact .inl ⟨path, index, hold⟩
    · rcases List.mem_append.mp hmem with hmem | hmem
      · obtain ⟨entry, hentry, heq⟩ := List.mem_map.mp hmem
        obtain ⟨rfl, htext⟩ := Prod.ext_iff.mp heq
        exact .inr ⟨entry, hentry, hfree, index, htext⟩
      · have htext := congrArg Prod.snd (List.mem_singleton.mp hmem)
        exact absurd htext.symm (renderLedger_ne_renderAdr d index)
  · rintro (⟨path, index, hfile⟩ | ⟨entry, hentry, hfree, index, htext⟩)
    · exact ⟨path, index, h.keeps path _ hfile⟩
    · refine ⟨adrPath unicode entry.2 entry.1, index, ?_⟩
      rw [← htext]
      exact h.written (adrPath unicode entry.2 entry.1, _)
        (List.mem_append_left _ (List.mem_map.mpr ⟨entry, hentry, rfl⟩)) hfree

theorem records_iff (h : FileTree.Wrote tree after (artifactList unicode session today)) :
    Records after session ↔ HasRoom unicode tree session := by
  have hadr := fun d => hasAdr_iff h d
  constructor
  · intro hrecords
    exact ⟨(inLedger_iff h).mp hrecords.ledger, fun d hd hwants => (hadr d).mp (hrecords.adr d hd hwants)⟩
  · intro hroom
    exact ⟨(inLedger_iff h).mpr hroom.ledger, fun d hd hwants => (hadr d).mpr (hroom.adr d hd hwants)⟩

end Recording

/-! ## Sequences of calls -/

/-- A call of `write_artifacts` without `overwrite`: the session, and the day it is made. -/
structure Call where
  session : DiscussionSession
  today : String

/-- A call that was made: the project before it and after it. -/
structure Made where
  before : FileTree
  session : DiscussionSession
  after : FileTree

/-- The calls of a sequence, each on the project that the one before it left, if none of them raises. -/
def makeAll (unicode : Unicode) (tree : FileTree) : List Call → Except FinalizeError (List Made)
  | [] => .ok []
  | call :: calls => do
    let (after, _) ← writeArtifacts unicode call.session call.today tree false
    let rest ← makeAll unicode after calls
    return ⟨tree, call.session, after⟩ :: rest

/-- Nothing is lost by a call: what was in the project is unchanged, and the session is on record. -/
structure LosesNothing (made : Made) : Prop where
  keeps : FileTree.Keeps made.before made.after
  records : Records made.after made.session

section Sequences

variable {unicode : Unicode} {tree : FileTree} {calls : List Call} {all : List Made}

theorem wrote_of_mem (h : makeAll unicode tree calls = .ok all) {made : Made} (hmade : made ∈ all) :
    ∃ today, FileTree.Wrote made.before made.after (artifactList unicode made.session today) := by
  induction calls generalizing tree all with
  | nil =>
      cases h
      cases hmade
  | cons call calls ih =>
      unfold makeAll at h
      cases hfirst : writeArtifacts unicode call.session call.today tree false with
      | error exc => rw [hfirst] at h; cases h
      | ok first =>
          rw [hfirst] at h
          change (makeAll unicode first.1 calls >>= _) = _ at h
          cases hrest : makeAll unicode first.1 calls with
          | error exc => rw [hrest] at h; cases h
          | ok rest =>
              rw [hrest] at h
              cases h
              rcases List.mem_cons.mp hmade with rfl | hmade
              · exact ⟨call.today, writeArtifacts_wrote hfirst⟩
              · exact ih hrest hmade

end Sequences

/-! ### A discussion that goes on

A session is finalised, another of its decisions is accepted, and it is finalised again. -/

theorem toUpper_eq_slash {c : Char} (h : c.toUpper = '/') : c = '/' := by
  unfold Char.toUpper at h
  split at h
  · next hlower =>
    have hval := congrArg Char.val h
    simp only at hval
    have hfrom := hlower.1
    have hto := hlower.2
    grind
  · exact h

def ascii : Unicode where
  isAlnum := Char.isAlphanum
  upper c := [c.toUpper]
  isAlnum_slash := by decide
  mem_upper_slash c h := toUpper_eq_slash (List.mem_singleton.mp h).symm

def storage : DecisionCandidate where
  id := "dec-1"
  title := "Storage"
  statement := "SQLite"
  rationale := ""
  status := .accepted
  timestamp := "2026-08-11"

def cache : DecisionCandidate where
  id := "dec-2"
  title := "Cache"
  statement := "None"
  rationale := ""
  status := .accepted
  timestamp := "2026-08-12"

def complete : ProjectDraft where
  sessionId := "draft-1"
  product := .sufficient
  architecture := .sufficient
  ux := .sufficient
  data := .sufficient
  security := .sufficient
  quality := .sufficient
  operations := .sufficient
  aiOrchestration := .sufficient
  roadmap := .sufficient

def early : DiscussionSession where
  id := "session-1"
  projectId := "atlas"
  decisions := [storage]
  draft := complete
  startedAt := "2026-08-11"

def late : DiscussionSession := { early with decisions := [storage, cache] }

/-- The project after the first call. -/
def earlyTree : FileTree :=
  [(["docs"], .directory), (["docs", "01-architecture"], .directory),
    (ledgerPath, .file (renderLedger [storage] early "2026-08-11"))]

theorem makeAll_twice : makeAll ascii [] [⟨early, "2026-08-11"⟩, ⟨late, "2026-08-12"⟩] =
    .ok [⟨[], early, earlyTree⟩, ⟨earlyTree, late, earlyTree⟩] := by
  rfl

end AtlasFlow.Reference.Finalize
