import AtlasFlow.Reference.Discussion

/-!
# The decision ledger

`atlas_flow.discuss.ledger`: the decisions of a session are proposed, accepted, rejected and superseded. A
decision is an object that the list of the session holds, so an assignment to what `find` returned is an
assignment to the first decision of that id in the list.
-/

namespace AtlasFlow.Reference.DecisionLedger

open SqlValues (text)

/-- A method of the ledger: what it did to the session stays when it raises. -/
abbrev Ledger (α : Type) : Type := ExceptT PyExn (StateM DiscussionSession) α

/-! ## The four methods -/

/-- `decision.status = status`, for the decision that `find` returns. -/
def assign (decisionId : String) (status : DecisionState) : List DecisionCandidate → List DecisionCandidate
  | [] => []
  | d :: ds => if d.id = decisionId then { d with status } :: ds else d :: assign decisionId status ds

def setStatus (decisionId : String) (status : DecisionState) : Ledger Unit :=
  modify fun session => { session with decisions := assign decisionId status session.decisions }

def append (candidate : DecisionCandidate) : Ledger Unit :=
  modify fun session => { session with decisions := session.decisions ++ [candidate] }

/-- `_find`. -/
def find (decisionId : String) : Ledger DecisionCandidate := do
  let session ← get
  match session.decisions.find? fun d => d.id = decisionId with
  | some d => return d
  | none => throw (.keyError s!"Decision {decisionId} not found in session {session.id}")

def propose (candidate : DecisionCandidate) : Ledger Unit := do
  let session ← get
  if candidate.id ∈ session.decisions.map (·.id) then
    throw (.valueError s!"Decision {candidate.id} already exists")
  append candidate

def accept (decisionId : String) : Ledger DecisionCandidate := do
  let decision ← find decisionId
  if decision.status ≠ .proposed then
    throw (.valueError s!"Cannot accept decision {decisionId} in state {text decision.status}")
  setStatus decisionId .accepted
  return { decision with status := .accepted }

def reject (decisionId : String) : Ledger DecisionCandidate := do
  let decision ← find decisionId
  if decision.status ∉ [DecisionState.proposed, .accepted] then
    throw (.valueError s!"Cannot reject decision {decisionId} in state {text decision.status}")
  setStatus decisionId .rejected
  return { decision with status := .rejected }

/-- Unlike `propose`, it does not look whether the id of the new candidate is taken. -/
def supersede (oldId : String) (newCandidate : DecisionCandidate) : Ledger DecisionCandidate := do
  let old ← find oldId
  if old.status ≠ .accepted then
    throw (.valueError s!"Cannot supersede decision {oldId} in state {text old.status} — must be ACCEPTED")
  setStatus oldId .superseded
  let newCandidate := { newCandidate with supersedes := some oldId }
  append newCandidate
  return newCandidate

/-! ## Sequences of calls -/

inductive Call where
  | propose (candidate : DecisionCandidate)
  | accept (decisionId : String)
  | reject (decisionId : String)
  | supersede (oldId : String) (newCandidate : DecisionCandidate)

namespace Call

def perform : Call → Ledger Unit
  | .propose candidate => DecisionLedger.propose candidate
  | .accept decisionId => do let _ ← DecisionLedger.accept decisionId
  | .reject decisionId => do let _ ← DecisionLedger.reject decisionId
  | .supersede oldId newCandidate => do let _ ← DecisionLedger.supersede oldId newCandidate

/-- What a call raises, if it does, and the session after it. -/
def outcome (call : Call) (session : DiscussionSession) : Except PyExn Unit × DiscussionSession :=
  StateT.run (ExceptT.run call.perform) session

end Call

/-- The session after some calls. A caller that catches what a call raises goes on with the next. -/
def run (session : DiscussionSession) (calls : List Call) : DiscussionSession :=
  calls.foldl (fun session call => (call.outcome session).2) session

/-! ## What a call does -/

/-- What a call that does not raise makes of the session. -/
inductive Effect (session : DiscussionSession) : Call → List DecisionCandidate → Prop
  | propose {candidate : DecisionCandidate} (hfresh : candidate.id ∉ session.decisions.map (·.id)) :
      Effect session (.propose candidate) (session.decisions ++ [candidate])
  | accept {decisionId : String} {d : DecisionCandidate}
      (hfind : session.decisions.find? (fun d => d.id = decisionId) = some d) (hstatus : d.status = .proposed) :
      Effect session (.accept decisionId) (assign decisionId .accepted session.decisions)
  | reject {decisionId : String} {d : DecisionCandidate}
      (hfind : session.decisions.find? (fun d => d.id = decisionId) = some d)
      (hstatus : d.status = .proposed ∨ d.status = .accepted) :
      Effect session (.reject decisionId) (assign decisionId .rejected session.decisions)
  | supersede {oldId : String} {newCandidate old : DecisionCandidate}
      (hfind : session.decisions.find? (fun d => d.id = oldId) = some old) (hstatus : old.status = .accepted) :
      Effect session (.supersede oldId newCandidate)
        (assign oldId .superseded session.decisions ++ [{ newCandidate with supersedes := some oldId }])

section Run

variable {session : DiscussionSession} {decisionId : String} {candidate d : DecisionCandidate}

theorem run_find (session : DiscussionSession) (decisionId : String) :
    StateT.run (ExceptT.run (find decisionId)) session =
      match session.decisions.find? (fun d => d.id = decisionId) with
      | some d => (.ok d, session)
      | none => (.error (.keyError s!"Decision {decisionId} not found in session {session.id}"), session) := by
  change StateT.run (ExceptT.run (match session.decisions.find? (fun d => d.id = decisionId) with
    | some d => pure d
    | none => throw _)) session = _
  cases session.decisions.find? (fun d => d.id = decisionId) <;> rfl

/-- What follows the search for a decision, on the decision found. -/
theorem run_find_bind {α : Type} (next : DecisionCandidate → Ledger α) :
    StateT.run (ExceptT.run (find decisionId >>= next)) session =
      match session.decisions.find? (fun d => d.id = decisionId) with
      | some d => StateT.run (ExceptT.run (next d)) session
      | none => (.error (.keyError s!"Decision {decisionId} not found in session {session.id}"), session) := by
  rw [ExceptT.run_bind, StateT.run_bind, run_find]
  cases session.decisions.find? (fun d => d.id = decisionId) <;> rfl

/-- A call is its method, less what the method returns. -/
theorem run_ignoring {α : Type} {method : Ledger α} {result : Except PyExn α} {after : DiscussionSession}
    (h : StateT.run (ExceptT.run method) session = (result, after)) :
    StateT.run (ExceptT.run (do let _ ← method : Ledger Unit)) session = (result.map fun _ => (), after) := by
  rw [ExceptT.run_bind, StateT.run_bind, h]
  cases result <;> rfl

theorem run_propose (session : DiscussionSession) (candidate : DecisionCandidate) :
    StateT.run (ExceptT.run (propose candidate)) session =
      if candidate.id ∈ session.decisions.map (·.id) then
        (.error (.valueError s!"Decision {candidate.id} already exists"), session)
      else (.ok (), { session with decisions := session.decisions ++ [candidate] }) := by
  change StateT.run (ExceptT.run (if candidate.id ∈ session.decisions.map (·.id) then
    throw _ >>= fun _ => append candidate else append candidate)) session = _
  split <;> rfl

/-- Each of the other methods raises and leaves the session, or finds a decision in a state that it takes. -/
theorem run_accept (session : DiscussionSession) (decisionId : String) :
    (∃ exn, StateT.run (ExceptT.run (accept decisionId)) session = (.error exn, session)) ∨
      ∃ d, session.decisions.find? (fun d => d.id = decisionId) = some d ∧ d.status = .proposed ∧
        StateT.run (ExceptT.run (accept decisionId)) session = (.ok { d with status := .accepted },
          { session with decisions := assign decisionId .accepted session.decisions }) := by
  unfold accept
  rw [run_find_bind]
  cases session.decisions.find? (fun d => d.id = decisionId) with
  | none => exact .inl ⟨_, rfl⟩
  | some d =>
      cases hstatus : d.status with
      | proposed => exact .inr ⟨d, rfl, hstatus, by simp only [hstatus]; rfl⟩
      | _ => exact .inl ⟨_, by simp only [hstatus]; rfl⟩

theorem run_reject (session : DiscussionSession) (decisionId : String) :
    (∃ exn, StateT.run (ExceptT.run (reject decisionId)) session = (.error exn, session)) ∨
      ∃ d, session.decisions.find? (fun d => d.id = decisionId) = some d ∧
        (d.status = .proposed ∨ d.status = .accepted) ∧
        StateT.run (ExceptT.run (reject decisionId)) session = (.ok { d with status := .rejected },
          { session with decisions := assign decisionId .rejected session.decisions }) := by
  unfold reject
  rw [run_find_bind]
  cases session.decisions.find? (fun d => d.id = decisionId) with
  | none => exact .inl ⟨_, rfl⟩
  | some d =>
      cases hstatus : d.status with
      | proposed => exact .inr ⟨d, rfl, .inl hstatus, by simp only [hstatus]; rfl⟩
      | accepted => exact .inr ⟨d, rfl, .inr hstatus, by simp only [hstatus]; rfl⟩
      | _ => exact .inl ⟨_, by simp only [hstatus]; rfl⟩

theorem run_supersede (session : DiscussionSession) (oldId : String) (newCandidate : DecisionCandidate) :
    ((∀ old, session.decisions.find? (fun d => d.id = oldId) = some old → old.status ≠ .accepted) ∧
      ∃ exn, StateT.run (ExceptT.run (supersede oldId newCandidate)) session = (.error exn, session)) ∨
      ∃ old, session.decisions.find? (fun d => d.id = oldId) = some old ∧ old.status = .accepted ∧
        StateT.run (ExceptT.run (supersede oldId newCandidate)) session =
          (.ok { newCandidate with supersedes := some oldId },
            { session with decisions := assign oldId .superseded session.decisions ++
                [{ newCandidate with supersedes := some oldId }] }) := by
  unfold supersede
  rw [run_find_bind]
  cases session.decisions.find? (fun d => d.id = oldId) with
  | none => exact .inl ⟨by simp, _, rfl⟩
  | some old =>
      cases hstatus : old.status with
      | accepted => exact .inr ⟨old, rfl, hstatus, by simp only [hstatus]; rfl⟩
      | _ => exact .inl ⟨by simp [hstatus], _, by simp only [hstatus]; rfl⟩

/-- A call raises and leaves the session as it was, or has its effect on the list. -/
theorem outcome_cases (session : DiscussionSession) (call : Call) :
    (∃ exn, call.outcome session = (.error exn, session)) ∨
      ∃ decisions, call.outcome session = (.ok (), { session with decisions }) ∧
        Effect session call decisions := by
  cases call with
  | propose candidate =>
      by_cases htaken : candidate.id ∈ session.decisions.map (·.id)
      · exact .inl ⟨_, (run_propose session candidate).trans (if_pos htaken)⟩
      · exact .inr ⟨_, (run_propose session candidate).trans (if_neg htaken), .propose htaken⟩
  | accept decisionId =>
      obtain ⟨exn, hrun⟩ | ⟨d, hfind, hstatus, hrun⟩ := run_accept session decisionId
      · exact .inl ⟨exn, run_ignoring hrun⟩
      · exact .inr ⟨_, run_ignoring hrun, .accept hfind hstatus⟩
  | reject decisionId =>
      obtain ⟨exn, hrun⟩ | ⟨d, hfind, hstatus, hrun⟩ := run_reject session decisionId
      · exact .inl ⟨exn, run_ignoring hrun⟩
      · exact .inr ⟨_, run_ignoring hrun, .reject hfind hstatus⟩
  | supersede oldId newCandidate =>
      obtain ⟨-, exn, hrun⟩ | ⟨old, hfind, hstatus, hrun⟩ := run_supersede session oldId newCandidate
      · exact .inl ⟨exn, run_ignoring hrun⟩
      · exact .inr ⟨_, run_ignoring hrun, .supersede hfind hstatus⟩

end Run

/-! ## What the ledger keeps -/

section Assign

variable {decisionId : String} {status : DecisionState} {decisions : List DecisionCandidate}
  {d : DecisionCandidate}

@[simp] theorem map_id_assign (decisionId : String) (status : DecisionState) (decisions : List DecisionCandidate) :
    (assign decisionId status decisions).map (·.id) = decisions.map (·.id) := by
  induction decisions with
  | nil => rfl
  | cons d ds ih =>
      unfold assign
      split
      · rfl
      · rw [List.map_cons, List.map_cons, ih]

/-- The decision at a place keeps its status, unless it is the one that is found; then it gets the new one. -/
theorem getElem?_assign (status : DecisionState) {found : DecisionCandidate} {place : Nat}
    (hfind : decisions.find? (fun d => d.id = decisionId) = some found) (hplace : decisions[place]? = some d) :
    (assign decisionId status decisions)[place]? = some d ∨
      (d = found ∧ (assign decisionId status decisions)[place]? = some { d with status }) := by
  induction decisions generalizing place with
  | nil => cases hfind
  | cons first rest ih =>
      unfold assign
      by_cases hfirst : first.id = decisionId
      · rw [List.find?_cons_of_pos (by simpa using hfirst)] at hfind
        cases hfind
        rw [if_pos hfirst]
        cases place with
        | zero =>
            cases hplace
            exact .inr ⟨rfl, rfl⟩
        | succ place => exact .inl hplace
      · rw [List.find?_cons_of_neg (by simpa using hfirst)] at hfind
        rw [if_neg hfirst]
        cases place with
        | zero => exact .inl hplace
        | succ place => exact ih hfind hplace

/-- What is in the list afterwards was there before, up to its status; only the decision that is found has
the new one. -/
theorem mem_assign {found : DecisionCandidate} (hfind : decisions.find? (fun d => d.id = decisionId) = some found)
    (hmem : d ∈ assign decisionId status decisions) :
    d ∈ decisions ∨ (found ∈ decisions ∧ d = { found with status }) := by
  induction decisions with
  | nil => cases hfind
  | cons first rest ih =>
      unfold assign at hmem
      by_cases hfirst : first.id = decisionId
      · rw [List.find?_cons_of_pos (by simpa using hfirst)] at hfind
        cases hfind
        rw [if_pos hfirst] at hmem
        obtain rfl | hrest := List.mem_cons.mp hmem
        · exact .inr ⟨List.mem_cons_self, rfl⟩
        · exact .inl (List.mem_cons_of_mem _ hrest)
      · rw [List.find?_cons_of_neg (by simpa using hfirst)] at hfind
        rw [if_neg hfirst] at hmem
        obtain rfl | hrest := List.mem_cons.mp hmem
        · exact .inl List.mem_cons_self
        · exact (ih hfind hrest).imp (List.mem_cons_of_mem _) (And.imp_left (List.mem_cons_of_mem _))

theorem exists_mem_assign (decisionId : String) (status : DecisionState) (hmem : d ∈ decisions) :
    ∃ d' ∈ assign decisionId status decisions, d'.id = d.id ∧ d'.supersedes = d.supersedes := by
  induction decisions with
  | nil => cases hmem
  | cons first rest ih =>
      unfold assign
      obtain rfl | hrest := List.mem_cons.mp hmem
      · split
        · exact ⟨_, List.mem_cons_self, rfl, rfl⟩
        · exact ⟨d, List.mem_cons_self, rfl, rfl⟩
      · split
        · exact ⟨d, List.mem_cons_of_mem _ hrest, rfl, rfl⟩
        · obtain ⟨d', hd', heq⟩ := ih hrest
          exact ⟨d', List.mem_cons_of_mem _ hd', heq⟩

end Assign

/-! ## The invariant of the ledger -/

/-- How a status may change. -/
inductive Moves : DecisionState → DecisionState → Prop
  | accept : Moves .proposed .accepted
  | reject : Moves .proposed .rejected
  | withdraw : Moves .accepted .rejected
  | supersede : Moves .accepted .superseded

/-- Every superseded decision is named by another one. -/
def Named (decisions : List DecisionCandidate) : Prop :=
  ∀ d ∈ decisions, d.status = .superseded → ∃ other ∈ decisions, other.id ≠ d.id ∧ other.supersedes = some d.id

structure Consistent (decisions : List DecisionCandidate) : Prop where
  distinct : (decisions.map (·.id)).Nodup
  named : Named decisions

/-- A candidate is handed over as proposed or accepted. -/
def Call.Offers : Call → Prop
  | .propose candidate | .supersede _ candidate => candidate.status = .proposed ∨ candidate.status = .accepted
  | .accept _ | .reject _ => True

/-- What superseding adds has an id of its own. -/
def Call.Fresh (decisions : List DecisionCandidate) : Call → Prop
  | .supersede oldId newCandidate =>
    ∀ old, decisions.find? (fun d => d.id = oldId) = some old → old.status = .accepted →
      newCandidate.id ∉ decisions.map (·.id)
  | _ => True

/-- A call moves each decision of the session as it may be moved, and when it raises it changes nothing. -/
structure Orderly (call : Call) (session : DiscussionSession) : Prop where
  moves : ∀ (place : Nat) (d : DecisionCandidate), session.decisions[place]? = some d →
    ∃ d', (call.outcome session).2.decisions[place]? = some d' ∧ d'.id = d.id ∧
      (d'.status = d.status ∨ Moves d.status d'.status)
  raises : ∀ exn, (call.outcome session).1 = .error exn → (call.outcome session).2 = session

section Invariant

variable {session : DiscussionSession} {call : Call} {decisions : List DecisionCandidate}

theorem Effect.moves (h : Effect session call decisions) {place : Nat} {d : DecisionCandidate}
    (hplace : session.decisions[place]? = some d) :
    ∃ d', decisions[place]? = some d' ∧ d'.id = d.id ∧ (d'.status = d.status ∨ Moves d.status d'.status) := by
  have hlt : place < session.decisions.length := (List.getElem?_eq_some_iff.mp hplace).1
  cases h with
  | propose hfresh =>
      exact ⟨d, by rw [List.getElem?_append_left hlt, hplace], rfl, .inl rfl⟩
  | accept hfind hstatus =>
      obtain hkept | ⟨rfl, hset⟩ := getElem?_assign .accepted hfind hplace
      · exact ⟨d, hkept, rfl, .inl rfl⟩
      · exact ⟨_, hset, rfl, .inr (hstatus ▸ .accept)⟩
  | reject hfind hstatus =>
      obtain hkept | ⟨rfl, hset⟩ := getElem?_assign .rejected hfind hplace
      · exact ⟨d, hkept, rfl, .inl rfl⟩
      · obtain hstatus | hstatus := hstatus
        · exact ⟨_, hset, rfl, .inr (hstatus ▸ .reject)⟩
        · exact ⟨_, hset, rfl, .inr (hstatus ▸ .withdraw)⟩
  | @supersede oldId newCandidate old hfind hstatus =>
      have hassign := getElem?_assign .superseded hfind hplace
      have hlt' : place < (assign oldId .superseded session.decisions).length := by
        have hlength := congrArg List.length (map_id_assign oldId .superseded session.decisions)
        simp only [List.length_map] at hlength
        omega
      rw [List.getElem?_append_left hlt']
      obtain hkept | ⟨rfl, hset⟩ := hassign
      · exact ⟨d, hkept, rfl, .inl rfl⟩
      · exact ⟨_, hset, rfl, .inr (hstatus ▸ .supersede)⟩

theorem orderly (call : Call) (session : DiscussionSession) : Orderly call session := by
  obtain ⟨exn, houtcome⟩ | ⟨decisions, houtcome, heffect⟩ := outcome_cases session call
  · exact ⟨fun place d hplace => ⟨d, by rw [houtcome]; exact hplace, rfl, .inl rfl⟩,
      fun exn hraised => by rw [houtcome]⟩
  · refine ⟨fun place d hplace => ?_, fun exn hraised => ?_⟩
    · rw [houtcome]
      exact heffect.moves hplace
    · rw [houtcome] at hraised
      cases hraised

/-! ### Ids -/

theorem distinct_append {decisions : List DecisionCandidate} {candidate : DecisionCandidate}
    (hdistinct : (decisions.map (·.id)).Nodup) (hnew : candidate.id ∉ decisions.map (·.id)) :
    ((decisions ++ [candidate]).map (·.id)).Nodup := by
  have hconcat := hdistinct.concat hnew
  rwa [List.concat_eq_append, ← List.map_singleton (f := DecisionCandidate.id), ← List.map_append] at hconcat

theorem Effect.distinct (h : Effect session call decisions) (hfresh : call.Fresh session.decisions)
    (hdistinct : (session.decisions.map (·.id)).Nodup) : (decisions.map (·.id)).Nodup := by
  cases h with
  | propose hnew => exact distinct_append hdistinct hnew
  | accept => rwa [map_id_assign]
  | reject => rwa [map_id_assign]
  | supersede hfind hstatus =>
      refine distinct_append (by rwa [map_id_assign]) ?_
      rw [map_id_assign]
      exact hfresh _ hfind hstatus

/-! ### Names -/

/-- The status of one decision is set; if it is superseded by that, something else names it. -/
theorem named_assign {decisionId : String} (status : DecisionState) {decisions : List DecisionCandidate}
    (more : List DecisionCandidate) {found : DecisionCandidate} (hfind : decisions.find? (fun d => d.id = decisionId) = some found)
    (hnamed : Named decisions) (hmore : ∀ d ∈ more, d.status ≠ .superseded)
    (hset : status = .superseded → ∃ other ∈ more, other.id ≠ found.id ∧ other.supersedes = some found.id) :
    Named (assign decisionId status decisions ++ more) := by
  intro d hd hsuperseded
  obtain hd | hd := List.mem_append.mp hd
  · obtain hold | ⟨hfound, rfl⟩ := mem_assign hfind hd
    · obtain ⟨other, hother, hne, hnames⟩ := hnamed d hold hsuperseded
      obtain ⟨other', hother', hid, hsupersedes⟩ := exists_mem_assign decisionId status hother
      exact ⟨other', List.mem_append_left _ hother', hid ▸ hne, hsupersedes.trans hnames⟩
    · obtain ⟨other, hother, hne, hnames⟩ := hset hsuperseded
      exact ⟨other, List.mem_append_right _ hother, hne, hnames⟩
  · exact absurd hsuperseded (hmore d hd)

theorem Effect.named (h : Effect session call decisions) (hoffers : call.Offers)
    (hfresh : call.Fresh session.decisions) (hnamed : Named session.decisions) : Named decisions := by
  have hstate : ∀ {candidate : DecisionCandidate}, candidate.status = .proposed ∨ candidate.status = .accepted →
      candidate.status ≠ .superseded := by
    rintro candidate (h | h) <;> rw [h] <;> decide
  cases h with
  | @propose candidate hnew =>
      intro d hd hsuperseded
      obtain hd | hd := List.mem_append.mp hd
      · obtain ⟨other, hother, hrest⟩ := hnamed d hd hsuperseded
        exact ⟨other, List.mem_append_left _ hother, hrest⟩
      · obtain rfl := List.mem_singleton.mp hd
        exact absurd hsuperseded (hstate hoffers)
  | accept hfind =>
      have hassign := named_assign .accepted [] hfind hnamed (by simp) (by simp)
      rwa [List.append_nil] at hassign
  | reject hfind =>
      have hassign := named_assign .rejected [] hfind hnamed (by simp) (by simp)
      rwa [List.append_nil] at hassign
  | @supersede oldId newCandidate old hfind hstatus =>
      have hold : old.id = oldId := by simpa using List.find?_some hfind
      refine named_assign .superseded _ hfind hnamed (by simpa using hstate hoffers) fun _ => ?_
      refine ⟨_, List.mem_singleton_self _, ?_, by rw [hold]⟩
      intro heq
      exact hfresh old hfind hstatus (heq ▸ List.mem_map_of_mem (List.mem_of_find?_eq_some hfind))

theorem outcome_consistent (hoffers : call.Offers) (hfresh : call.Fresh session.decisions)
    (h : Consistent session.decisions) : Consistent (call.outcome session).2.decisions := by
  obtain ⟨exn, houtcome⟩ | ⟨decisions, houtcome, heffect⟩ := outcome_cases session call
  · rwa [houtcome]
  · rw [houtcome]
    exact ⟨heffect.distinct hfresh h.distinct, heffect.named hoffers hfresh h.named⟩

/-- A candidate whose id is taken makes the ids of the session clash. -/
theorem fresh_of_consistent (h : Consistent (call.outcome session).2.decisions) :
    call.Fresh session.decisions := by
  cases call with
  | supersede oldId newCandidate =>
      intro old hfind hstatus htaken
      obtain ⟨hnot, -⟩ | ⟨-, -, -, hrun⟩ := run_supersede session oldId newCandidate
      · exact hnot old hfind hstatus
      · have hdistinct := h.distinct
        rw [Call.outcome, Call.perform, run_ignoring hrun, List.map_append, map_id_assign,
          List.nodup_append] at hdistinct
        exact hdistinct.2.2 _ htaken _ (by simp) rfl
  | _ => trivial

/-! ### Runs -/

theorem run_append (session : DiscussionSession) (done : List Call) (call : Call) :
    run session (done ++ [call]) = (call.outcome (run session done)).2 := by
  rw [run, run, List.foldl_append]
  rfl

/-- In every run over candidates that are offered properly, the ledger stays consistent exactly if it is so
at the start and no decision is superseded by one whose id is taken. -/
theorem run_consistent_iff {calls : List Call} (hdistinct : (session.decisions.map (·.id)).Nodup)
    (hoffers : ∀ call ∈ calls, call.Offers) :
    ((∀ done, done <+: calls → Consistent (run session done).decisions) ∧
        ∀ done call, done ++ [call] <+: calls → Orderly call (run session done)) ↔
      Named session.decisions ∧
        ∀ done call, done ++ [call] <+: calls → call.Fresh (run session done).decisions := by
  constructor
  · rintro ⟨hconsistent, -⟩
    refine ⟨(hconsistent [] List.nil_prefix).named, fun done call hdone => ?_⟩
    exact fresh_of_consistent (run_append session done call ▸ hconsistent _ hdone)
  · rintro ⟨hnamed, hfresh⟩
    refine ⟨fun done => ?_, fun done call _ => orderly call _⟩
    induction done using List.reverseRecOn with
    | nil => exact fun _ => ⟨hdistinct, hnamed⟩
    | append_singleton done call ih =>
        intro hdone
        rw [run_append]
        have hbefore : done <+: calls := (List.prefix_append done [call]).trans hdone
        have hcall : call ∈ calls := hdone.subset (List.mem_append_right _ (List.mem_singleton_self call))
        exact outcome_consistent (hoffers call hcall) (hfresh done call hdone) (ih hbefore)

end Invariant

/-! ### An accepted decision is superseded -/

def proposal (id title : String) (status : DecisionState) : DecisionCandidate where
  id
  title
  statement := title
  rationale := "It is there already."
  status
  timestamp := "2026-01-01T00:00:00+00:00"

def session : DiscussionSession where
  id := "session-1"
  projectId := "atlas"
  decisions := [proposal "dec-1" "Use SQLite" .accepted]
  draft := { sessionId := "draft-1" }
  startedAt := "2026-01-01T00:00:00+00:00"

/-- By another decision. -/
theorem superseded_by_another :
    Consistent (run session [.supersede "dec-1" (proposal "dec-2" "Use files" .proposed)]).decisions := by
  refine ((run_consistent_iff (by decide) ?_).mpr ⟨?_, ?_⟩).1 _ (List.prefix_refl _)
  · exact List.forall_mem_singleton.mpr (.inl rfl)
  · exact fun d hd hsuperseded => by rw [List.mem_singleton.mp hd] at hsuperseded; cases hsuperseded
  · intro done call hdone
    have hcall : call ∈ _ := hdone.subset (List.mem_append_right _ (List.mem_singleton_self call))
    have hlength := hdone.length_le
    rw [List.length_append, List.length_singleton, List.length_singleton] at hlength
    obtain rfl := List.eq_nil_of_length_eq_zero (by omega : done.length = 0)
    rw [List.mem_singleton.mp hcall]
    exact fun _ _ _ => by decide

/-- By a new decision with its own id: nobody can find that one any more. -/
theorem superseded_by_its_own_id :
    (session.decisions.map (·.id)).Nodup ∧ (∀ d ∈ session.decisions, d.status ≠ .superseded) ∧
      (Call.supersede "dec-1" (proposal "dec-1" "Use files" .proposed)).Offers ∧
      ¬ ((run session [.supersede "dec-1" (proposal "dec-1" "Use files" .proposed)]).decisions.map (·.id)).Nodup :=
  ⟨by decide, by decide, .inl rfl, by decide⟩

end AtlasFlow.Reference.DecisionLedger
