import AtlasFlow.Data.Dict
import AtlasFlow.Data.Table
import AtlasFlow.Reference.Plans
import AtlasFlow.Data.Attempts

/-!
# Gates

`verification/gates.py`, and the evidence table it reads: a coordinator holds the evidence of a goal in
a dictionary by id and gives each gate a verdict. The columns of an enumeration hold text, which is
parsed when a row is read.
-/

namespace AtlasFlow.Reference

open SqlValues (Spelled text)

instance : Spelled GateVerdict where
  typeName := "GateVerdict"
  text
    | .passed => "PASSED"
    | .failed => "FAILED"
    | .pending => "PENDING"
  switch := [("PASSED", .passed), ("FAILED", .failed), ("PENDING", .pending)]
  switch_text a := by cases a <;> decide
  switch_sound := by decide

section Member

variable {α : Type} [Spelled α]

/-- `GateKind(name)`: an enumeration is called with the text of a member. -/
def member (name : String) : Except PyExn α :=
  match (Spelled.switch : List (String × α)).find? fun arm => arm.1 = name with
  | some arm => .ok arm.2
  | none => .error (.valueError s!"'{name}' is not a valid {Spelled.typeName α}")

@[simp] theorem member_text (a : α) : member (text a) = .ok a := by
  rw [member, Spelled.switch_text]

theorem member_eq_ok {name : String} {a : α} : member name = .ok a ↔ name = text a := by
  constructor
  · intro h
    unfold member at h
    split at h
    · next arm harm =>
      have hname : arm.1 = name := by simpa using List.find?_some harm
      cases h
      exact hname.symm.trans (Spelled.switch_sound arm (List.mem_of_find?_eq_some harm))
    · cases h
  · rintro rfl
    exact member_text a

end Member

/-! ## Stored evidence -/

/-- An `Evidence` with the id and the moment that `Evidence.new` gives it. -/
structure EvidenceItem extends Evidence where
  id : String
  digest : String := ""
  attachedAt : String
  deriving DecidableEq, Repr

structure EvidenceRow where
  id : String
  goalId : String
  runId : Option RunId
  taskId : Option TaskId
  gate : String
  kind : String
  uri : String
  digest : String
  verdict : String
  attachedAt : String
  deriving DecidableEq, Repr

def EvidenceItem.row (evidence : EvidenceItem) : EvidenceRow where
  id := evidence.id
  goalId := evidence.goalId
  runId := evidence.runId
  taskId := evidence.taskId
  gate := text evidence.gate
  kind := evidence.kind
  uri := evidence.uri
  digest := evidence.digest
  verdict := text evidence.verdict
  attachedAt := evidence.attachedAt

def EvidenceRow.read (row : EvidenceRow) : Except PyExn EvidenceItem := do
  let gate ← member row.gate
  let verdict ← member row.verdict
  return {
    id := row.id, goalId := row.goalId, gate := gate, kind := row.kind, uri := row.uri, digest := row.digest,
    attachedAt := row.attachedAt, verdict := verdict, runId := row.runId, taskId := row.taskId }

/-- The table `evidence`. -/
structure EvidenceTable where
  rows : List EvidenceRow
  keyed : Table.Keyed EvidenceRow.id rows

namespace EvidenceTable

/-- `Persistence.save_evidence`. -/
def saveEvidence (table : EvidenceTable) (evidence : EvidenceItem) : EvidenceTable :=
  ⟨Table.upsert EvidenceRow.id evidence.row table.rows, Table.keyed_upsert table.keyed evidence.row⟩

/-- `WHERE goal_id = ? ORDER BY attached_at`. -/
def select (table : EvidenceTable) (goalId : String) : List EvidenceRow :=
  (table.rows.filter fun row => row.goalId = goalId).mergeSort fun a b => decide (a.attachedAt ≤ b.attachedAt)

/-- `Persistence.load_evidence`. -/
def loadEvidence (table : EvidenceTable) (goalId : String) : Except PyExn (List EvidenceItem) :=
  (table.select goalId).mapM EvidenceRow.read

end EvidenceTable

/-! ## The coordinator -/

structure GateResult where
  gate : GateKind
  verdict : GateVerdict
  evidenceIds : List String := []
  details : String := ""
  deriving DecidableEq, Repr

/-- Of a `GateCoordinator` what a verdict depends on: proposed repairs are read by nobody here. -/
structure GateCoordinator where
  evidence : Dict String EvidenceItem := []
  deriving DecidableEq, Repr

namespace GateCoordinator

variable (coordinator : GateCoordinator)

def attachEvidence (evidence : EvidenceItem) : GateCoordinator := ⟨coordinator.evidence.set evidence.id evidence⟩

/-- What was stored, and the coordinator that holds it too. -/
def loadEvidence (table : EvidenceTable) (goalId : String) : Except PyExn (List EvidenceItem × GateCoordinator) := do
  let stored ← table.loadEvidence goalId
  return (stored, stored.foldl attachEvidence coordinator)

def evaluateGate (gate : GateKind) : GateResult :=
  let relevant := coordinator.evidence.values.filter fun e => e.gate = gate
  let passed := relevant.filter fun e => e.verdict = .passed
  let failed := relevant.filter fun e => e.verdict = .failed
  if failed ≠ [] then
    { gate, verdict := .failed, evidenceIds := failed.map (·.id)
      details := s!"Gate {text gate}: {failed.length} evidence items FAILED" }
  else if passed = [] then
    { gate, verdict := .pending, details := s!"Gate {text gate}: no evidence attached" }
  else
    { gate, verdict := .passed, evidenceIds := passed.map (·.id) }

/-- `evaluate_all`, over the items of `required_gates`. -/
def evaluateAll (requiredGates : Dict String String) : Except PyExn (Dict GateKind GateResult) :=
  requiredGates.foldlM (fun results (gateStr, requirement) => do
    if requirement ≠ "required" then return results
    let gate ← member gateStr
    return results.set gate (coordinator.evaluateGate gate)) []

def allPassed (requiredGates : Dict String String) : Except PyExn Bool := do
  let results ← coordinator.evaluateAll requiredGates
  if results = [] then return false
  return results.values.all fun result => result.verdict = .passed

def pendingGates (requiredGates : Dict String String) : Except PyExn (List GateKind) := do
  let results ← coordinator.evaluateAll requiredGates
  return Dict.keys (results.filter fun item => item.2.verdict ≠ .passed)

end GateCoordinator

/-- `goal.gates.model_dump()`. -/
def GoalGates.modelDump (gates : GoalGates) : Dict String String := gates.items.map fun item => (text item.1, item.2)

/-! ## What a fresh coordinator knows -/

theorem EvidenceRow.read_eq {row : EvidenceRow} {e : EvidenceItem} (h : row.read = .ok e) :
    e.id = row.id ∧ e.goalId = row.goalId := by
  unfold EvidenceRow.read at h
  cases hgate : (member row.gate : Except PyExn GateKind) with
  | error x => rw [hgate] at h; cases h
  | ok gate =>
      cases hverdict : (member row.verdict : Except PyExn GateVerdict) with
      | error x => rw [hgate, hverdict] at h; cases h
      | ok verdict =>
          rw [hgate, hverdict] at h
          cases h
          exact ⟨rfl, rfl⟩

/-- What was written is read back. -/
@[simp] theorem EvidenceItem.read_row (evidence : EvidenceItem) : evidence.row.read = .ok evidence := by
  simp only [EvidenceItem.row, EvidenceRow.read, member_text]
  rfl

namespace EvidenceTable

variable {table : EvidenceTable} {goalId : String} {stored : List EvidenceItem}

/-- Evidence is loaded once, and only for the goal that was asked about. -/
theorem loadEvidence_spec (h : table.loadEvidence goalId = .ok stored) :
    (stored.map (·.id)).Nodup ∧ ∀ e ∈ stored, e.goalId = goalId := by
  have hids : stored.map (·.id) = (table.select goalId).map (·.id) :=
    Attempts.map_of_mapM h fun _ _ hread => (EvidenceRow.read_eq hread).1
  have hgoals : stored.map (·.goalId) = (table.select goalId).map (·.goalId) :=
    Attempts.map_of_mapM h fun _ _ hread => (EvidenceRow.read_eq hread).2
  have hperm : (table.select goalId).Perm (table.rows.filter fun row => row.goalId = goalId) :=
    List.mergeSort_perm _ _
  constructor
  · rw [hids]
    exact (hperm.map _).nodup_iff.mpr (table.keyed.sublist (List.filter_sublist.map _))
  · intro e he
    have hmem : e.goalId ∈ (table.select goalId).map (·.goalId) := by
      rw [← hgoals]
      exact List.mem_map_of_mem he
    obtain ⟨row, hrow, heq⟩ := List.mem_map.mp hmem
    rw [← heq]
    simpa using List.of_mem_filter (hperm.mem_iff.mp hrow)

/-- Every row was written by `save_evidence`. -/
def Written (table : EvidenceTable) : Prop := ∀ row ∈ table.rows, ∃ e : EvidenceItem, e.row = row

theorem Written.saveEvidence (h : table.Written) (evidence : EvidenceItem) :
    (table.saveEvidence evidence).Written := by
  intro row hrow
  rcases Table.mem_upsert.mp hrow with ⟨hold, -⟩ | rfl
  · exact h row hold
  · exact ⟨evidence, rfl⟩

/-- The program reads whatever evidence it wrote. -/
theorem Written.loadEvidence (h : table.Written) (goalId : String) :
    ∃ stored, table.loadEvidence goalId = .ok stored := by
  have hselect : ∀ row ∈ table.select goalId, ∃ e : EvidenceItem, e.row = row := fun row hrow =>
    h row (List.mem_of_mem_filter ((List.mergeSort_perm _ _).mem_iff.mp hrow))
  unfold EvidenceTable.loadEvidence
  generalize table.select goalId = rows at hselect ⊢
  induction rows with
  | nil => exact ⟨[], rfl⟩
  | cons row rows ih =>
      obtain ⟨e, rfl⟩ := hselect _ List.mem_cons_self
      obtain ⟨stored, hstored⟩ := ih fun row hrow => hselect row (List.mem_cons_of_mem _ hrow)
      exact ⟨e :: stored, by rw [List.mapM_cons, EvidenceItem.read_row, hstored]; rfl⟩

end EvidenceTable

namespace GateCoordinator

variable {coordinator : GateCoordinator} {table : EvidenceTable} {goalId : String} {stored : List EvidenceItem}

theorem foldl_attachEvidence (stored : List EvidenceItem) (coordinator : GateCoordinator) :
    (stored.foldl attachEvidence coordinator).evidence =
      (stored.map fun e => (e.id, e)).foldl (fun d item => d.set item.1 item.2) coordinator.evidence := by
  induction stored generalizing coordinator with
  | nil => rfl
  | cons e stored ih => exact ih (coordinator.attachEvidence e)

/-- A fresh coordinator holds what it has loaded, and nothing else. -/
theorem values_of_loadEvidence (h : ({} : GateCoordinator).loadEvidence table goalId = .ok (stored, coordinator)) :
    table.loadEvidence goalId = .ok stored ∧ coordinator.evidence.values = stored := by
  unfold loadEvidence at h
  cases hload : table.loadEvidence goalId with
  | error e => rw [hload] at h; cases h
  | ok items =>
      rw [hload] at h
      cases h
      have hkeys : (stored.map fun e => (e.id, e)).map Prod.fst = stored.map (·.id) := List.map_map
      have hnodup : ((stored.map fun e => (e.id, e)).map Prod.fst).Nodup := by
        rw [hkeys]
        exact (EvidenceTable.loadEvidence_spec hload).1
      have hitems := Dict.ofItems_of_nodup hnodup
      refine ⟨rfl, ?_⟩
      rw [foldl_attachEvidence]
      calc Dict.values (Dict.ofItems (stored.map fun e => (e.id, e)))
          = Dict.values (stored.map fun e => (e.id, e)) := by rw [hitems]
        _ = stored := by
          rw [Dict.values, List.map_map]
          exact List.map_id stored

end GateCoordinator

end AtlasFlow.Reference
