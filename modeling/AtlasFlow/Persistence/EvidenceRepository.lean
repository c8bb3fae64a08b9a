import AtlasFlow.Data.Latest
import AtlasFlow.Persistence.WrittenRows

/-!
# Evidence, over its history

`EvidenceRepository`. Whatever was saved, in whatever order and for whatever goals, a goal is listed with the evidence
that was last saved under each id, where that was for this goal, in the order of the instants it was attached at
(`listForGoal_latest`). Evidence that is saved again for another goal is listed there and no longer here.
-/

namespace AtlasFlow.EvidenceRepository

open WrittenRows StoredMoments

/-- The arguments of `SaveAsync`. -/
structure Saved where
  evidence : Evidence
  goalId : GoalId
  runId : Option RunId := none
  digest : String := ""

/-- A text in a column. -/
def textAt (column : String) (row : Row) : String :=
  match row.get? column with
  | some (.text value) => value
  | _ => ""

/-- `SaveAsync`: `INSERT OR REPLACE`, under the primary key. -/
def save (rows : List Row) (saved : Saved) : Except Exn (List Row) := do
  let row ← upsertEvidence.row (parametersForEvidence saved.goalId saved.runId saved.digest saved.evidence)
  return Table.upsert (textAt "id") row rows

/-- `SELECT * FROM evidence WHERE goal_id = $goalId ORDER BY attached_at`: rows that were attached at one moment come in
any order. -/
def Selects (goalId : GoalId) (rows answer : List Row) : Prop :=
  answer.Perm (rows.filter fun row => row.get? "goal_id" = some (.text goalId.value)) ∧
    Ascending (textAt "attached_at") answer

/-- `ListForGoalAsync`, of what is selected. -/
def listForGoal (answer : List Row) : Except Exn (List Evidence) := answer.mapM readEvidence

/-! ## One save -/

/-- The row of a save. -/
def rowOf (saved : Saved) : Row :=
  upsertEvidence.columns.zip
    (parametersForEvidence saved.goalId saved.runId saved.digest saved.evidence).values

theorem save_eq (rows : List Row) (saved : Saved) :
    save rows saved = .ok (Table.upsert (textAt "id") (rowOf saved) rows) := by
  unfold save
  rw [Insert.row_eq rfl (by decide)]
  rfl

theorem id_rowOf (saved : Saved) : textAt "id" (rowOf saved) = saved.evidence.id.value := rfl

theorem goalId_rowOf (saved : Saved) : (rowOf saved).get? "goal_id" = some (.text saved.goalId.value) := rfl

/-- What is read of the row of a save. -/
theorem read_rowOf {saved : Saved} (h : InRange saved.evidence.attachedAt) :
    ∃ back, readEvidence (rowOf saved) = .ok back ∧ back.persisted = saved.evidence.persisted := by
  obtain ⟨row, back, hwrite, hread, hkept, -⟩ := roundTrips_evidence saved.goalId saved.runId saved.digest h
  have hrow : row = rowOf saved := by
    have hsame := (Insert.row_eq rfl (by decide)).symm.trans hwrite
    exact (Except.ok.inj hsame).symm
  exact ⟨back, hrow ▸ hread, hkept⟩

/-! ## All saves -/

variable {saves : List Saved}

theorem rows_eq (saves : List Saved) :
    saves.foldlM save [] = .ok ((Log.latest (fun saved => saved.evidence.id.value) saves).map rowOf) := by
  induction saves using List.reverseRecOn with
  | nil => rfl
  | append_singleton saves saved ih =>
      rw [List.foldlM_append, ih]
      show (save _ saved >>= pure) = _
      rw [save_eq, ← Log.latest_map id_rowOf, Log.upsert_latest, ← List.map_singleton, ← List.map_append,
        Log.latest_map id_rowOf]
      rfl

/-- The rows of a goal. -/
theorem filter_rows (goalId : GoalId) (saves : List Saved) :
    (saves.map rowOf).filter (fun row => row.get? "goal_id" = some (.text goalId.value)) =
      (saves.filter fun saved => saved.goalId = goalId).map rowOf := by
  rw [List.filter_map]
  congr 1
  refine List.filter_congr fun saved _ => ?_
  show decide ((rowOf saved).get? "goal_id" = _) = _
  rw [goalId_rowOf]
  refine decide_eq_decide.mpr ⟨fun h => ?_, fun h => h ▸ rfl⟩
  cases hgoal : goalId
  cases hsaved : saved.goalId
  rw [hgoal, hsaved] at h
  cases h
  rfl

/-- Rows of some saves, in another order. -/
theorem exists_rows {answer : List Row} (h : answer.Perm (saves.map rowOf)) :
    ∃ listed : List Saved, answer = listed.map rowOf ∧ listed.Perm saves := by
  have hcomp : Relation.Comp (fun answer listed => answer = List.map rowOf listed) List.Perm answer saves := by
    rw [List.eq_map_comp_perm]
    exact h
  exact hcomp

/-- Reading rows that were saved. -/
theorem listForGoal_rows (h : ∀ saved ∈ saves, InRange saved.evidence.attachedAt) :
    ∃ evidence, listForGoal (saves.map rowOf) = .ok evidence ∧
      evidence.map Evidence.persisted = saves.map fun saved => saved.evidence.persisted := by
  induction saves with
  | nil => exact ⟨[], rfl, rfl⟩
  | cons saved saves ih =>
      obtain ⟨back, hread, hkept⟩ := read_rowOf (h saved List.mem_cons_self)
      obtain ⟨evidence, hlist, hmap⟩ := ih fun other hother => h other (List.mem_cons_of_mem saved hother)
      refine ⟨back :: evidence, ?_, by rw [List.map_cons, List.map_cons, hkept, hmap]⟩
      unfold listForGoal at hlist ⊢
      rw [List.map_cons, List.mapM_cons, hread, hlist]
      rfl

/-- **A goal's evidence**, after any saves: each id with what was last saved under it, if that was for this goal, in the
order of time. -/
theorem listForGoal_latest (saves : List Saved) (h : ∀ saved ∈ saves, InRange saved.evidence.attachedAt) :
    ∃ rows, saves.foldlM save [] = .ok rows ∧ ∀ goalId answer, Selects goalId rows answer →
      ∃ evidence, listForGoal answer = .ok evidence ∧
        (evidence.map Evidence.persisted).Perm
          (((Log.latest (fun saved => saved.evidence.id.value) saves).filter fun saved => saved.goalId = goalId).map
            fun saved => saved.evidence.persisted) ∧
        evidence.Pairwise fun item later => item.attachedAt.utcTicks ≤ later.attachedAt.utcTicks := by
  refine ⟨_, rows_eq saves, fun goalId answer hselects => ?_⟩
  obtain ⟨hperm, hordered⟩ := hselects
  rw [filter_rows] at hperm
  -- the answer is made of the rows of some of the saves, in another order
  obtain ⟨listed, rfl, hlisted⟩ := exists_rows hperm
  have hrange : ∀ saved ∈ listed, InRange saved.evidence.attachedAt := by
    intro saved hsaved
    have hmem := (List.mem_filter.mp (hlisted.mem_iff.mp hsaved)).1
    obtain ⟨before, later, rfl, -⟩ := Log.mem_latest.mp hmem
    exact h saved (List.mem_append_right before List.mem_cons_self)
  obtain ⟨evidence, hlist, hmap⟩ := listForGoal_rows hrange
  refine ⟨evidence, hlist, ?_, ?_⟩
  · rw [hmap]
    exact hlisted.map _
  · have hcolumn : Ascending (fun saved : Saved => text saved.evidence.attachedAt) listed :=
      List.pairwise_map.mp hordered
    have htimes : listed.Pairwise fun saved later =>
        saved.evidence.attachedAt.utcTicks ≤ later.evidence.attachedAt.utcTicks :=
      hcolumn.instants fun saved hsaved => Stored.csharp (hrange saved hsaved)
    -- a moment in UTC is the same instant
    have hkept : (evidence.map Evidence.persisted).Pairwise fun item later =>
        item.attachedAt.utcTicks ≤ later.attachedAt.utcTicks := by
      rw [hmap]
      exact List.pairwise_map.mpr htimes
    exact (List.pairwise_map.mp hkept).imp fun hle => hle

/-- A build log that is first attached to one goal and then to another. -/
def moved : List Saved :=
  let item : Evidence := ⟨⟨"ev-1"⟩, .build, "log", .failed, "build.log", none, ⟨0, 0⟩⟩
  [⟨item, ⟨"P01-G01"⟩, none, ""⟩, ⟨{ item with verdict := .passed }, ⟨"P02-G01"⟩, none, ""⟩]

theorem listForGoal_latest_moved :
    ∃ rows, moved.foldlM save [] = .ok rows ∧ ∀ goalId answer, Selects goalId rows answer →
      ∃ evidence, listForGoal answer = .ok evidence ∧
        (evidence.map Evidence.persisted).Perm
          (((Log.latest (fun saved => saved.evidence.id.value) moved).filter fun saved => saved.goalId = goalId).map
            fun saved => saved.evidence.persisted) ∧
        evidence.Pairwise fun item later => item.attachedAt.utcTicks ≤ later.attachedAt.utcTicks :=
  listForGoal_latest moved fun saved hsaved => by
    rcases List.mem_cons.mp hsaved with rfl | hsaved
    · exact Nat.zero_le _
    · cases List.mem_singleton.mp hsaved
      exact Nat.zero_le _

end AtlasFlow.EvidenceRepository
