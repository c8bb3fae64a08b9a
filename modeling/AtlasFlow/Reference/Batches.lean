import AtlasFlow.Orchestration.TaskGraph
import AtlasFlow.Reference.Dag

/-!
# Which tasks run side by side

`WorktreePolicy` and `_parallel_batches`: every ready task goes to the first batch that has room for it
and nothing whose write scope overlaps its own. The components of a path are those of
`TaskGraph.components`: both programs strip and split at slashes.
-/

namespace AtlasFlow.Reference

namespace WorktreePolicy

/-- `requires_isolation`. -/
def requiresIsolation (taskWriteScope : List String) : Bool := 0 < taskWriteScope.length

/-- One path contains the other. -/
def overlaps (pa pb : String) : Bool :=
  let partsA := TaskGraph.components pa
  let partsB := TaskGraph.components pb
  let common := (TaskGraph.common partsA partsB).length
  0 < common && common = min partsA.length partsB.length

/-- `can_coexist`. -/
def canCoexist (scopeA scopeB : List String) : Bool :=
  !scopeA.any fun pa => scopeB.any fun pb => overlaps pa pb

end WorktreePolicy

/-- A task with its node, as `_run_task` is given them. -/
abbrev Entry := Task × TaskNode

namespace GoalRunner

/-- One round of the loop over the ready tasks. -/
def place (limit : Nat) (entry : Entry) : List (List Entry) → List (List Entry)
  | [] => [[entry]]
  | batch :: rest =>
    if batch.length < limit ∧
        batch.all fun other => WorktreePolicy.canCoexist entry.2.writeScope other.2.writeScope then
      (batch ++ [entry]) :: rest
    else batch :: place limit entry rest

/-- `_parallel_batches`. -/
def parallelBatches (maxParallelTasks : Int) (ready : List Entry) : List (List Entry) :=
  ready.foldl (fun batches entry => place (max 1 maxParallelTasks).toNat entry batches) []

theorem place_perm (limit : Nat) (entry : Entry) (batches : List (List Entry)) :
    (place limit entry batches).flatten.Perm (batches.flatten ++ [entry]) := by
  induction batches with
  | nil => exact List.Perm.refl _
  | cons batch rest ih =>
      rw [place]
      split
      · rw [List.flatten_cons, List.flatten_cons, List.append_assoc, List.append_assoc]
        exact List.perm_append_comm.append_left batch
      · rw [List.flatten_cons, List.flatten_cons, List.append_assoc]
        exact ih.append_left batch

theorem place_length {limit : Nat} (hlimit : 1 ≤ limit) (entry : Entry) {batches : List (List Entry)}
    (h : ∀ batch ∈ batches, batch.length ≤ limit) :
    ∀ batch ∈ place limit entry batches, batch.length ≤ limit := by
  induction batches with
  | nil =>
      intro batch hbatch
      rw [List.mem_singleton.mp hbatch]
      exact hlimit
  | cons first rest ih =>
      rw [place]
      split
      · next hroom =>
          intro batch hbatch
          rcases List.mem_cons.mp hbatch with rfl | hmem
          · rw [List.length_append]
            exact hroom.1
          · exact h batch (List.mem_cons_of_mem first hmem)
      · intro batch hbatch
        rcases List.mem_cons.mp hbatch with rfl | hmem
        · exact h batch List.mem_cons_self
        · exact ih (fun b hb => h b (List.mem_cons_of_mem first hb)) batch hmem

/-- Every ready task is in exactly one batch. -/
theorem parallelBatches_perm (maxParallelTasks : Int) (ready : List Entry) :
    (parallelBatches maxParallelTasks ready).flatten.Perm ready := by
  rw [parallelBatches]
  induction ready using List.reverseRecOn with
  | nil => exact List.Perm.refl _
  | append_singleton ready entry ih =>
      rw [List.foldl_append]
      exact (place_perm _ entry _).trans (ih.append_right [entry])

/-- No batch is larger than the limit. -/
theorem length_of_mem_parallelBatches {maxParallelTasks : Int} {ready batch : List Entry}
    (h : batch ∈ parallelBatches maxParallelTasks ready) :
    (batch.length : Int) ≤ max 1 maxParallelTasks := by
  suffices hall : ∀ b ∈ parallelBatches maxParallelTasks ready,
      b.length ≤ (max 1 maxParallelTasks).toNat by
    have := hall batch h
    omega
  rw [parallelBatches]
  clear h
  induction ready using List.reverseRecOn with
  | nil => exact fun _ h => absurd h List.not_mem_nil
  | append_singleton ready entry ih =>
      rw [List.foldl_append]
      exact place_length (by omega) entry ih

end GoalRunner

end AtlasFlow.Reference
