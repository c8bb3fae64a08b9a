import AtlasFlow.Orchestration.WriteScopes
import AtlasFlow.Reference.Batches

/-!
# What a batch keeps apart

`_parallel_batches` splits the ready tasks into batches that keep the order of the list, and asks
`can_coexist` about every two tasks of a batch. That compares components, so it tells a directory from
one inside it, but not the project root, which contains every path and has no component in common with
any (`batched_iff`).
-/

namespace AtlasFlow.Reference

namespace WorktreePolicy

/-- The project root, under any of its spellings. -/
def IsProjectRoot (path : String) : Prop :=
  TaskGraph.trim path.toList = [] ∨ TaskGraph.trim path.toList = ['.']

instance (path : String) : Decidable (IsProjectRoot path) := inferInstanceAs (Decidable (_ ∨ _))

/-- `a` equals `b` or is a directory above it. -/
def Contains (a b : String) : Prop :=
  IsProjectRoot a ∨ (TaskGraph.components a).IsPrefix (TaskGraph.components b)

/-- Some path of one scope contains some path of the other. -/
def Overlap (scopeA scopeB : List String) : Prop :=
  ∃ a ∈ scopeA, ∃ b ∈ scopeB, Contains a b ∨ Contains b a

/-- One of the scopes names the project root, the other names something. -/
def NamesRoot (scopeA scopeB : List String) : Prop :=
  ∃ a ∈ scopeA, ∃ b ∈ scopeB, IsProjectRoot a ∨ IsProjectRoot b

/-- Two lists agree up to the end of the shorter exactly when it begins the other. -/
theorem length_common_eq (l r : List (List Char)) :
    (TaskGraph.common l r).length = min l.length r.length ↔ l.IsPrefix r ∨ r.IsPrefix l := by
  induction l generalizing r with
  | nil => simp [TaskGraph.common]
  | cons a l ih =>
      cases r with
      | nil => simp [TaskGraph.common]
      | cons b r =>
          rw [TaskGraph.common]
          by_cases hab : a = b
          · subst hab
            rw [if_pos rfl]
            simp [ih r]
          · have hba : ¬ b = a := fun h => hab h.symm
            rw [if_neg hab]
            simp [List.cons_prefix_cons, hab, hba]

/-- `overlaps` compares components, and knows no root. -/
theorem overlaps_iff (a b : String) : overlaps a b = true ↔
    (TaskGraph.components a).IsPrefix (TaskGraph.components b) ∨
      (TaskGraph.components b).IsPrefix (TaskGraph.components a) := by
  have ha := List.length_pos_iff.mpr (TaskGraph.components_ne_nil a)
  have hb := List.length_pos_iff.mpr (TaskGraph.components_ne_nil b)
  rw [← length_common_eq, overlaps]
  simp only [Bool.and_eq_true, decide_eq_true_eq, and_iff_right_iff_imp]
  omega

theorem canCoexist_iff (scopeA scopeB : List String) : canCoexist scopeA scopeB = true ↔
    ∀ a ∈ scopeA, ∀ b ∈ scopeB, overlaps a b ≠ true := by
  simp [canCoexist]

theorem Overlap.symm {scopeA scopeB : List String} (h : Overlap scopeA scopeB) :
    Overlap scopeB scopeA := by
  obtain ⟨a, ha, b, hb, hab⟩ := h
  exact ⟨b, hb, a, ha, hab.symm⟩

/-- What `can_coexist` does not see of an overlap is the root. -/
theorem overlap_iff_of_canCoexist {scopeA scopeB : List String}
    (h : canCoexist scopeA scopeB = true) : Overlap scopeA scopeB ↔ NamesRoot scopeA scopeB := by
  rw [canCoexist_iff] at h
  constructor
  · rintro ⟨a, ha, b, hb, (hroot | hpre) | (hroot | hpre)⟩
    · exact ⟨a, ha, b, hb, .inl hroot⟩
    · exact absurd ((overlaps_iff a b).mpr (.inl hpre)) (h a ha b hb)
    · exact ⟨a, ha, b, hb, .inr hroot⟩
    · exact absurd ((overlaps_iff a b).mpr (.inr hpre)) (h a ha b hb)
  · rintro ⟨a, ha, b, hb, hroot | hroot⟩
    · exact ⟨a, ha, b, hb, .inl (.inl hroot)⟩
    · exact ⟨a, ha, b, hb, .inr (.inl hroot)⟩

end WorktreePolicy

namespace GoalRunner

open WorktreePolicy

/-- `can_coexist` said yes when the later of two tasks was put beside the earlier. -/
def Admitted (earlier later : Entry) : Prop :=
  canCoexist later.2.writeScope earlier.2.writeScope = true

/-- What placing one more task does to a batch: it is there already, or it is one of those with the
task after it, or the task alone. -/
theorem mem_place {limit : Nat} {entry : Entry} {batches : List (List Entry)} {batch : List Entry}
    (h : batch ∈ place limit entry batches) :
    batch ∈ batches ∨ batch = [entry] ∨
      ∃ old ∈ batches, batch = old ++ [entry] ∧ ∀ other ∈ old, Admitted other entry := by
  induction batches with
  | nil => exact .inr (.inl (List.mem_singleton.mp h))
  | cons first rest ih =>
      rw [place] at h
      split at h
      · next hroom =>
          rcases List.mem_cons.mp h with rfl | hmem
          · exact .inr (.inr ⟨first, List.mem_cons_self, rfl, List.all_eq_true.mp hroom.2⟩)
          · exact .inl (List.mem_cons_of_mem first hmem)
      · rcases List.mem_cons.mp h with rfl | hmem
        · exact .inl List.mem_cons_self
        · rcases ih hmem with hold | hone | ⟨old, hold, heq, hall⟩
          · exact .inl (List.mem_cons_of_mem first hold)
          · exact .inr (.inl hone)
          · exact .inr (.inr ⟨old, List.mem_cons_of_mem first hold, heq, hall⟩)

/-- Every batch is a part of the list, in its order, with every two of its tasks admitted together. -/
theorem of_mem_parallelBatches {maxParallelTasks : Int} {ready batch : List Entry}
    (h : batch ∈ parallelBatches maxParallelTasks ready) :
    batch ≠ [] ∧ batch.Sublist ready ∧ batch.Pairwise Admitted := by
  rw [parallelBatches] at h
  induction ready using List.reverseRecOn generalizing batch with
  | nil => exact absurd h List.not_mem_nil
  | append_singleton ready entry ih =>
      rw [List.foldl_append] at h
      rcases mem_place h with hold | rfl | ⟨old, hold, rfl, hall⟩
      · obtain ⟨hne, hsub, hpair⟩ := ih hold
        exact ⟨hne, hsub.trans (List.sublist_append_left ready [entry]), hpair⟩
      · exact ⟨by simp, List.sublist_append_right ready [entry], List.pairwise_singleton _ _⟩
      · obtain ⟨_, hsub, hpair⟩ := ih hold
        refine ⟨by simp, hsub.append_right [entry], List.pairwise_append.mpr
          ⟨hpair, List.pairwise_singleton _ _, fun other hother last hlast => ?_⟩⟩
        rw [List.mem_singleton.mp hlast]
        exact hall other hother

/-- What the batches of a ready list promise: each task in one batch, in list order, at least one and
at most the limit together, and no two together that write overlapping paths. -/
structure Batched (maxParallelTasks : Int) (ready : List Entry) : Prop where
  partition : (parallelBatches maxParallelTasks ready).flatten.Perm ready
  order : ∀ batch ∈ parallelBatches maxParallelTasks ready, batch.Sublist ready
  size : ∀ batch ∈ parallelBatches maxParallelTasks ready,
    1 ≤ batch.length ∧ (batch.length : Int) ≤ max 1 maxParallelTasks
  apart : ∀ batch ∈ parallelBatches maxParallelTasks ready,
    batch.Pairwise fun a b => ¬ Overlap a.2.writeScope b.2.writeScope

/-- Two tasks the code takes for independent although one writes the project root. -/
def Mistaken (a b : Entry) : Prop :=
  Admitted a b ∧ NamesRoot b.2.writeScope a.2.writeScope

theorem mistaken_iff {a b : Entry} :
    Mistaken a b ↔ Admitted a b ∧ Overlap b.2.writeScope a.2.writeScope :=
  and_congr_right fun h => (overlap_iff_of_canCoexist h).symm

/-- The paths of a batch are apart where it holds one task only, or no mistaken pair. -/
theorem batched {ready : List Entry} {maxParallelTasks : Int}
    (h : maxParallelTasks ≤ 1 ∨ ready.Pairwise fun a b => ¬ Mistaken a b) :
    Batched maxParallelTasks ready := by
  refine ⟨parallelBatches_perm _ _, fun batch hbatch => (of_mem_parallelBatches hbatch).2.1,
    fun batch hbatch => ⟨?_, length_of_mem_parallelBatches hbatch⟩, fun batch hbatch => ?_⟩
  · exact List.length_pos_iff.mpr (of_mem_parallelBatches hbatch).1
  · obtain ⟨hne, hsub, hpair⟩ := of_mem_parallelBatches hbatch
    rcases h with hone | hready
    · have hlength := length_of_mem_parallelBatches hbatch
      obtain ⟨entry, rest, rfl⟩ := List.exists_cons_of_ne_nil hne
      obtain rfl : rest = [] := by
        rw [List.length_cons] at hlength
        exact List.length_eq_zero_iff.mp (by omega)
      exact List.pairwise_singleton _ _
    · exact (hpair.and (hready.sublist hsub)).imp fun ⟨hadmitted, hnot⟩ hoverlap =>
        hnot (mistaken_iff.mpr ⟨hadmitted, hoverlap.symm⟩)

/-- **Exactly the tasks whose batches are always safe**, whichever of them are ready: one runs at a
time, or no two of them are taken for independent while one writes the project root. -/
theorem batched_iff (tasks : List Entry) (maxParallelTasks : Int) :
    (∀ ready, ready.Sublist tasks → Batched maxParallelTasks ready) ↔
      maxParallelTasks ≤ 1 ∨ tasks.Pairwise fun a b => ¬ Mistaken a b := by
  constructor
  · intro h
    by_cases hmax : maxParallelTasks ≤ 1
    · exact .inl hmax
    refine .inr (List.pairwise_of_forall_sublist fun {a b} hsub hmistaken => ?_)
    obtain ⟨hadmitted, hoverlap⟩ := mistaken_iff.mp hmistaken
    -- with only these two ready and room for both, they run together
    have hbatch : [a, b] ∈ parallelBatches maxParallelTasks [a, b] := by
      have hadmitted' : canCoexist b.2.writeScope a.2.writeScope = true := hadmitted
      have hroom : 1 < (max 1 maxParallelTasks).toNat := by omega
      simp [parallelBatches, place, hadmitted', hroom]
    have hapart := (h [a, b] hsub).apart [a, b] hbatch
    exact (List.pairwise_pair.mp hapart) hoverlap.symm
  · rintro (hone | hpair) ready hsub
    · exact batched (.inl hone)
    · exact batched (.inr (hpair.sublist hsub))

/-- A task and its node that write `path`. -/
def writing (id path : String) : Entry :=
  let task : Task := { id := ⟨id⟩, runId := ⟨"r"⟩, objective := "", createdAt := "" }
  let node : TaskNode := { id, objective := "", writeScope := [path] }
  (task, node)

/-- The project root and a directory of it are put in one batch. -/
theorem not_batched_root : ¬ Batched 2 [writing "a" "", writing "b" "src"] := fun h =>
  absurd (h.apart [writing "a" "", writing "b" "src"] (by decide +kernel))
    (fun hapart => (List.pairwise_pair.mp hapart)
      ⟨"", List.mem_singleton_self _, "src", List.mem_singleton_self _, .inl (.inl (.inl rfl))⟩)

end GoalRunner

end AtlasFlow.Reference
